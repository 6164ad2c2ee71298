import Coin98Vault.Framework.Buffer

/-!
# Accounts and records of the vault program

The seeds, the error codes, the two account types and the four layouts of a redemption
record, each with its Borsh codec in the order in which its fields are declared.
-/

namespace Coin98Vault

abbrev Pubkey := Bytes32
abbrev Hash := Bytes32

/-- The system program, which the vault also writes where it means "no key". -/
def systemProgramId : Pubkey := Bytes32.ofNat 0

def tokenProgramId : Pubkey :=
  ⟨[6, 221, 246, 225, 215, 101, 161, 147, 217, 203, 225, 70, 206, 235, 121, 172,
    28, 180, 133, 237, 95, 91, 55, 145, 58, 140, 245, 133, 126, 255, 0, 169], rfl⟩

def scheduleSeed1 : Bytes := [244, 131, 10, 29, 174, 41, 128, 68]
def signerSeed1 : Bytes := [2, 151, 229, 53, 244, 77, 229, 7]
def vaultSeed1 : Bytes := [93, 85, 196, 21, 227, 86, 221, 123]

inductive ErrorCode where
  | invalidAccount
  | invalidInput
  | redeemed
  | scheduleLocked
  | scheduleUnavailable
  | unauthorized
  deriving DecidableEq, Repr

inductive ObjType where
  | distribution
  | distributionMulti
  | vault
  deriving DecidableEq, Repr

namespace ObjType

/-- Borsh writes the position of the variant, not its declared discriminant. -/
def toByte : ObjType → UInt8
  | distribution => 0
  | distributionMulti => 1
  | vault => 2

def ofByte (n : UInt8) : Option ObjType :=
  if n = 0 then some distribution
  else if n = 1 then some distributionMulti
  else if n = 2 then some vault
  else none

def codec : Codec ObjType := Codec.tag toByte ofByte fun n t => by
  unfold ofByte toByte
  cases t <;> (repeat' split) <;> simp_all

end ObjType

structure Schedule where
  objType : ObjType
  nonce : UInt8
  eventId : UInt64
  vaultId : Pubkey
  timestamp : Int64
  merkleRoot : Bytes
  /-- Type of the token a user redeems. -/
  receivingTokenMint : Pubkey
  receivingTokenAccount : Pubkey
  /-- Type of the token that may be required as a fee for redemption. -/
  sendingTokenMint : Pubkey
  sendingTokenAccount : Pubkey
  isActive : Bool
  redemptions : List Bool
  deriving DecidableEq

namespace Schedule

def size (userCount : UInt16) : Nat :=
  1 + 1 + 8 + 32 + 8 + 36 + 32 + 32 + 32 + 32 + 1 + (4 + userCount.toNat)

def codec : Codec Schedule :=
  (ObjType.codec.pair <| Codec.u8.pair <| Codec.u64.pair <| Codec.bytes32.pair <|
    Codec.i64.pair <| Codec.u8.vec.pair <| Codec.bytes32.pair <| Codec.bytes32.pair <|
    Codec.bytes32.pair <| Codec.bytes32.pair <| Codec.bool.pair Codec.bool.vec).iso
  (fun s => (s.objType, s.nonce, s.eventId, s.vaultId, s.timestamp, s.merkleRoot,
    s.receivingTokenMint, s.receivingTokenAccount, s.sendingTokenMint, s.sendingTokenAccount,
    s.isActive, s.redemptions))
  (fun (a, b, c, d, e, f, g, h, i, j, k, l) => ⟨a, b, c, d, e, f, g, h, i, j, k, l⟩)
  (fun _ => rfl) (fun _ => rfl)

/-- The account discriminator is the head of `sha256("account:Schedule")`. -/
def layout : Layout Schedule := ⟨[217, 243, 116, 56, 73, 82, 207, 51], rfl, codec⟩

end Schedule

structure Vault where
  objType : ObjType
  signerNonce : UInt8
  owner : Pubkey
  newOwner : Pubkey
  admins : List Pubkey
  deriving DecidableEq

namespace Vault

def size : Nat := 1 + 1 + 32 + 32 + (4 + 32 * 16)

def codec : Codec Vault :=
  (ObjType.codec.pair <| Codec.u8.pair <| Codec.bytes32.pair <| Codec.bytes32.pair
    Codec.bytes32.vec).iso
  (fun v => (v.objType, v.signerNonce, v.owner, v.newOwner, v.admins))
  (fun (a, b, c, d, e) => ⟨a, b, c, d, e⟩) (fun _ => rfl) (fun _ => rfl)

/-- The account discriminator is the head of `sha256("account:Vault")`. -/
def layout : Layout Vault := ⟨[211, 8, 232, 43, 2, 152, 117, 119], rfl, codec⟩

end Vault

structure RedemptionParams where
  index : UInt16
  address : Pubkey
  receivingAmount : UInt64
  sendingAmount : UInt64
  deriving DecidableEq

structure RedemptionParamsV2 where
  index : UInt16
  timestamp : Int64
  address : Pubkey
  receivingAmount : UInt64
  sendingAmount : UInt64
  deriving DecidableEq

structure RedemptionMultiParams where
  index : UInt16
  address : Pubkey
  receivingTokenMint : Pubkey
  receivingAmount : UInt64
  sendingAmount : UInt64
  deriving DecidableEq

structure RedemptionMultiParamsV2 where
  index : UInt16
  timestamp : Int64
  address : Pubkey
  receivingTokenMint : Pubkey
  receivingAmount : UInt64
  sendingAmount : UInt64
  deriving DecidableEq

def RedemptionParams.codec : Codec RedemptionParams :=
  (Codec.u16.pair <| Codec.bytes32.pair <| Codec.u64.pair Codec.u64).iso
  (fun r => (r.index, r.address, r.receivingAmount, r.sendingAmount))
  (fun (a, b, c, d) => ⟨a, b, c, d⟩) (fun _ => rfl) (fun _ => rfl)

def RedemptionParamsV2.codec : Codec RedemptionParamsV2 :=
  (Codec.u16.pair <| Codec.i64.pair <| Codec.bytes32.pair <| Codec.u64.pair Codec.u64).iso
  (fun r => (r.index, r.timestamp, r.address, r.receivingAmount, r.sendingAmount))
  (fun (a, b, c, d, e) => ⟨a, b, c, d, e⟩) (fun _ => rfl) (fun _ => rfl)

def RedemptionMultiParams.codec : Codec RedemptionMultiParams :=
  (Codec.u16.pair <| Codec.bytes32.pair <| Codec.bytes32.pair <| Codec.u64.pair Codec.u64).iso
  (fun r => (r.index, r.address, r.receivingTokenMint, r.receivingAmount, r.sendingAmount))
  (fun (a, b, c, d, e) => ⟨a, b, c, d, e⟩) (fun _ => rfl) (fun _ => rfl)

def RedemptionMultiParamsV2.codec : Codec RedemptionMultiParamsV2 :=
  (Codec.u16.pair <| Codec.i64.pair <| Codec.bytes32.pair <| Codec.bytes32.pair <|
    Codec.u64.pair Codec.u64).iso
  (fun r => (r.index, r.timestamp, r.address, r.receivingTokenMint, r.receivingAmount,
    r.sendingAmount))
  (fun (a, b, c, d, e, f) => ⟨a, b, c, d, e, f⟩) (fun _ => rfl) (fun _ => rfl)

/-! ## Encoded sizes -/

theorem ObjType.codec_width : ObjType.codec.Width 1 := Codec.tag_width

theorem Schedule.encode_length (s : Schedule) :
    (Schedule.codec.encode s).length = 187 + s.merkleRoot.length + s.redemptions.length := by
  simp only [Schedule.codec, Codec.iso, Codec.pair, List.length_append, ObjType.codec_width _,
    Codec.u8_width _, Codec.u64_width _, Codec.bytes32_width _, Codec.i64_width _,
    Codec.bool_width _, Codec.vec_length Codec.u8_width, Codec.vec_length Codec.bool_width]
  omega

theorem Vault.encode_length (v : Vault) :
    (Vault.codec.encode v).length = 70 + 32 * v.admins.length := by
  simp only [Vault.codec, Codec.iso, Codec.pair, List.length_append, ObjType.codec_width _,
    Codec.u8_width _, Codec.bytes32_width _, Codec.vec_length Codec.bytes32_width]
  omega

theorem ObjType.codec_total : ObjType.codec.Total := fun _ => rfl

@[simp] theorem Schedule.codec_valid (s : Schedule) :
    Schedule.codec.valid s = true ↔
      s.merkleRoot.length < 2 ^ 32 ∧ s.redemptions.length < 2 ^ 32 := by
  rw [← Codec.vec_valid Codec.u8_total, ← Codec.vec_valid Codec.bool_total]
  simp only [Schedule.codec, Codec.iso, Codec.pair, Bool.and_eq_true, ObjType.codec_total _,
    Codec.u8_total _, Codec.u64_total _, Codec.i64_total _, Codec.bytes32_total _,
    Codec.bool_total _, true_and]

@[simp] theorem Vault.codec_valid (v : Vault) :
    Vault.codec.valid v = true ↔ v.admins.length < 2 ^ 32 := by
  rw [← Codec.vec_valid Codec.bytes32_total]
  simp only [Vault.codec, Codec.iso, Codec.pair, Bool.and_eq_true, ObjType.codec_total _,
    Codec.u8_total _, Codec.bytes32_total _, true_and]

theorem Vault.image_length (v : Vault) :
    (Vault.layout.image v).length = 78 + 32 * v.admins.length := by
  rw [Layout.image_length]
  have h := Vault.encode_length v
  simp only [Vault.layout]
  omega

theorem Schedule.image_length (s : Schedule) :
    (Schedule.layout.image s).length = 195 + s.merkleRoot.length + s.redemptions.length := by
  rw [Layout.image_length]
  have h := Schedule.encode_length s
  simp only [Schedule.layout]
  omega

theorem Vault.discriminator_ne_schedule :
    Vault.layout.discriminator ≠ Schedule.layout.discriminator := by decide

end Coin98Vault

import Coin98Vault.Framework.Tagged
import Coin98Vault.Program.Instructions

/-!
# Instructions on the wire

An instruction arrives as bytes and a list of accounts.  The bytes name a method and hold its
arguments in Borsh; the accounts come by position, and a redemption keeps those left over.
-/

namespace Coin98Vault

inductive Method where
  | createVault
  | setVault
  | createSchedule
  | setScheduleStatus
  | withdrawSol
  | withdrawToken
  | redeemToken
  | redeemTokenMulti
  | transferOwnership
  | acceptOwnership
  deriving DecidableEq

/-! ## Arguments -/

def CreateScheduleArgs.codec : Codec CreateScheduleArgs :=
  (Codec.u16.pair <| Codec.u64.pair <| Codec.i64.pair <| Codec.bytes32.pair <| Codec.bool.pair <|
    Codec.bytes32.pair <| Codec.bytes32.pair <| Codec.bytes32.pair Codec.bytes32).iso
  (fun a => (a.userCount, a.eventId, a.timestamp, a.merkleRoot, a.useMultiToken,
    a.receivingTokenMint, a.receivingTokenAccount, a.sendingTokenMint, a.sendingTokenAccount))
  (fun (a, b, c, d, e, f, g, h, i) => ⟨a, b, c, d, e, f, g, h, i⟩) (fun _ => rfl) (fun _ => rfl)

def RedeemTokenArgs.codec : Codec RedeemTokenArgs :=
  (Codec.u16.pair <| Codec.i64.pair <| Codec.bytes32.vec.pair <| Codec.u64.pair Codec.u64).iso
  (fun a => (a.index, a.timestamp, a.proofs, a.receivingAmount, a.sendingAmount))
  (fun (a, b, c, d, e) => ⟨a, b, c, d, e⟩) (fun _ => rfl) (fun _ => rfl)

/-- The mint comes before the amounts. -/
def RedeemTokenMultiArgs.codec : Codec RedeemTokenMultiArgs :=
  (Codec.u16.pair <| Codec.i64.pair <| Codec.bytes32.vec.pair <| Codec.bytes32.pair <|
    Codec.u64.pair Codec.u64).iso
  (fun a => (a.index, a.timestamp, a.proofs, a.receivingTokenMint, a.receivingAmount,
    a.sendingAmount))
  (fun (a, b, c, d, e, f) => ⟨⟨a, b, c, e, f⟩, d⟩) (fun _ => rfl) (fun _ => rfl)

theorem CreateScheduleArgs.encode_length (a : CreateScheduleArgs) :
    (CreateScheduleArgs.codec.encode a).length = 179 := by
  simp only [CreateScheduleArgs.codec, Codec.iso, Codec.pair, List.length_append,
    Codec.u16_width _, Codec.u64_width _, Codec.i64_width _, Codec.bytes32_width _,
    Codec.bool_width _]

theorem RedeemTokenArgs.encode_length (a : RedeemTokenArgs) :
    (RedeemTokenArgs.codec.encode a).length = 30 + 32 * a.proofs.length := by
  simp only [RedeemTokenArgs.codec, Codec.iso, Codec.pair, List.length_append,
    Codec.u16_width _, Codec.u64_width _, Codec.i64_width _, Codec.vec_length Codec.bytes32_width]
  omega

theorem RedeemTokenMultiArgs.encode_length (a : RedeemTokenMultiArgs) :
    (RedeemTokenMultiArgs.codec.encode a).length = 62 + 32 * a.proofs.length := by
  simp only [RedeemTokenMultiArgs.codec, Codec.iso, Codec.pair, List.length_append,
    Codec.u16_width _, Codec.u64_width _, Codec.i64_width _, Codec.bytes32_width _,
    Codec.vec_length Codec.bytes32_width]
  omega

theorem RedeemTokenArgs.codec_valid (a : RedeemTokenArgs) :
    RedeemTokenArgs.codec.valid a = true ↔ a.proofs.length < 2 ^ 32 := by
  rw [← Codec.vec_valid Codec.bytes32_total]
  simp only [RedeemTokenArgs.codec, Codec.iso, Codec.pair, Bool.and_eq_true, Codec.u16_total _,
    Codec.u64_total _, Codec.i64_total _, and_true, true_and]

theorem RedeemTokenMultiArgs.codec_valid (a : RedeemTokenMultiArgs) :
    RedeemTokenMultiArgs.codec.valid a = true ↔ a.proofs.length < 2 ^ 32 := by
  rw [← Codec.vec_valid Codec.bytes32_total]
  simp only [RedeemTokenMultiArgs.codec, Codec.iso, Codec.pair, Bool.and_eq_true,
    Codec.u16_total _, Codec.u64_total _, Codec.i64_total _, Codec.bytes32_total _, and_true,
    true_and]

namespace Method

/-- The head of the hash of `global:` and the name of the method. -/
def sighash : Method → Bytes
  | createVault => [29, 237, 247, 208, 193, 82, 54, 135]
  | setVault => [177, 23, 187, 59, 247, 215, 255, 162]
  | createSchedule => [200, 176, 213, 214, 210, 121, 35, 225]
  | setScheduleStatus => [62, 62, 169, 136, 49, 47, 192, 133]
  | withdrawSol => [145, 131, 74, 136, 65, 137, 42, 38]
  | withdrawToken => [136, 235, 181, 5, 101, 109, 57, 81]
  | redeemToken => [190, 85, 90, 176, 192, 218, 41, 214]
  | redeemTokenMulti => [238, 135, 174, 199, 186, 229, 220, 245]
  | transferOwnership => [65, 177, 215, 73, 53, 45, 99, 47]
  | acceptOwnership => [172, 23, 43, 13, 238, 213, 85, 150]

def all : List Method :=
  [createVault, setVault, createSchedule, setScheduleStatus, withdrawSol, withdrawToken,
    redeemToken, redeemTokenMulti, transferOwnership, acceptOwnership]

def tags : Tags Method where
  kinds := all
  mem_kinds m := by cases m <;> decide
  size := 8
  tag := sighash
  tag_length m := by cases m <;> rfl
  tag_injective m n h := by
    cases m <;> cases n <;> first | rfl | exact absurd h (by decide)

abbrev Args : Method → Type
  | createVault => Bytes
  | setVault => List Pubkey
  | createSchedule => CreateScheduleArgs
  | setScheduleStatus => Bool
  | withdrawSol | withdrawToken => UInt64
  | redeemToken => RedeemTokenArgs
  | redeemTokenMulti => RedeemTokenMultiArgs
  | transferOwnership => Pubkey
  | acceptOwnership => Unit

def args : (m : Method) → Codec m.Args
  | createVault => Codec.u8.vec
  | setVault => Codec.bytes32.vec
  | createSchedule => CreateScheduleArgs.codec
  | setScheduleStatus => Codec.bool
  | withdrawSol | withdrawToken => Codec.u64
  | redeemToken => RedeemTokenArgs.codec
  | redeemTokenMulti => RedeemTokenMultiArgs.codec
  | transferOwnership => Codec.bytes32
  | acceptOwnership => Codec.unit

/-- Arguments that fit into a small buffer can be written. -/
theorem args_valid {m : Method} {a : m.Args} (h : (m.args.encode a).length ≤ 1000) :
    m.args.valid a = true := by
  cases m with
  | createVault =>
    refine (Codec.vec_valid Codec.u8_total a).mpr ?_
    have hlen : (Codec.u8.vec.encode a).length = _ := Codec.vec_length Codec.u8_width a
    have hle : (Codec.u8.vec.encode a).length ≤ 1000 := h
    omega
  | setVault =>
    refine (Codec.vec_valid Codec.bytes32_total a).mpr ?_
    have hlen : (Codec.bytes32.vec.encode a).length = _ := Codec.vec_length Codec.bytes32_width a
    have hle : (Codec.bytes32.vec.encode a).length ≤ 1000 := h
    omega
  | redeemToken =>
    refine (RedeemTokenArgs.codec_valid a).mpr ?_
    have hlen := RedeemTokenArgs.encode_length a
    have hle : (RedeemTokenArgs.codec.encode a).length ≤ 1000 := h
    omega
  | redeemTokenMulti =>
    refine (RedeemTokenMultiArgs.codec_valid a).mpr ?_
    have hlen := RedeemTokenMultiArgs.encode_length a
    have hle : (RedeemTokenMultiArgs.codec.encode a).length ≤ 1000 := h
    omega
  | _ => rfl

/-- The method and its arguments, as the bytes of an instruction. -/
def codec : Codec (Σ m : Method, m.Args) := tags.codec args

/-- The accounts of a method by position. -/
def instruction : (m : Method) → m.Args → List Pubkey → Option Instruction
  | createVault, vaultPath => fun
    | owner :: vault :: systemProgram :: _ =>
      some (.createVault ⟨owner, vault, systemProgram⟩ vaultPath)
    | _ => none
  | setVault, admins => fun
    | owner :: vault :: _ => some (.setVault ⟨owner, vault⟩ admins)
    | _ => none
  | createSchedule, a => fun
    | admin :: vault :: schedule :: systemProgram :: _ =>
      some (.createSchedule ⟨admin, vault, schedule, systemProgram⟩ a)
    | _ => none
  | setScheduleStatus, isActive => fun
    | admin :: vault :: schedule :: _ =>
      some (.setScheduleStatus ⟨admin, vault, schedule⟩ isActive)
    | _ => none
  | withdrawSol, amount => fun
    | admin :: vault :: vaultSigner :: recipient :: systemProgram :: _ =>
      some (.withdrawSol ⟨admin, vault, vaultSigner, recipient, systemProgram⟩ amount)
    | _ => none
  | withdrawToken, amount => fun
    | admin :: vault :: vaultSigner :: sender :: recipient :: tokenProgram :: _ =>
      some (.withdrawToken ⟨admin, vault, vaultSigner, sender, recipient, tokenProgram⟩ amount)
    | _ => none
  | redeemToken, a => fun
    | vault :: schedule :: vaultSigner :: vaultToken0 :: user :: userToken0 :: tokenProgram ::
        systemProgram :: remainingAccounts =>
      some (.redeemToken ⟨vault, schedule, vaultSigner, vaultToken0, user, userToken0,
        tokenProgram, systemProgram, remainingAccounts⟩ a)
    | _ => none
  | redeemTokenMulti, a => fun
    | vault :: schedule :: vaultSigner :: vaultToken0 :: user :: userToken0 :: tokenProgram ::
        systemProgram :: remainingAccounts =>
      some (.redeemTokenMulti ⟨vault, schedule, vaultSigner, vaultToken0, user, userToken0,
        tokenProgram, systemProgram, remainingAccounts⟩ a)
    | _ => none
  | transferOwnership, newOwner => fun
    | owner :: vault :: _ => some (.transferOwnership ⟨owner, vault⟩ newOwner)
    | _ => none
  | acceptOwnership, () => fun
    | newOwner :: vault :: _ => some (.acceptOwnership ⟨newOwner, vault⟩)
    | _ => none

end Method

/-- The entry of the program.  What follows the arguments is not read. -/
def dispatch (accounts : List Pubkey) (data : Bytes) : Option Instruction :=
  (Method.codec.decode data).bind fun x => x.1.1.instruction x.1.2 accounts

namespace Instruction

/-- The method that an instruction calls, with its arguments. -/
def request : Instruction → Σ m : Method, m.Args
  | createVault _ vaultPath => ⟨.createVault, vaultPath⟩
  | setVault _ admins => ⟨.setVault, admins⟩
  | createSchedule _ a => ⟨.createSchedule, a⟩
  | setScheduleStatus _ isActive => ⟨.setScheduleStatus, isActive⟩
  | withdrawSol _ amount => ⟨.withdrawSol, amount⟩
  | withdrawToken _ amount => ⟨.withdrawToken, amount⟩
  | redeemToken _ a => ⟨.redeemToken, a⟩
  | redeemTokenMulti _ a => ⟨.redeemTokenMulti, a⟩
  | transferOwnership _ newOwner => ⟨.transferOwnership, newOwner⟩
  | acceptOwnership _ => ⟨.acceptOwnership, ()⟩

/-- The accounts that an instruction names, in order. -/
def accounts : Instruction → List Pubkey
  | createVault x _ => [x.owner, x.vault, x.systemProgram]
  | setVault x _ => [x.owner, x.vault]
  | createSchedule x _ => [x.admin, x.vault, x.schedule, x.systemProgram]
  | setScheduleStatus x _ => [x.admin, x.vault, x.schedule]
  | withdrawSol x _ => [x.admin, x.vault, x.vaultSigner, x.recipient, x.systemProgram]
  | withdrawToken x _ => [x.admin, x.vault, x.vaultSigner, x.sender, x.recipient, x.tokenProgram]
  | redeemToken x _ | redeemTokenMulti x _ =>
    [x.vault, x.schedule, x.vaultSigner, x.vaultToken0, x.user, x.userToken0, x.tokenProgram,
      x.systemProgram] ++ x.remainingAccounts
  | transferOwnership x _ => [x.owner, x.vault]
  | acceptOwnership x => [x.newOwner, x.vault]

/-- Only redemptions keep the accounts left over. -/
def keepsRest : Instruction → Bool
  | redeemToken _ _ | redeemTokenMulti _ _ => true
  | _ => false

/-- The bytes of an instruction. -/
def data (i : Instruction) : Bytes := Method.codec.encode i.request

/-- The arguments can be written: no vector has more than 2³² elements. -/
def Encodable (i : Instruction) : Prop := Method.codec.valid i.request = true

instance (i : Instruction) : Decidable i.Encodable := inferInstanceAs (Decidable (_ = true))

end Instruction

end Coin98Vault

import Coin98Vault.Framework.Schema
import Coin98Vault.Program.Wire

/-!
# The interface description

`target/idl/coin98_vault.json`: what the client knows of the program's formats.  Each described
format is a view of the program's own one.
-/

namespace Coin98Vault

/-- An instruction's name and arguments. -/
structure IdlInstruction where
  name : String
  args : Fields

namespace Method

def idl : Method → IdlInstruction
  | createVault => ⟨"createVault", [("vaultPath", .bytes)]⟩
  | setVault => ⟨"setVault", [("admins", .vec .publicKey)]⟩
  | createSchedule => ⟨"createSchedule", [
      ("userCount", .u16),
      ("eventId", .u64),
      ("timestamp", .i64),
      ("merkleRoot", .array .u8 32),
      ("useMultiToken", .bool),
      ("receivingTokenMint", .publicKey),
      ("receivingTokenAccount", .publicKey),
      ("sendingTokenMint", .publicKey),
      ("sendingTokenAccount", .publicKey)]⟩
  | setScheduleStatus => ⟨"setScheduleStatus", [("isActive", .bool)]⟩
  | withdrawSol => ⟨"withdrawSol", [("amount", .u64)]⟩
  | withdrawToken => ⟨"withdrawToken", [("amount", .u64)]⟩
  | redeemToken => ⟨"redeemToken", [
      ("index", .u16),
      ("timestamp", .i64),
      ("proofs", .vec (.array .u8 32)),
      ("receivingAmount", .u64),
      ("sendingAmount", .u64)]⟩
  | redeemTokenMulti => ⟨"redeemTokenMulti", [
      ("index", .u16),
      ("timestamp", .i64),
      ("proofs", .vec (.array .u8 32)),
      ("receivingTokenMint", .publicKey),
      ("receivingAmount", .u64),
      ("sendingAmount", .u64)]⟩
  | transferOwnership => ⟨"transferOwnership", [("newOwner", .publicKey)]⟩
  | acceptOwnership => ⟨"acceptOwnership", []⟩

end Method

def ObjType.idl : Schema := .enum ["Distribution", "DistributionMulti", "Vault"]

def Schedule.idl : Fields := [
  ("objType", ObjType.idl),
  ("nonce", .u8),
  ("eventId", .u64),
  ("vaultId", .publicKey),
  ("timestamp", .i64),
  ("merkleRoot", .bytes),
  ("receivingTokenMint", .publicKey),
  ("receivingTokenAccount", .publicKey),
  ("sendingTokenMint", .publicKey),
  ("sendingTokenAccount", .publicKey),
  ("isActive", .bool),
  ("redemptions", .vec .bool)]

def Vault.idl : Fields := [
  ("objType", ObjType.idl),
  ("signerNonce", .u8),
  ("owner", .publicKey),
  ("newOwner", .publicKey),
  ("admins", .vec .publicKey)]

/-! ## Values as data -/

namespace Datum

def u8 (n : UInt8) : Datum := .number n.toNat
def u16 (n : UInt16) : Datum := .number n.toNat
def u64 (n : UInt64) : Datum := .number n.toNat
def i64 (n : Int64) : Datum := .number n.toInt
def publicKeys (ks : List Pubkey) : Datum := .list (ks.map .publicKey)
def buffers (hashes : List Hash) : Datum := .list (hashes.map fun h => .ofBytes h.bytes)

end Datum

def ObjType.name : ObjType → String
  | distribution => "Distribution"
  | distributionMulti => "DistributionMulti"
  | vault => "Vault"

def CreateScheduleArgs.data (a : CreateScheduleArgs) : List Datum :=
  [.u16 a.userCount, .u64 a.eventId, .i64 a.timestamp, .ofBytes a.merkleRoot.bytes,
    .bool a.useMultiToken, .publicKey a.receivingTokenMint, .publicKey a.receivingTokenAccount,
    .publicKey a.sendingTokenMint, .publicKey a.sendingTokenAccount]

def RedeemTokenArgs.data (a : RedeemTokenArgs) : List Datum :=
  [.u16 a.index, .i64 a.timestamp, .buffers a.proofs, .u64 a.receivingAmount,
    .u64 a.sendingAmount]

def RedeemTokenMultiArgs.data (a : RedeemTokenMultiArgs) : List Datum :=
  [.u16 a.index, .i64 a.timestamp, .buffers a.proofs, .publicKey a.receivingTokenMint,
    .u64 a.receivingAmount, .u64 a.sendingAmount]

def Method.data : (m : Method) → m.Args → List Datum
  | createVault, vaultPath => [.ofBytes vaultPath]
  | setVault, admins => [.publicKeys admins]
  | createSchedule, a => a.data
  | setScheduleStatus, isActive => [.bool isActive]
  | withdrawSol, amount | withdrawToken, amount => [.u64 amount]
  | redeemToken, a => a.data
  | redeemTokenMulti, a => a.data
  | transferOwnership, newOwner => [.publicKey newOwner]
  | acceptOwnership, () => []

def Schedule.data (s : Schedule) : List Datum :=
  [.variant s.objType.name, .u8 s.nonce, .u64 s.eventId, .publicKey s.vaultId, .i64 s.timestamp,
    .ofBytes s.merkleRoot, .publicKey s.receivingTokenMint, .publicKey s.receivingTokenAccount,
    .publicKey s.sendingTokenMint, .publicKey s.sendingTokenAccount, .bool s.isActive,
    .list (s.redemptions.map .bool)]

def Vault.data (v : Vault) : List Datum :=
  [.variant v.objType.name, .u8 v.signerNonce, .publicKey v.owner, .publicKey v.newOwner,
    .publicKeys v.admins]

/-! ## The description is that of the program -/

open Codec.Views

theorem ObjType.idl_views : ObjType.codec.Views ObjType.idl.codec fun t => .variant t.name := by
  apply Codec.Views.enum
  · intro t
    cases t <;> rfl
  · decide
  · intro s hs
    simp only [List.mem_cons, List.not_mem_nil, or_false] at hs
    rcases hs with rfl | rfl | rfl
    · exact ⟨.distribution, rfl⟩
    · exact ⟨.distributionMulti, rfl⟩
    · exact ⟨.vault, rfl⟩

private theorem buffers_views :
    Codec.bytes32.vec.Views (Schema.vec (.array .u8 32)).codec .buffers :=
  byteArray.vecOf

theorem CreateScheduleArgs.idl_views :
    CreateScheduleArgs.codec.Views Method.createSchedule.idl.args.codec CreateScheduleArgs.data :=
  (u16.field <| u64.field <| i64.field <| byteArray.field <| bool.field <| publicKey.field <|
    publicKey.field <| publicKey.field publicKey.lastField).iso

theorem RedeemTokenArgs.idl_views :
    RedeemTokenArgs.codec.Views Method.redeemToken.idl.args.codec RedeemTokenArgs.data :=
  (u16.field <| i64.field <| buffers_views.field <| u64.field u64.lastField).iso

theorem RedeemTokenMultiArgs.idl_views :
    RedeemTokenMultiArgs.codec.Views Method.redeemTokenMulti.idl.args.codec
      RedeemTokenMultiArgs.data :=
  (u16.field <| i64.field <| buffers_views.field <| publicKey.field <| u64.field u64.lastField).iso

/-- The client writes the arguments of a method as the program reads them. -/
theorem Method.idl_views (m : Method) : m.args.Views m.idl.args.codec m.data := by
  cases m with
  | createVault => exact bytes.lastField
  | setVault => exact publicKey.vecOf.lastField
  | createSchedule => exact CreateScheduleArgs.idl_views
  | setScheduleStatus => exact bool.lastField
  | withdrawSol | withdrawToken => exact u64.lastField
  | redeemToken => exact RedeemTokenArgs.idl_views
  | redeemTokenMulti => exact RedeemTokenMultiArgs.idl_views
  | transferOwnership => exact publicKey.lastField
  | acceptOwnership => exact noFields

theorem Schedule.idl_views : Schedule.codec.Views Schedule.idl.codec Schedule.data :=
  (ObjType.idl_views.field <| u8.field <| u64.field <| publicKey.field <| i64.field <|
    bytes.field <| publicKey.field <| publicKey.field <| publicKey.field <| publicKey.field <|
    bool.field bool.vecOf.lastField).iso

theorem Vault.idl_views : Vault.codec.Views Vault.idl.codec Vault.data :=
  (ObjType.idl_views.field <| u8.field <| publicKey.field <| publicKey.field
    publicKey.vecOf.lastField).iso

end Coin98Vault

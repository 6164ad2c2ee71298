import Coin98Vault.Properties.WireFormat
import Coin98Vault.Services.Reference

/-!
# Requests of the client

Each builder of the client sends the bytes, the accounts and the privileges of one instruction.
-/

namespace Coin98Vault.Client

/-- A call of one of the builders. -/
inductive Request where
  | createVault (payerAddress vaultAddress : Pubkey) (vaultPath : Bytes)
  | setVault (rootAddress vaultAddress : Pubkey) (admins : List Pubkey)
  | createSchedule (rootAddress vaultAddress scheduleAddress : Pubkey) (a : CreateScheduleArgs)
  | setScheduleStatus (rootAddress vaultAddress scheduleAddress : Pubkey) (isActive : Bool)
  | withdrawSol (ownerAddress vaultAddress vaultSignerAddress recipientAddress : Pubkey)
      (amount : UInt64)
  | withdrawToken (ownerAddress vaultAddress vaultSignerAddress senderAddress
      recipientAddress : Pubkey) (amount : UInt64)
  | redeemToken (vaultAddress scheduleAddress : Pubkey) (a : RedeemTokenArgs)
      (vaultSignerAddress vaultVestingTokenAddress : Pubkey)
      (vaultFeeTokenAddress : Option Pubkey) (userAddress userVestingTokenAddress : Pubkey)
      (userFeeTokenAddress : Option Pubkey)
  | redeemTokenMulti (vaultAddress scheduleAddress : Pubkey) (a : RedeemTokenMultiArgs)
      (vaultSignerAddress vaultVestingTokenAddress : Pubkey)
      (vaultFeeTokenAddress : Option Pubkey) (userAddress userVestingTokenAddress : Pubkey)
      (userFeeTokenAddress : Option Pubkey)
  | transferOwnership (ownerAddress vaultAddress newOwner : Pubkey)
  | acceptOwnership (newOwnerAddress vaultAddress : Pubkey)

namespace Request

def build (packages : Packages) (vaultProgramId : Pubkey) :
    Request → Option TransactionInstruction
  | .createVault payerAddress vaultAddress vaultPath =>
    VaultInstructionService.createVault packages payerAddress vaultAddress vaultPath vaultProgramId
  | .setVault rootAddress vaultAddress admins =>
    VaultInstructionService.setVault packages rootAddress vaultAddress admins vaultProgramId
  | .createSchedule rootAddress vaultAddress scheduleAddress a =>
    VaultInstructionService.createSchedule packages rootAddress vaultAddress scheduleAddress
      a.userCount a.eventId a.timestamp a.merkleRoot a.useMultiToken a.receivingTokenMint
      a.receivingTokenAccount a.sendingTokenMint a.sendingTokenAccount vaultProgramId
  | .setScheduleStatus rootAddress vaultAddress scheduleAddress isActive =>
    VaultInstructionService.setScheduleStatus packages rootAddress vaultAddress scheduleAddress
      isActive vaultProgramId
  | .withdrawSol ownerAddress vaultAddress vaultSignerAddress recipientAddress amount =>
    VaultInstructionService.withdrawSol packages ownerAddress vaultAddress vaultSignerAddress
      recipientAddress amount vaultProgramId
  | .withdrawToken ownerAddress vaultAddress vaultSignerAddress senderAddress recipientAddress
      amount =>
    VaultInstructionService.withdrawToken packages ownerAddress vaultAddress vaultSignerAddress
      senderAddress recipientAddress amount vaultProgramId
  | .redeemToken vaultAddress scheduleAddress a vaultSignerAddress vaultVestingTokenAddress
      vaultFeeTokenAddress userAddress userVestingTokenAddress userFeeTokenAddress =>
    VaultInstructionService.redeemToken packages vaultAddress scheduleAddress a.index a.timestamp
      a.proofs a.receivingAmount a.sendingAmount vaultSignerAddress vaultVestingTokenAddress
      vaultFeeTokenAddress userAddress userVestingTokenAddress userFeeTokenAddress vaultProgramId
  | .redeemTokenMulti vaultAddress scheduleAddress a vaultSignerAddress vaultVestingTokenAddress
      vaultFeeTokenAddress userAddress userVestingTokenAddress userFeeTokenAddress =>
    VaultInstructionService.redeemTokenMulti packages vaultAddress scheduleAddress a.index
      a.timestamp a.proofs a.receivingTokenMint a.receivingAmount a.sendingAmount
      vaultSignerAddress vaultVestingTokenAddress vaultFeeTokenAddress userAddress
      userVestingTokenAddress userFeeTokenAddress vaultProgramId
  | .transferOwnership ownerAddress vaultAddress newOwner =>
    VaultInstructionService.transferOwnership packages ownerAddress vaultAddress newOwner
      vaultProgramId
  | .acceptOwnership newOwnerAddress vaultAddress =>
    VaultInstructionService.acceptOwnership packages newOwnerAddress vaultAddress vaultProgramId

def instruction : Request → Instruction
  | .createVault payer vault vaultPath =>
    .createVault ⟨payer, vault, systemProgramId⟩ vaultPath
  | .setVault root vault admins => .setVault ⟨root, vault⟩ admins
  | .createSchedule root vault schedule a =>
    .createSchedule ⟨root, vault, schedule, systemProgramId⟩ a
  | .setScheduleStatus root vault schedule isActive =>
    .setScheduleStatus ⟨root, vault, schedule⟩ isActive
  | .withdrawSol owner vault vaultSigner recipient amount =>
    .withdrawSol ⟨owner, vault, vaultSigner, recipient, systemProgramId⟩ amount
  | .withdrawToken owner vault vaultSigner sender recipient amount =>
    .withdrawToken ⟨owner, vault, vaultSigner, sender, recipient, tokenProgramId⟩ amount
  | .redeemToken vault schedule a vaultSigner vaultToken0 vaultToken1 user userToken0
      userToken1 =>
    .redeemToken ⟨vault, schedule, vaultSigner, vaultToken0, user, userToken0, tokenProgramId,
      systemProgramId, vaultToken1.toList ++ userToken1.toList⟩ a
  | .redeemTokenMulti vault schedule a vaultSigner vaultToken0 vaultToken1 user userToken0
      userToken1 =>
    .redeemTokenMulti ⟨vault, schedule, vaultSigner, vaultToken0, user, userToken0,
      tokenProgramId, systemProgramId, vaultToken1.toList ++ userToken1.toList⟩ a
  | .transferOwnership owner vault newOwner => .transferOwnership ⟨owner, vault⟩ newOwner
  | .acceptOwnership newOwner vault => .acceptOwnership ⟨newOwner, vault⟩

def signer : Request → Pubkey
  | .createVault payer _ _ => payer
  | .setVault root _ _ | .createSchedule root _ _ _ | .setScheduleStatus root _ _ _ => root
  | .withdrawSol owner _ _ _ _ | .withdrawToken owner _ _ _ _ _ => owner
  | .redeemToken _ _ _ _ _ _ user _ _ | .redeemTokenMulti _ _ _ _ _ _ user _ _ => user
  | .transferOwnership owner _ _ => owner
  | .acceptOwnership newOwner _ => newOwner

/-- What is listed as writable.  The signer is listed as read-only. -/
def writes : Request → List Pubkey
  | .createVault _ vault _ => [vault]
  | .setVault _ vault _ => [vault]
  | .createSchedule _ _ schedule _ => [schedule]
  | .setScheduleStatus _ _ schedule _ => [schedule]
  | .withdrawSol _ _ vaultSigner recipient _ => [vaultSigner, recipient]
  | .withdrawToken _ _ _ sender recipient _ => [sender, recipient]
  | .redeemToken _ schedule _ vaultSigner vaultToken0 vaultToken1 _ userToken0 userToken1
  | .redeemTokenMulti _ schedule _ vaultSigner vaultToken0 vaultToken1 _ userToken0 userToken1 =>
    [schedule, vaultSigner, vaultToken0, userToken0] ++ vaultToken1.toList ++ userToken1.toList
  | .transferOwnership _ vault _ => [vault]
  | .acceptOwnership _ vault => [vault]

def call (r : Request) (rt : Runtime) (payer : Pubkey) (unixTimestamp : Int64) : Call where
  signers := [payer, r.signer]
  writable := rt.unreserved (payer :: r.writes)
  unixTimestamp
  instruction := r.instruction

theorem call_canWrite (rt : Runtime) (payer : Pubkey) (r : Request) (unixTimestamp : Int64) :
    (∀ k ∈ payer :: r.writes, k ∈ (r.call rt payer unixTimestamp).writable) ↔
      rt.CanWrite (payer :: r.writes) := by
  simp only [call, Runtime.mem_unreserved, Runtime.CanWrite]
  exact forall₂_congr fun k hk => and_iff_right hk

/-- What the coder's buffer holds. -/
def Fits : Request → Prop
  | .createVault _ _ vaultPath => vaultPath.length ≤ 996
  | .setVault _ _ admins => admins.length ≤ 31
  | .redeemToken _ _ a _ _ _ _ _ _ => a.proofs.length ≤ 30
  | .redeemTokenMulti _ _ a _ _ _ _ _ _ => a.proofs.length ≤ 29
  | _ => True

end Request

section
variable {rt : Runtime} {packages : Packages}

private theorem dispatch_data {i : Instruction} (h : i.Encodable) :
    dispatch i.accounts i.data = some i := by
  have hread := Method.codec.decode_encode h []
  rw [List.append_nil] at hread
  unfold dispatch Instruction.data
  rw [hread, Option.bind_some]
  exact Method.instruction_eq_some.mpr ⟨rfl, [], (List.append_nil _).symm, fun _ => rfl⟩

/-- All builders encode the properties that the description names, and list the accounts, the signer
and what is written. -/
private theorem Request.build_eq (r : Request) (vaultProgramId : Pubkey) :
    ∃ (request : Object) (keys : List AccountMeta),
      r.build packages vaultProgramId =
        VaultInstructionService.transactionInstruction packages r.instruction.request.1.idl.name
          request keys vaultProgramId ∧
      r.instruction.request.1.idl.args.select request =
        some (r.instruction.request.1.data r.instruction.request.2) ∧
      keys.map AccountMeta.pubkey = r.instruction.accounts ∧
      (keys.filter AccountMeta.isSigner).map AccountMeta.pubkey = [r.signer] ∧
      (keys.filter AccountMeta.isWritable).map AccountMeta.pubkey = r.writes := by
  cases r with
  | redeemToken vault schedule a vaultSigner vaultToken0 vaultToken1 user userToken0 userToken1
  | redeemTokenMulti vault schedule a vaultSigner vaultToken0 vaultToken1 user userToken0
      userToken1 =>
    refine ⟨_, _, rfl, rfl, ?_⟩
    cases vaultToken1 <;> cases userToken1 <;> exact ⟨rfl, rfl, rfl⟩
  | _ => exact ⟨_, _, rfl, rfl, rfl, rfl, rfl⟩

private theorem fits_of_width {α : Type} {c : Codec α} {n : Nat} (h : c.Width n) (hn : n ≤ 1000)
    (a : α) :
    True ↔ (c.encode a).length ≤ 1000 := by
  rw [h a]
  exact (iff_true_intro hn).symm

private theorem Request.fits_iff (r : Request) :
    r.Fits ↔ (r.instruction.request.1.args.encode r.instruction.request.2).length ≤ 1000 := by
  cases r with
  | createVault payer vault vaultPath =>
    have hlen : (Codec.u8.vec.encode vaultPath).length = _ := Codec.vec_length Codec.u8_width _
    show vaultPath.length ≤ 996 ↔ (Codec.u8.vec.encode vaultPath).length ≤ 1000
    omega
  | setVault root vault admins =>
    have hlen : (Codec.bytes32.vec.encode admins).length = _ :=
      Codec.vec_length Codec.bytes32_width _
    show admins.length ≤ 31 ↔ (Codec.bytes32.vec.encode admins).length ≤ 1000
    omega
  | createSchedule root vault schedule a =>
    exact fits_of_width CreateScheduleArgs.encode_length (by decide) a
  | setScheduleStatus root vault schedule isActive =>
    exact fits_of_width Codec.bool_width (by decide) isActive
  | withdrawSol owner vault vaultSigner recipient amount
  | withdrawToken owner vault vaultSigner sender recipient amount =>
    exact fits_of_width Codec.u64_width (by decide) amount
  | redeemToken vault schedule a =>
    have hlen := RedeemTokenArgs.encode_length a
    show a.proofs.length ≤ 30 ↔ (RedeemTokenArgs.codec.encode a).length ≤ 1000
    omega
  | redeemTokenMulti vault schedule a =>
    have hlen := RedeemTokenMultiArgs.encode_length a
    show a.proofs.length ≤ 29 ↔ (RedeemTokenMultiArgs.codec.encode a).length ≤ 1000
    omega
  | transferOwnership owner vault newOwner =>
    exact fits_of_width Codec.bytes32_width (by decide) newOwner
  | acceptOwnership newOwner vault =>
    exact fits_of_width (c := Codec.unit) (n := 0) (fun _ => rfl) (by decide) ()

private theorem Packages.Lawful.encode_eq (hp : packages.Lawful rt) {m : Method} {a : m.Args}
    {request : Object} (hrequest : m.idl.args.select request = some (m.data a)) :
    packages.encode m.idl.name request =
      if (m.args.encode a).length ≤ 1000 then some (Method.codec.encode ⟨m, a⟩) else none := by
  have hbytes := m.idl_views.encode a
  rw [hp.encode m request _ hrequest, hbytes]
  · rfl
  · intro hlen
    rw [hbytes] at hlen
    exact m.idl_views.of_valid (Method.args_valid hlen)

theorem Request.build_call (hp : packages.Lawful rt) {r : Request} (hfits : r.Fits)
    (payer : Pubkey) (unixTimestamp : Int64) :
    ∃ ix, r.build packages rt.programId = some ix ∧
      ix.call rt payer unixTimestamp = some (r.call rt payer unixTimestamp) := by
  have hlen := r.fits_iff.mp hfits
  have hencodable : r.instruction.Encodable := Method.args_valid hlen
  obtain ⟨request, keys, hbuild, hrequest, haccounts, hsigner, hwrites⟩ := r.build_eq rt.programId
  refine ⟨⟨rt.programId, keys, r.instruction.data⟩, ?_, ?_⟩
  · rw [hbuild, VaultInstructionService.transactionInstruction, hp.encode_eq hrequest, if_pos hlen]
    rfl
  · simp only [TransactionInstruction.call, haccounts, hsigner, hwrites, if_true,
      dispatch_data hencodable, Option.map_some]
    rfl

theorem Request.build_eq_none (hp : packages.Lawful rt) {r : Request} (hfits : ¬ r.Fits)
    (vaultProgramId : Pubkey) : r.build packages vaultProgramId = none := by
  obtain ⟨request, keys, hbuild, hrequest, -⟩ := @Request.build_eq packages r vaultProgramId
  have hlen := mt r.fits_iff.mpr hfits
  rw [hbuild, VaultInstructionService.transactionInstruction, hp.encode_eq hrequest, if_neg hlen]
  rfl

end

/-- A request that fits the coder's buffer arrives as its instruction, signed by its signer and the
payer, with write access to the keys that it lists and that are not reserved.  A request that does
not fit is not built. -/
theorem request_arrives {rt : Runtime} {packages : Packages} (hp : packages.Lawful rt)
    (r : Request) (payer : Pubkey) (unixTimestamp : Int64) :
    (r.Fits → ∃ ix, r.build packages rt.programId = some ix ∧
      ix.call rt payer unixTimestamp = some (r.call rt payer unixTimestamp)) ∧
    (¬ r.Fits → r.build packages rt.programId = none) := by
  constructor
  · intro hfits
    exact Request.build_call hp hfits payer unixTimestamp
  · intro hfits
    exact Request.build_eq_none hp hfits _

open Reference in
theorem request_arrives_deployed :
    let r := Request.redeemTokenMulti vault multiSchedule
      ⟨⟨1, 0, [hash [1], hash [2]], 2, 0⟩, feeMint⟩ vaultSigner vaultToken (some vaultFee) user
      userFee none
    ∃ ix, r.build packages runtime.programId = some ix ∧
      ix.call runtime otherUser 6 = some (r.call runtime otherUser 6) := by
  intro r
  exact (request_arrives packages_lawful r otherUser 6).1 (show 2 ≤ 29 by decide)

end Coin98Vault.Client

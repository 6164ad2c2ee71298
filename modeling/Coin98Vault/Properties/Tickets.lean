import Coin98Vault.Program.Settlement
import Coin98Vault.Properties.ClientActions
import Coin98Vault.Properties.OffChainTrees

/-!
# Tickets

A service makes a tree of the records, and a schedule is opened with its root.  Who holds a record
redeems it with the proof that the service gives, through the client.
-/

namespace Coin98Vault.Client

open Trace

/-- The records of a schedule, for one of the three services. -/
inductive Campaign where
  | oldVersion (schedules : List MerkleDistributor.OldVersionSchedule)
  | single (schedules : List MerkleDistributor.Schedule)
  | multiToken (schedules : List MerkleDistributor.ScheduleMultiToken)

/-- What the holder of a record passes to the client: the record with its proof, and the token
accounts to be paid to and to pay the fee from. -/
structure Ticket where
  mint : Option Pubkey
  args : RedeemTokenArgs
  user : Pubkey
  recipient : Pubkey
  feePayment : Pubkey

namespace Campaign

section
variable (lib : Libraries)

def createTree : Campaign → Option lib.MerkleTree
  | .oldVersion schedules => OldMerkleDistributionService.createTree lib schedules
  | .single schedules => MerkleDistributionService.createTree lib schedules
  | .multiToken schedules => MerkleDistributionMultiTokenService.createTree lib schedules

/-- The ticket for the record at a position.  A record of the old version has no time of its own,
and something has to be passed for it. -/
def ticket (tree : lib.MerkleTree) (p : Nat) (timestamp : Int64) (recipient feePayment : Pubkey) :
    Campaign → Option Ticket
  | .oldVersion schedules => do
    let r ← schedules[p]?
    let proofs ← (OldMerkleDistributionService.getProof lib tree p).mapM
      (Option.map MerkleNode.hash)
    return ⟨none, ⟨r.params.index, timestamp, proofs, r.params.receivingAmount,
      r.params.sendingAmount⟩, r.params.address, recipient, feePayment⟩
  | .single schedules => do
    let r ← schedules[p]?
    let proofs ← (MerkleDistributionService.getProof lib tree p).mapM (Option.map MerkleNode.hash)
    return ⟨none, ⟨r.params.index, r.params.timestamp, proofs, r.params.receivingAmount,
      r.params.sendingAmount⟩, r.params.address, recipient, feePayment⟩
  | .multiToken schedules => do
    let r ← schedules[p]?
    let proofs ← (MerkleDistributionMultiTokenService.getProof lib tree p).mapM
      (Option.map MerkleNode.hash)
    return ⟨some r.params.receivingTokenMint, ⟨r.params.index, r.params.timestamp, proofs,
      r.params.receivingAmount, r.params.sendingAmount⟩, r.params.address, recipient, feePayment⟩

end

def InRange : Campaign → Prop
  | .oldVersion schedules => ∀ r ∈ schedules, r.InRange
  | .single schedules => ∀ r ∈ schedules, r.InRange
  | .multiToken schedules => ∀ r ∈ schedules, r.InRange

/-- The records of a campaign, as the program hashes them. -/
def records : Campaign → List Record
  | .oldVersion schedules => schedules.map fun r => .single r.params
  | .single schedules => schedules.map fun r => .singleV2 r.params
  | .multiToken schedules => schedules.map fun r => .multiV2 r.params

/-- The schedule has been created for records of this kind. -/
def Suits (s : Schedule) : Campaign → Prop
  | .oldVersion _ => s.objType = .distribution ∧ 0 < s.timestamp
  | .single _ => s.objType = .distribution ∧ s.timestamp ≤ 0
  | .multiToken _ => s.objType = .distributionMulti ∧ s.timestamp ≤ 0

end Campaign

namespace Ticket

def redeem (rt : Runtime) (packages : Packages) (connection : Connection) (b : Bank)
    (vault schedule : Pubkey) (t : Ticket) (unixTimestamp : Int64) : Option Bank :=
  (match t.mint with
    | none => VaultService.redeem rt packages connection b t.user vault schedule t.args.index
        t.args.timestamp t.args.proofs t.args.receivingAmount t.args.sendingAmount t.recipient
        t.feePayment rt.programId
    | some mint => VaultService.redeemTokenMulti rt packages connection b t.user vault schedule
        t.args.index t.args.timestamp t.args.proofs mint t.args.receivingAmount
        t.args.sendingAmount t.recipient t.feePayment rt.programId).bind
    (deliver rt b t.user unixTimestamp)

section
variable (t : Ticket) (s : Schedule) (schedule vaultSigner : Pubkey)

def claim : Claim where
  accounts := ⟨s.vaultId, schedule, vaultSigner, s.receivingTokenAccount, t.user, t.recipient,
    tokenProgramId, systemProgramId, [s.sendingTokenAccount, t.feePayment]⟩
  args := t.args
  mint := t.mint

/-- The privileges that the client lists, with the user as the payer. -/
def tx (unixTimestamp : Int64) : Tx where
  signers := [t.user, t.user]
  writable := [t.user, schedule, vaultSigner, s.receivingTokenAccount, t.recipient,
    s.sendingTokenAccount, t.feePayment]
  unixTimestamp

def call (rt : Runtime) (unixTimestamp : Int64) : Call where
  toTx := { t.tx s schedule vaultSigner unixTimestamp with
    writable := rt.unreserved (t.tx s schedule vaultSigner unixTimestamp).writable }
  instruction := (t.claim s schedule vaultSigner).instruction

def unlockTime : Int64 := if s.timestamp > 0 then s.timestamp else t.args.timestamp

/-- What is asked of the accounts that a ticket is paid between: live token accounts, of the mint
that is paid and of one mint for the fee, and debited by their owners. -/
structure Payable (b : Bank) : Prop where
  user : (b t.user).content ≠ .multisig
  fee : 0 < s.fee t.args.sendingAmount →
    ∃ mint, b.LiveOf mint t.user t.feePayment ∧ b.Live mint s.sendingTokenAccount
  payee : t.mint.getD s.receivingTokenMint ≠ systemProgramId →
    ∃ mint, (∀ m, t.mint = some m → m = mint) ∧
      b.LiveOf mint vaultSigner s.receivingTokenAccount ∧ b.Live mint t.recipient

/-- The proof of the ticket is accepted, and the coder has room for it. -/
structure Issued (rt : Runtime) : Prop where
  type : s.objType = (t.claim s schedule vaultSigner).objType
  length : t.args.proofs.length ≤ 29
  proves : ∃ hlen, Shared.verifyProof rt t.args.proofs ⟨s.merkleRoot, hlen⟩
    (rt.keccak ((t.claim s schedule vaultSigner).record s.timestamp).tryToVec) = true

end

end Ticket

/-- A schedule runs a campaign: it is for records of this kind, with the root of the tree that the
service makes of them.  The coder has room for the proofs of trees of such a height. -/
structure Campaign.Runs (d : Campaign) (rt : Runtime) (lib : Libraries) (b : Bank) (s : Schedule)
    (tree : lib.MerkleTree) (schedule vaultSigner : Pubkey) : Prop where
  account : b.schedule? schedule = some s
  suits : d.Suits s
  inRange : d.InRange
  created : d.createTree lib = some tree
  root : s.merkleRoot = (lib.root tree).hash.bytes
  height : (lib.nodes tree).length ≤ 30
  signer : ∃ bump, rt.findProgramAddress [signerSeed1, s.vaultId.bytes] = some (vaultSigner, bump)
  wallet : (b vaultSigner).content = .wallet

def Campaign.Issues (d : Campaign) (lib : Libraries) (tree : lib.MerkleTree) (t : Ticket) : Prop :=
  ∃ p timestamp recipient feePayment,
    d.ticket lib tree p timestamp recipient feePayment = some t

/-! ## Tickets are proved -/

section
variable {rt : Runtime} {packages : Packages} {connection : Connection} {lib : Libraries}

theorem mapM_hash (nodes : List MerkleNode) :
    (nodes.map some).mapM (Option.map MerkleNode.hash) = some (nodes.map MerkleNode.hash) := by
  induction nodes with
  | nil => rfl
  | cons n nodes ih =>
    rw [List.map_cons, List.mapM_cons, ih]
    rfl

private theorem proofs_climb {α : Type} {layout : FieldLayout α} {record : α → Record}
    (hlib : lib.Lawful rt) {schedules : List α}
    (hputs : ∀ a ∈ schedules, layout.Puts a (record a).tryToVec) {tree : lib.MerkleTree}
    (htree : MerkleDistributor.createTree lib layout schedules = some tree) {p : Nat} {a : α}
    (ha : schedules[p]? = some a) {proofs : List Hash}
    (hproofs : (MerkleDistributor.getProof lib tree p).mapM (Option.map MerkleNode.hash) =
      some proofs) :
    proofs.length + 1 = (lib.nodes tree).length ∧
      Shared.verifyProof rt proofs (lib.root tree).hash (rt.keccak (record a).tryToVec) = true := by
  obtain rfl := Option.some.inj ((MerkleDistributor.createTree_eq hlib hputs).symm.trans htree)
  obtain ⟨nodes, hnodes, hlength, haccepts⟩ :=
    @MerkleDistributor.getProof_climbs α lib rt record hlib schedules p a ha
  rw [hnodes, mapM_hash] at hproofs
  obtain rfl := Option.some.inj hproofs
  rw [List.length_map]
  exact ⟨hlength, haccepts⟩

private theorem ticket_eq_some {α : Type} {schedules : List α} {proof : List (Option MerkleNode)}
    {make : α → List Hash → Ticket} {p : Nat} {t : Ticket} :
    (do
      let r ← schedules[p]?
      let proofs ← proof.mapM (Option.map MerkleNode.hash)
      return make r proofs) = some t ↔
      ∃ r proofs, schedules[p]? = some r ∧ proof.mapM (Option.map MerkleNode.hash) = some proofs ∧
        make r proofs = t := by
  simp [Option.bind_eq_some_iff]

/-- What the three services have in common: one layout for what they list, one record that the
program hashes for it, and tickets with the proofs for their positions. -/
private theorem Campaign.service (hlib : lib.Lawful rt) {d : Campaign} (hrange : d.InRange) :
    ∃ (α : Type) (layout : FieldLayout α) (record : α → Record) (schedules : List α),
      d.createTree lib = MerkleDistributor.createTree lib layout schedules ∧
      (∀ a ∈ schedules, layout.Puts a (record a).tryToVec) ∧
      d.records = schedules.map record ∧
      ∀ {s : Schedule}, d.Suits s → ∀ {tree : lib.MerkleTree} {t : Ticket}, d.Issues lib tree t →
        ∀ schedule vaultSigner, s.objType = (t.claim s schedule vaultSigner).objType ∧
          ∃ p a, schedules[p]? = some a ∧
            (MerkleDistributor.getProof lib tree p).mapM (Option.map MerkleNode.hash) =
              some t.args.proofs ∧
            (t.claim s schedule vaultSigner).record s.timestamp = record a := by
  cases d with
  | oldVersion schedules =>
    refine ⟨_, MerkleDistributor.oldVersionScheduleLayout lib, fun r => .single r.params, schedules,
      rfl, fun a ha => MerkleDistributor.oldVersionScheduleLayout_puts hlib (hrange a ha), rfl, ?_⟩
    intro s hsuits tree t ht schedule vaultSigner
    obtain ⟨p, timestamp, recipient, feePayment, ht⟩ := ht
    obtain ⟨r, proofs, hr, hproofs, rfl⟩ := ticket_eq_some.mp ht
    exact ⟨hsuits.1, p, r, hr, hproofs, if_pos hsuits.2⟩
  | single schedules =>
    refine ⟨_, MerkleDistributor.scheduleLayout lib, fun r => .singleV2 r.params, schedules, rfl,
      fun a ha => MerkleDistributor.scheduleLayout_puts hlib (hrange a ha), rfl, ?_⟩
    intro s hsuits tree t ht schedule vaultSigner
    obtain ⟨p, timestamp, recipient, feePayment, ht⟩ := ht
    obtain ⟨r, proofs, hr, hproofs, rfl⟩ := ticket_eq_some.mp ht
    exact ⟨hsuits.1, p, r, hr, hproofs, if_neg (Int64.not_lt.mpr hsuits.2)⟩
  | multiToken schedules =>
    refine ⟨_, MerkleDistributor.scheduleMultiTokenLayout lib, fun r => .multiV2 r.params, schedules,
      rfl, fun a ha => MerkleDistributor.scheduleMultiTokenLayout_puts hlib (hrange a ha), rfl, ?_⟩
    intro s hsuits tree t ht schedule vaultSigner
    obtain ⟨p, timestamp, recipient, feePayment, ht⟩ := ht
    obtain ⟨r, proofs, hr, hproofs, rfl⟩ := ticket_eq_some.mp ht
    exact ⟨hsuits.1, p, r, hr, hproofs, if_neg (Int64.not_lt.mpr hsuits.2)⟩

private theorem Campaign.ticket_proves (hlib : lib.Lawful rt) {d : Campaign} (hrange : d.InRange)
    {tree : lib.MerkleTree} (htree : d.createTree lib = some tree) {s : Schedule}
    (hsuits : d.Suits s) {t : Ticket} (ht : d.Issues lib tree t) (schedule vaultSigner : Pubkey) :
    s.objType = (t.claim s schedule vaultSigner).objType ∧
      t.args.proofs.length + 1 = (lib.nodes tree).length ∧
      Shared.verifyProof rt t.args.proofs (lib.root tree).hash
        (rt.keccak ((t.claim s schedule vaultSigner).record s.timestamp).tryToVec) = true := by
  obtain ⟨α, layout, record, schedules, hcreate, hputs, -, htickets⟩ := service hlib hrange
  obtain ⟨htype, p, a, ha, hproofs, hrecord⟩ := htickets hsuits ht schedule vaultSigner
  rw [hcreate] at htree
  rw [hrecord]
  exact ⟨htype, proofs_climb hlib hputs htree ha hproofs⟩

theorem Campaign.createTree_eq (hlib : lib.Lawful rt) {d : Campaign} (hrange : d.InRange) :
    d.createTree lib = some (lib.newMerkleTree (d.records.map fun r => rt.keccak r.tryToVec)) := by
  obtain ⟨α, layout, record, schedules, hcreate, hputs, hrecords, -⟩ := service hlib hrange
  rw [hcreate, hrecords, List.map_map]
  exact MerkleDistributor.createTree_eq hlib hputs

/-- What a ticket redeems is a record of its campaign. -/
theorem Campaign.Issues.record (hlib : lib.Lawful rt) {d : Campaign} (hrange : d.InRange)
    {tree : lib.MerkleTree} {t : Ticket} (h : d.Issues lib tree t) {s : Schedule}
    (hsuits : d.Suits s) (schedule vaultSigner : Pubkey) :
    (t.claim s schedule vaultSigner).record s.timestamp ∈ d.records := by
  obtain ⟨α, layout, record, schedules, -, -, hrecords, htickets⟩ := service hlib hrange
  obtain ⟨-, p, a, ha, -, hrecord⟩ := htickets hsuits h schedule vaultSigner
  rw [hrecords, hrecord]
  exact List.mem_map_of_mem (List.mem_of_getElem? ha)

theorem Campaign.Runs.issued (hlib : lib.Lawful rt) {d : Campaign} {b : Bank} {s : Schedule}
    {tree : lib.MerkleTree} {schedule vaultSigner : Pubkey}
    (h : d.Runs rt lib b s tree schedule vaultSigner) {t : Ticket} (ht : d.Issues lib tree t) :
    t.Issued s schedule vaultSigner rt := by
  obtain ⟨htype, hlength, hproves⟩ := Campaign.ticket_proves hlib h.inRange h.created h.suits ht
    schedule vaultSigner
  have hheight := h.height
  have hlen : s.merkleRoot.length = 32 := by rw [h.root, Bytes32.length_bytes]
  have hsame : (⟨s.merkleRoot, hlen⟩ : Hash) = (lib.root tree).hash :=
    Bytes32.bytes_injective h.root
  refine ⟨htype, by omega, hlen, ?_⟩
  rw [hsame]
  exact hproves

/-! ## What the client sends -/

section
variable {b : Bank} {s : Schedule} {v : Vault} {schedule vaultSigner : Pubkey} {t : Ticket}
  {unixTimestamp : Int64}

private theorem redemptionAccounts_eq (hp : packages.Lawful rt) (hc : connection.Lawful rt)
    {root : Pubkey × UInt8}
    (hroot : VaultInstructionService.findRootSignerAddress rt packages rt.programId = some root)
    {vault : Pubkey} (hv : b.vault? vault = some v) (hs : b.schedule? schedule = some s)
    {bump : UInt8}
    (hsigner : rt.findProgramAddress [signerSeed1, vault.bytes] = some (vaultSigner, bump)) :
    VaultService.redemptionAccounts rt packages connection b vault schedule =
      some (vaultSigner, s.receivingTokenAccount, s.sendingTokenAccount) := by
  obtain ⟨d, hd⟩ := Bank.data_of_read hv
  obtain ⟨e, he⟩ := Bank.data_of_read hs
  simp only [VaultService.redemptionAccounts, getVaultAccountInfo_eq hp hc hd,
    getScheduleAccountInfo_eq hp hc he, hv, hs, hsigner, hroot, Option.bind_eq_bind,
    Option.bind_some, Option.map_some, Option.pure_def, vaultInfo_signer,
    scheduleInfo_receivingTokenAccount, scheduleInfo_sendingTokenAccount]

/-- What a redemption has to write is listed, and is granted unless a key is reserved. -/
theorem Ticket.call_canWrite (unixTimestamp : Int64) :
    (∀ k ∈ (t.claim s schedule vaultSigner).writes s,
      k ∈ (t.call s schedule vaultSigner rt unixTimestamp).writable) ↔
      rt.CanWrite ((t.claim s schedule vaultSigner).writes s) := by
  have hlisted : ∀ k ∈ (t.claim s schedule vaultSigner).writes s,
      k ∈ (t.tx s schedule vaultSigner unixTimestamp).writable :=
    Claim.forall_writes.mpr (by simp [Ticket.claim, Ticket.tx])
  apply forall₂_congr
  intro k hk
  rw [Ticket.call, Runtime.mem_unreserved]
  exact and_iff_right (hlisted k hk)

theorem Ticket.redeem_eq (hp : packages.Lawful rt) (hc : connection.Lawful rt)
    {root : Pubkey × UInt8}
    (hroot : VaultInstructionService.findRootSignerAddress rt packages rt.programId = some root)
    (hv : b.vault? s.vaultId = some v) (hs : b.schedule? schedule = some s) {bump : UInt8}
    (hsigner : rt.findProgramAddress [signerSeed1, s.vaultId.bytes] = some (vaultSigner, bump))
    (hlength : t.args.proofs.length ≤ 29) :
    t.redeem rt packages connection b s.vaultId schedule unixTimestamp =
      (step rt b (t.call s schedule vaultSigner rt unixTimestamp)).toOption := by
  have haccounts := redemptionAccounts_eq hp hc hroot hv hs hsigner
  obtain ⟨mint, args, user, recipient, feePayment⟩ := t
  cases mint with
  | none =>
    have hfits : (Request.redeemToken s.vaultId schedule args vaultSigner s.receivingTokenAccount
        (some s.sendingTokenAccount) user recipient (some feePayment)).Fits :=
      hlength.trans (by decide)
    simp only [Ticket.redeem, VaultService.redeem, haccounts, Option.bind_eq_bind,
      Option.bind_some]
    exact Request.send_eq hp hfits user unixTimestamp
  | some mint =>
    have hfits : (Request.redeemTokenMulti s.vaultId schedule
        { args with receivingTokenMint := mint } vaultSigner s.receivingTokenAccount
        (some s.sendingTokenAccount) user recipient (some feePayment)).Fits := hlength
    simp only [Ticket.redeem, VaultService.redeemTokenMulti, haccounts, Option.bind_eq_bind,
      Option.bind_some]
    exact Request.send_eq hp hfits user unixTimestamp

end

end

end Coin98Vault.Client

import Coin98Vault.Properties.Payout
import Coin98Vault.Properties.Tickets

/-!
# Redemptions of several mints with the client

The client passes the one account that the schedule names, whatever the mint of the record.  The
program asks for an account of that mint.
-/

namespace Coin98Vault.Client

open Trace Ledger MerkleDistributor

/-- The redemption of the record at a position of a tree, with the proof that the service gives. -/
def redeemRecord (rt : Runtime) (packages : Packages) (connection : Connection) (b : Bank)
    (tree : packages.lib.MerkleTree) (p : Nat) (r : RedemptionMultiParamsV2)
    (vault schedule recipient feePayment : Pubkey) (unixTimestamp : Int64) : Option Bank := do
  let proofs ← (MerkleDistributionMultiTokenService.getProof packages.lib tree p).mapM
    (Option.map MerkleNode.hash)
  let ix ← VaultService.redeemTokenMulti rt packages connection b r.address vault schedule r.index
    r.timestamp proofs r.receivingTokenMint r.receivingAmount r.sendingAmount recipient feePayment
    rt.programId
  deliver rt b r.address unixTimestamp ix

/-- A record of a multi-token tree is due, the vault's signer has enough of its mint in some account,
and the fee can be paid.  Schedule and vault are those of a state that the program reaches. -/
structure Redeemable (rt : Runtime) (lib : Libraries) (b : Bank) (s : Schedule)
    (tree : lib.MerkleTree) (p : Nat) (r : RedemptionMultiParamsV2)
    (schedule vaultSigner recipient feePayment : Pubkey) (unixTimestamp : Int64) : Prop where
  reached : ∃ b₀ calls v, (∀ k d, (b₀ k).content ≠ .program d) ∧
    (run (step rt) b₀ calls).schedule? schedule = some s ∧
    (run (step rt) b₀ calls).vault? s.vaultId = some v ∧ b.vault? s.vaultId = some v
  account : b.schedule? schedule = some s
  type : s.objType = .distributionMulti
  timestamp : s.timestamp ≤ 0
  record : ∃ schedules a, (∀ a' ∈ schedules, a'.InRange) ∧
    MerkleDistributionMultiTokenService.createTree lib schedules = some tree ∧
    schedules[p]? = some a ∧ a.params = r
  root : s.merkleRoot = (lib.root tree).hash.bytes
  active : s.isActive = true
  unlocked : r.timestamp ≤ unixTimestamp
  bit : s.redemptions[r.index.toNat]? = some false
  signer : ∃ bump, rt.findProgramAddress [signerSeed1, s.vaultId.bytes] = some (vaultSigner, bump)
  wallet : (b vaultSigner).content = .wallet
  /-- The user pays for the transaction, and so is no account of the token program. -/
  user : (b r.address).content ≠ .multisig
  payee : r.receivingTokenMint ≠ systemProgramId → b.Live r.receivingTokenMint recipient
  funds : if r.receivingTokenMint = systemProgramId then
      r.receivingAmount.toNat ≤ (b vaultSigner).lamports
    else ∃ k t, b.token? k = some t ∧ t.mint = r.receivingTokenMint ∧ t.owner = vaultSigner ∧
      r.receivingAmount.toNat ≤ t.amount
  fee : 0 < s.fee r.sendingAmount → ∃ mint, b.LiveOf mint r.address feePayment ∧
    b.Live mint s.sendingTokenAccount ∧ s.fee r.sendingAmount ≤ b.balance (.tokens feePayment)

/-- The account that the schedule names pays for the record, once the fee is paid. -/
def PaidBySchedule (b : Bank) (s : Schedule) (r : RedemptionMultiParamsV2)
    (vaultSigner feePayment : Pubkey) : Prop :=
  ∃ t, b.token? s.receivingTokenAccount = some t ∧ t.mint = r.receivingTokenMint ∧
    t.state = .initialized ∧ t.CanDebit vaultSigner r.receivingAmount.toNat ∧
    r.receivingAmount.toNat + amountAt feePayment (s.fee r.sendingAmount) s.receivingTokenAccount ≤
      t.amount + amountAt s.sendingTokenAccount (s.fee r.sendingAmount) s.receivingTokenAccount

def recordWrites (s : Schedule) (r : RedemptionMultiParamsV2)
    (schedule vaultSigner recipient feePayment : Pubkey) : List Pubkey :=
  [schedule, s.receivingTokenAccount, recipient] ++
  (if 0 < s.fee r.sendingAmount then [s.sendingTokenAccount, feePayment] else []) ++
  if r.receivingTokenMint = systemProgramId then [vaultSigner, r.address] else []

/-- The fee and the payout of the record, as changes of the balances. -/
structure Pays (b b' : Bank) (s : Schedule) (r : RedemptionMultiParamsV2)
    (vaultSigner recipient feePayment : Pubkey) : Prop where
  lamports : r.receivingTokenMint = systemProgramId →
    b.LamportsMoved (amountAt vaultSigner r.receivingAmount.toNat)
      (amountAt r.address r.receivingAmount.toNat) b'
  tokens : r.receivingTokenMint ≠ systemProgramId →
    b.TokensMoved
      (fun k => amountAt feePayment (s.fee r.sendingAmount) k +
        amountAt s.receivingTokenAccount r.receivingAmount.toNat k)
      (fun k => amountAt s.sendingTokenAccount (s.fee r.sendingAmount) k +
        amountAt recipient r.receivingAmount.toNat k) b'

section
variable {rt : Runtime} {lib : Libraries} {b : Bank} {s : Schedule} {tree : lib.MerkleTree}
  {p : Nat} {r : RedemptionMultiParamsV2} {schedule vaultSigner recipient feePayment : Pubkey}
  {unixTimestamp : Int64}

def recordTicket (r : RedemptionMultiParamsV2) (proofs : List Hash)
    (recipient feePayment : Pubkey) : Ticket :=
  ⟨some r.receivingTokenMint, ⟨r.index, r.timestamp, proofs, r.receivingAmount, r.sendingAmount⟩,
    r.address, recipient, feePayment⟩

def clientClaim (s : Schedule) (r : RedemptionMultiParamsV2) (proofs : List Hash)
    (schedule vaultSigner recipient feePayment : Pubkey) : Claim :=
  (recordTicket r proofs recipient feePayment).claim s schedule vaultSigner

def clientCall (rt : Runtime) (s : Schedule) (r : RedemptionMultiParamsV2) (proofs : List Hash)
    (schedule vaultSigner recipient feePayment : Pubkey) (unixTimestamp : Int64) : Call :=
  (recordTicket r proofs recipient feePayment).call s schedule vaultSigner rt unixTimestamp

private theorem clientCall_claim? (proofs : List Hash) :
    (clientCall rt s r proofs schedule vaultSigner recipient feePayment
      unixTimestamp).instruction.claim? =
      some (clientClaim s r proofs schedule vaultSigner recipient feePayment) := rfl

private theorem clientCall_canWrite (proofs : List Hash) (unixTimestamp : Int64) :
    (∀ k ∈ (clientClaim s r proofs schedule vaultSigner recipient feePayment).writes s,
      k ∈ (clientCall rt s r proofs schedule vaultSigner recipient feePayment
        unixTimestamp).writable) ↔
      rt.CanWrite (recordWrites s r schedule vaultSigner recipient feePayment) :=
  Ticket.call_canWrite unixTimestamp

private theorem serviceProofs_eq {nodes : List MerkleNode}
    (hnodes : getProof lib tree p = nodes.map some) :
    (MerkleDistributionMultiTokenService.getProof lib tree p).mapM (Option.map MerkleNode.hash) =
      some (nodes.map MerkleNode.hash) := by
  rw [MerkleDistributionMultiTokenService.getProof, hnodes, mapM_hash]

private theorem redeemRecord_eq {packages : Packages} (hp : packages.Lawful rt)
    {connection : Connection} (hc : connection.Lawful rt) {root : Pubkey × UInt8}
    (hroot : VaultInstructionService.findRootSignerAddress rt packages rt.programId = some root)
    {tree : packages.lib.MerkleTree} (hs : b.schedule? schedule = some s) {v : Vault}
    (hv : b.vault? s.vaultId = some v) {bump : UInt8}
    (hsigner : rt.findProgramAddress [signerSeed1, s.vaultId.bytes] = some (vaultSigner, bump))
    {nodes : List MerkleNode} (hnodes : getProof packages.lib tree p = nodes.map some)
    (hlength : nodes.length ≤ 29) :
    redeemRecord rt packages connection b tree p r s.vaultId schedule recipient feePayment
        unixTimestamp =
      (step rt b (clientCall rt s r (nodes.map MerkleNode.hash) schedule vaultSigner recipient
        feePayment unixTimestamp)).toOption := by
  rw [redeemRecord, serviceProofs_eq hnodes]
  refine Ticket.redeem_eq (t := recordTicket r (nodes.map MerkleNode.hash) recipient feePayment)
    hp hc hroot hv hs hsigner ?_
  rw [recordTicket, List.length_map]
  exact hlength

/-- A proof of more than 29 hashes is too long for the coder's buffer. -/
private theorem redeemRecord_eq_none {packages : Packages} (hp : packages.Lawful rt)
    {connection : Connection} {tree : packages.lib.MerkleTree} {vault : Pubkey}
    {nodes : List MerkleNode} (hnodes : getProof packages.lib tree p = nodes.map some)
    (hlength : 29 < nodes.length) :
    redeemRecord rt packages connection b tree p r vault schedule recipient feePayment
      unixTimestamp = none := by
  have hbuild (vaultSigner vaultToken0 vaultToken1 : Pubkey) :
      VaultInstructionService.redeemTokenMulti packages vault schedule r.index r.timestamp
        (nodes.map MerkleNode.hash) r.receivingTokenMint r.receivingAmount r.sendingAmount
        vaultSigner vaultToken0 (some vaultToken1) r.address recipient (some feePayment)
        rt.programId = none :=
    Request.build_eq_none hp (r := .redeemTokenMulti vault schedule
      ⟨⟨r.index, r.timestamp, nodes.map MerkleNode.hash, r.receivingAmount, r.sendingAmount⟩,
        r.receivingTokenMint⟩ vaultSigner vaultToken0 (some vaultToken1) r.address recipient
        (some feePayment)) (by simp [Request.Fits]; omega) rt.programId
  rw [redeemRecord, serviceProofs_eq hnodes]
  simp [VaultService.redeemTokenMulti, hbuild]

theorem Redeemable.proof (hlib : lib.Lawful rt)
    (h : Redeemable rt lib b s tree p r schedule vaultSigner recipient feePayment unixTimestamp) :
    ∃ nodes : List MerkleNode, getProof lib tree p = nodes.map some ∧
      nodes.length + 1 = (lib.nodes tree).length ∧
      Shared.verifyProof rt (nodes.map MerkleNode.hash) (lib.root tree).hash
        (rt.keccak (Record.multiV2 r).tryToVec) = true := by
  obtain ⟨schedules, a, hrange, htree, ha, rfl⟩ := h.record
  have hputs : ∀ a ∈ schedules,
      (scheduleMultiTokenLayout lib).Puts a (Record.multiV2 a.params).tryToVec :=
    fun a ha => scheduleMultiTokenLayout_puts hlib (hrange a ha)
  obtain rfl := Option.some.inj ((createTree_eq hlib hputs).symm.trans htree)
  obtain ⟨nodes, hnodes, hlength, haccepts⟩ :=
    @getProof_climbs _ lib rt (fun a => Record.multiV2 a.params) hlib schedules p a ha
  exact ⟨nodes, hnodes, hlength, haccepts⟩

theorem Redeemable.vault (hrt : rt.Lawful)
    (h : Redeemable rt lib b s tree p r schedule vaultSigner recipient feePayment unixTimestamp) :
    ∃ v, b.vault? s.vaultId = some v ∧
      rt.findProgramAddress [signerSeed1, s.vaultId.bytes] = some (vaultSigner, v.signerNonce) := by
  obtain ⟨b₀, calls, v, hunused, -, hv₀, hv⟩ := h.reached
  have hwf : (run (step rt) b₀ calls).WellFormed rt :=
    wellFormed_run hrt (wellFormed_of_unused hunused) calls
  obtain ⟨bump, hfind⟩ := h.signer
  obtain ⟨q, hq⟩ := hwf.signerNonce _ _ hv₀
  obtain ⟨rfl, rfl⟩ : vaultSigner = q ∧ bump = v.signerNonce := by
    rw [hfind] at hq
    simpa using hq
  exact ⟨v, hv, hfind⟩

theorem Redeemable.admitted (hrt : rt.Lawful)
    (h : Redeemable rt lib b s tree p r schedule vaultSigner recipient feePayment unixTimestamp)
    {v : Vault} (hv : b.vault? s.vaultId = some v)
    (hseeds : rt.createProgramAddress (signerSeeds s.vaultId v) = some vaultSigner)
    {proofs : List Hash}
    (haccepts : Shared.verifyProof rt proofs (lib.root tree).hash
      (rt.keccak (Record.multiV2 r).tryToVec) = true)
    (hkeys : rt.CanWrite (recordWrites s r schedule vaultSigner recipient feePayment)) :
    (clientClaim s r proofs schedule vaultSigner recipient feePayment).Admitted rt
      (clientCall rt s r proofs schedule vaultSigner recipient feePayment unixTimestamp).toTx b v
      s := by
  obtain ⟨b₀, calls, -, hunused, hs, -, -⟩ := h.reached
  have hwf : (run (step rt) b₀ calls).WellFormed rt :=
    wellFormed_run hrt (wellFormed_of_unused hunused) calls
  have htime : ¬ s.timestamp > 0 := by
    have hle := h.timestamp
    rw [gt_iff_lt, Int64.not_lt]
    exact hle
  have hlen : s.merkleRoot.length = 32 := hwf.merkleRoot _ _ hs
  obtain ⟨⟨hw, hw₀, hw₁⟩, -⟩ := Claim.forall_writes.mp
    ((clientCall_canWrite proofs unixTimestamp).mpr hkeys)
  refine {
    vault := hv
    schedule := h.account
    scheduleWritable := hw
    scheduleSeeds := rt.create_of_find (hwf.address _ _ hs)
    link := rfl
    vaultSigner := hseeds
    vaultToken0Writable := hw₀
    user := List.mem_cons_self
    userToken0Writable := hw₁
    tokenProgram := rfl
    systemProgram := rfl
    pinned := nofun
    type := h.type
    active := h.active
    unlocked := by rw [Claim.unlockTime, if_neg htime]; exact h.unlocked
    proves := ⟨hlen, ?_, h.bit⟩ }
  have hroot : (⟨s.merkleRoot, hlen⟩ : Hash) = (lib.root tree).hash :=
    Bytes32.bytes_injective h.root
  have hrecord : (clientClaim s r proofs schedule vaultSigner recipient
      feePayment).record s.timestamp = .multiV2 r := if_neg htime
  rw [hroot, hrecord]
  exact haccepts

/-! ## The fee and the payout -/

private theorem clientClaim_feeMoves (proofs : List Hash) :
    (clientClaim s r proofs schedule vaultSigner recipient feePayment).feeMoves s =
      if 0 < s.fee r.sendingAmount then
        [⟨.tokens feePayment, .tokens s.sendingTokenAccount, s.fee r.sendingAmount⟩]
      else [] := rfl

private theorem clientClaim_fee (proofs : List Hash) (k : Pubkey) :
    debits ((clientClaim s r proofs schedule vaultSigner recipient feePayment).feeMoves s)
        (.tokens k) = amountAt feePayment (s.fee r.sendingAmount) k ∧
      credits ((clientClaim s r proofs schedule vaultSigner recipient feePayment).feeMoves s)
        (.tokens k) = amountAt s.sendingTokenAccount (s.fee r.sendingAmount) k := by
  rw [clientClaim_feeMoves]
  by_cases hpos : 0 < s.fee r.sendingAmount
  · simp [hpos, Move.debit, Move.credit, amountAt]
  · have hzero : s.fee r.sendingAmount = 0 := by omega
    simp [hzero, amountAt]

private theorem clientClaim_fee_lamports (proofs : List Hash) (k : Pubkey) :
    debits ((clientClaim s r proofs schedule vaultSigner recipient feePayment).feeMoves s)
        (.lamports k) = 0 ∧
      credits ((clientClaim s r proofs schedule vaultSigner recipient feePayment).feeMoves s)
        (.lamports k) = 0 := by
  rw [clientClaim_feeMoves]
  by_cases hpos : 0 < s.fee r.sendingAmount
  · simp [hpos, Move.debit, Move.credit]
  · simp [hpos]

private theorem Redeemable.fee_covers
    (h : Redeemable rt lib b s tree p r schedule vaultSigner recipient feePayment unixTimestamp)
    (proofs : List Hash) :
    Covers b.balance
      ((clientClaim s r proofs schedule vaultSigner recipient feePayment).feeMoves s) := by
  intro asset
  cases asset with
  | tokens k =>
    rw [(clientClaim_fee proofs k).1]
    unfold amountAt
    split
    · rename_i hk
      subst hk
      by_cases hpos : 0 < s.fee r.sendingAmount
      · obtain ⟨-, -, -, hle⟩ := h.fee hpos
        exact hle
      · omega
    · omega
  | lamports k =>
    rw [(clientClaim_fee_lamports proofs k).1]
    exact Nat.zero_le _

private theorem Redeemable.fee_paid (hrt : rt.Lawful)
    (h : Redeemable rt lib b s tree p r schedule vaultSigner recipient feePayment unixTimestamp)
    (hkeys : rt.CanWrite (recordWrites s r schedule vaultSigner recipient feePayment))
    (proofs : List Hash) :
    let cl := clientClaim s r proofs schedule vaultSigner recipient feePayment
    let c := clientCall rt s r proofs schedule vaultSigner recipient feePayment unixTimestamp
    ∃ balance, payFee rt c.toTx b s cl.accounts.user cl.accounts.remainingAccounts
        cl.args.sendingAmount = .ok (b.withBalances balance) ∧
      (∀ k, balance (.tokens k) + amountAt feePayment (s.fee r.sendingAmount) k =
        b.balance (.tokens k) + amountAt s.sendingTokenAccount (s.fee r.sendingAmount) k) ∧
      ∀ k, balance (.lamports k) = (b k).lamports := by
  intro cl c
  obtain ⟨-, hwfee, -⟩ := Claim.forall_writes.mp
    ((clientCall_canWrite proofs unixTimestamp).mpr hkeys)
  have hfits : cl.FeeFits c.toTx b s := by
    intro hpos
    obtain ⟨mint, hfrom, hto, -⟩ := h.fee hpos
    obtain ⟨hw, hw₁⟩ := hwfee hpos
    exact ⟨mint, feePayment, rfl, rfl, hw, hw₁ _ rfl, hfrom, hto, h.user⟩
  have hcovers : Covers b.balance (cl.feeMoves s) := h.fee_covers proofs
  have hpaid := hfits.payFee hrt List.mem_cons_self hcovers
  rw [Bank.withBalances_balance] at hpaid
  refine ⟨_, hpaid, ?_, ?_⟩
  · intro k
    have hk := hcovers.settle_add (.tokens k)
    rw [(clientClaim_fee proofs k).1, (clientClaim_fee proofs k).2] at hk
    exact hk
  · intro k
    have hk := hcovers.settle_add (.lamports k)
    rw [(clientClaim_fee_lamports proofs k).1, (clientClaim_fee_lamports proofs k).2] at hk
    exact hk

private theorem payOut_lamports (hrt : rt.Lawful) {v : Vault} {proofs : List Hash}
    {balance : Asset → Nat} (hsys : r.receivingTokenMint = systemProgramId)
    (hseeds : rt.createProgramAddress (signerSeeds s.vaultId v) = some vaultSigner)
    (hwallet : (b vaultSigner).content = .wallet)
    (hkeys : rt.CanWrite (recordWrites s r schedule vaultSigner recipient feePayment))
    (hle : r.receivingAmount.toNat ≤ balance (.lamports vaultSigner)) :
    ∃ b₂, (clientClaim s r proofs schedule vaultSigner recipient feePayment).payOut rt
      (clientCall rt s r proofs schedule vaultSigner recipient feePayment unixTimestamp).toTx
      (b.withBalances balance) v s = .ok b₂ := by
  obtain ⟨-, -, hw⟩ := Claim.forall_writes.mp
    ((clientCall_canWrite proofs unixTimestamp).mpr hkeys)
  obtain ⟨hw₀, hw₁⟩ := hw hsys
  refine ⟨_, Claim.payOut_eq_ok.mpr (.inl ⟨hsys, (transferLamport_eq_ok hrt).mpr
    ⟨?_, hw₀, hw₁, ?_, ?_, hle, rfl⟩⟩)⟩
  · intro seeds hmem
    rw [List.mem_singleton.mp hmem]
    exact ⟨vaultSigner, hseeds⟩
  · exact .inr ⟨_, List.mem_singleton_self _, hseeds⟩
  · exact Bank.withBalances_wallet hwallet

/-- A record in tokens is paid if and only if the account that the schedule names can pay it. -/
private theorem payOut_tokens_iff (hrt : rt.Lawful) {v : Vault} {proofs : List Hash}
    {balance : Asset → Nat} (hsys : r.receivingTokenMint ≠ systemProgramId)
    (hseeds : rt.createProgramAddress (signerSeeds s.vaultId v) = some vaultSigner)
    (hwallet : (b vaultSigner).content = .wallet)
    (hkeys : rt.CanWrite (recordWrites s r schedule vaultSigner recipient feePayment))
    (hpayee : b.Live r.receivingTokenMint recipient) :
    (∃ b₂, (clientClaim s r proofs schedule vaultSigner recipient feePayment).payOut rt
      (clientCall rt s r proofs schedule vaultSigner recipient feePayment unixTimestamp).toTx
      (b.withBalances balance) v s = .ok b₂) ↔
      ∃ t, b.token? s.receivingTokenAccount = some t ∧ t.mint = r.receivingTokenMint ∧
        t.state = .initialized ∧ t.CanDebit vaultSigner r.receivingAmount.toNat ∧
        r.receivingAmount.toNat ≤ balance (.tokens s.receivingTokenAccount) := by
  have htoken (k : Pubkey) : (b.withBalances balance).token? k =
      (b.token? k).map fun t => { t with amount := balance (.tokens k) } :=
    Bank.withBalances_token?
  obtain ⟨⟨-, hw₀, hw₁⟩, -⟩ := Claim.forall_writes.mp
    ((clientCall_canWrite proofs unixTimestamp).mpr hkeys)
  constructor
  · intro hpay
    obtain ⟨b₂, hpay⟩ := hpay
    rcases Claim.payOut_eq_ok.mp hpay with ⟨hsys', -⟩ | ⟨-, hmints, ht⟩
    · exact absurd hsys' hsys
    · obtain ⟨-, -, -, -, hp⟩ := transferToken_eq_ok.mp ht
      obtain ⟨t, -, ht, -, -, hdebit, hle, hstate, -⟩ := hrt.token.requires hp
      obtain ⟨t', -, ht', -, hmint, -⟩ := hmints r.receivingTokenMint rfl
      obtain rfl := Option.some.inj ((unpackTokenAccount_of_token? ht).symm.trans ht')
      have hold := (htoken s.receivingTokenAccount).symm.trans ht
      obtain ⟨u, hu, rfl⟩ := Option.map_eq_some_iff.mp hold
      exact ⟨u, hu, hmint, hstate, hdebit, hle⟩
  · intro hpaid
    obtain ⟨t, ht, hmint, hstate, hdebit, hle⟩ := hpaid
    obtain ⟨u, hu, humint, hustate⟩ := hpayee
    have hfrom := htoken s.receivingTokenAccount
    have hto := htoken recipient
    rw [ht, Option.map_some] at hfrom
    rw [hu, Option.map_some] at hto
    have hmulti : (b.withBalances balance vaultSigner).content ≠ .multisig := by
      rw [Bank.withBalances_wallet hwallet]
      exact Content.noConfusion
    obtain ⟨b₂, hp⟩ := hrt.token.accepts hfrom hto (hmint.trans humint.symm) hdebit hle hstate
      hustate hmulti
    refine ⟨b₂, Claim.payOut_eq_ok.mpr (.inr ⟨hsys, ?_, transferToken_eq_ok.mpr
      ⟨?_, hw₀, hw₁, ?_, hp⟩⟩)⟩
    · intro mint hm
      obtain rfl := Option.some.inj hm
      exact ⟨_, _, unpackTokenAccount_of_token? hfrom, unpackTokenAccount_of_token? hto, hmint,
        humint⟩
    · intro seeds hmem
      rw [List.mem_singleton.mp hmem]
      exact ⟨vaultSigner, hseeds⟩
    · exact .inr ⟨_, List.mem_singleton_self _, hseeds⟩

private theorem clientClaim_pays (hrt : rt.Lawful) {proofs : List Hash} {b' : Bank}
    (hs : b.schedule? schedule = some s)
    (h : step rt b (clientCall rt s r proofs schedule vaultSigner recipient feePayment
      unixTimestamp) = .ok b') :
    Pays b b' s r vaultSigner recipient feePayment := by
  obtain ⟨v, s', -, hadm, -, -, htokens, hlamports, -⟩ :=
    redemption_moves hrt (clientCall_claim? proofs) h
  obtain rfl : s = s' := Option.some.inj (hs.symm.trans hadm.schedule)
  have hmint : (clientClaim s r proofs schedule vaultSigner recipient feePayment).paidMint s =
      r.receivingTokenMint := rfl
  have hfrom : (clientClaim s r proofs schedule vaultSigner recipient feePayment).feeFrom s =
      amountAt feePayment (s.fee r.sendingAmount) := by
    funext k
    simp [Claim.feeFrom, clientClaim, recordTicket, Ticket.claim, amountAt, eq_comm]
  rw [hfrom] at htokens
  unfold Claim.tokens at htokens
  unfold Claim.lamports at hlamports
  rw [hmint] at htokens hlamports
  constructor
  · intro hsys
    rw [if_pos hsys] at hlamports
    exact hlamports
  · intro hsys
    rw [if_neg hsys] at htokens
    exact htokens

private theorem clientClaim_canWrite (hrt : rt.Lawful) {proofs : List Hash} {b' : Bank}
    (hs : b.schedule? schedule = some s)
    (h : step rt b (clientCall rt s r proofs schedule vaultSigner recipient feePayment
      unixTimestamp) = .ok b') :
    rt.CanWrite (recordWrites s r schedule vaultSigner recipient feePayment) := by
  obtain ⟨v, s', b₁, hadm, hfee, ⟨b₂, hpay⟩, -⟩ :=
    redemption_moves hrt (clientCall_claim? proofs) h
  obtain rfl : s = s' := Option.some.inj (hs.symm.trans hadm.schedule)
  exact (clientCall_canWrite proofs unixTimestamp).mp (hadm.writes hrt hfee hpay)

/-- The call that the client sends for a record that is due succeeds if and only if no key that it
writes is reserved and the record is in lamports or the account that the schedule names can pay. -/
private theorem Redeemable.step_iff (hrt : rt.Lawful) (hlib : lib.Lawful rt)
    (h : Redeemable rt lib b s tree p r schedule vaultSigner recipient feePayment unixTimestamp)
    {nodes : List MerkleNode} (hnodes : getProof lib tree p = nodes.map some) :
    (∃ b', step rt b (clientCall rt s r (nodes.map MerkleNode.hash) schedule vaultSigner recipient
        feePayment unixTimestamp) = .ok b') ↔
      rt.CanWrite (recordWrites s r schedule vaultSigner recipient feePayment) ∧
      (r.receivingTokenMint = systemProgramId ∨ PaidBySchedule b s r vaultSigner feePayment) := by
  obtain ⟨nodes', hnodes', -, haccepts⟩ := h.proof hlib
  obtain rfl : nodes = nodes' :=
    List.map_injective_iff.mpr (Option.some_injective _) (hnodes.symm.trans hnodes')
  obtain ⟨v, hv, hfind⟩ := h.vault hrt
  have hseeds : rt.createProgramAddress (signerSeeds s.vaultId v) = some vaultSigner :=
    rt.create_of_find hfind
  by_cases hkeys : rt.CanWrite (recordWrites s r schedule vaultSigner recipient feePayment)
  swap
  · refine iff_of_false ?_ (fun hall => hkeys hall.1)
    intro hstep
    obtain ⟨b', hstep⟩ := hstep
    exact hkeys (clientClaim_canWrite hrt h.account hstep)
  have hadm := h.admitted hrt hv hseeds haccepts hkeys
  obtain ⟨balance, hfee, htokens, hlamports⟩ := h.fee_paid hrt hkeys (nodes.map MerkleNode.hash)
  -- all is checked and the fee is paid, so that only the payout is open
  have hpayout : (∃ b', step rt b (clientCall rt s r (nodes.map MerkleNode.hash) schedule
      vaultSigner recipient feePayment unixTimestamp) = .ok b') ↔
      ∃ b₂, (clientClaim s r (nodes.map MerkleNode.hash) schedule vaultSigner recipient
        feePayment).payOut rt
        (clientCall rt s r (nodes.map MerkleNode.hash) schedule vaultSigner recipient feePayment
          unixTimestamp).toTx (b.withBalances balance) v s = .ok b₂ := by
    constructor
    · intro hstep
      obtain ⟨b', hstep⟩ := hstep
      obtain ⟨v', s', b₁, hadm', hfee', hpay, -⟩ :=
        redemption_moves hrt (clientCall_claim? _) hstep
      obtain rfl := Option.some.inj (hadm.vault.symm.trans hadm'.vault)
      obtain rfl := Option.some.inj (hadm.schedule.symm.trans hadm'.schedule)
      obtain rfl := Except.ok.inj (hfee.symm.trans hfee')
      exact hpay
    · intro hpay
      obtain ⟨b₂, hpay⟩ := hpay
      exact redemption_succeeds hrt (clientCall_claim? _) hadm hfee hpay
  rw [hpayout, and_iff_right hkeys]
  by_cases hsys : r.receivingTokenMint = systemProgramId
  · have hfunds := h.funds
    rw [if_pos hsys, ← hlamports] at hfunds
    exact iff_of_true (payOut_lamports hrt hsys hseeds h.wallet hkeys hfunds) (.inl hsys)
  · rw [payOut_tokens_iff hrt hsys hseeds h.wallet hkeys (h.payee hsys), or_iff_right hsys]
    have hleft := htokens s.receivingTokenAccount
    apply exists_congr
    intro t
    apply and_congr_right
    intro ht
    have hamount : b.balance (.tokens s.receivingTokenAccount) = t.amount := by
      simp [Bank.balance, ht]
    rw [hamount] at hleft
    refine and_congr_right fun _ => and_congr_right fun _ => and_congr_right fun _ => ?_
    omega

end

/-- The client's redemption of a record that is due is accepted and pays it if and only if the tree
has at most 30 levels, no key that it writes is reserved, and the record is in lamports or the
account that the schedule names can pay it. -/
theorem multi_token_client {rt : Runtime} (hrt : rt.Lawful) {packages : Packages}
    (hp : packages.Lawful rt) {connection : Connection} (hc : connection.Lawful rt)
    (hroot : (VaultInstructionService.findRootSignerAddress rt packages rt.programId).isSome)
    {b : Bank} {s : Schedule} {tree : packages.lib.MerkleTree} {p : Nat}
    {r : RedemptionMultiParamsV2} {schedule vaultSigner recipient feePayment : Pubkey}
    {unixTimestamp : Int64}
    (h : Redeemable rt packages.lib b s tree p r schedule vaultSigner recipient feePayment
      unixTimestamp) :
    (∃ b', redeemRecord rt packages connection b tree p r s.vaultId schedule recipient feePayment
        unixTimestamp = some b' ∧ Pays b b' s r vaultSigner recipient feePayment) ↔
      (packages.lib.nodes tree).length ≤ 30 ∧
      rt.CanWrite (recordWrites s r schedule vaultSigner recipient feePayment) ∧
      (r.receivingTokenMint = systemProgramId ∨ PaidBySchedule b s r vaultSigner feePayment) := by
  obtain ⟨nodes, hnodes, hlength, -⟩ := h.proof hp.lib
  obtain ⟨root, hroot⟩ := Option.isSome_iff_exists.mp hroot
  obtain ⟨v, hv, hsigner⟩ := h.vault hrt
  rw [← h.step_iff hrt hp.lib hnodes]
  by_cases hfits : nodes.length ≤ 29
  · rw [redeemRecord_eq hp hc hroot h.account hv hsigner hnodes hfits,
      and_iff_right (by omega : (packages.lib.nodes tree).length ≤ 30)]
    apply exists_congr
    intro b'
    rw [toOption_eq_some]
    exact and_iff_left_of_imp (clientClaim_pays hrt h.account)
  · rw [redeemRecord_eq_none hp hnodes (by omega)]
    simp only [reduceCtorEq, false_and, exists_false, false_iff, not_and]
    omega

/-! ## The deployed schedule of several mints -/

namespace Reference

open Coin98Vault.Reference

def multiState : Schedule := multiScheduleArgs.schedule vault 255

def multiProofs (p : Nat) : List Hash :=
  ((MerkleDistributionMultiTokenService.getProof libraries multiTree p).mapM
    (Option.map MerkleNode.hash)).getD []

theorem multi_run : run (step runtime) genesis [openVault, openMultiSchedule] = multiDeployed := by
  rw [run_cons, exec_ok openVault_ok, run_cons, exec_ok openMultiSchedule_ok, run_nil]

theorem multi_created :
    MerkleDistributionMultiTokenService.createTree libraries multiRecords = some multiTree := by
  unfold multiTree
  rw [MerkleDistributionMultiTokenService.createTree, createTree_eq libraries_lawful
    fun a ha => scheduleMultiTokenLayout_puts libraries_lawful (multiRecords_inRange a ha)]
  rfl

private theorem multiRecords_redeemable {p : Nat} {a : ScheduleMultiToken} {recipient : Pubkey}
    (ha : multiRecords[p]? = some a)
    (hpayee : a.params.receivingTokenMint ≠ systemProgramId →
      multiDeployed.Live a.params.receivingTokenMint recipient)
    (hfunds : if a.params.receivingTokenMint = systemProgramId then
        a.params.receivingAmount.toNat ≤ (multiDeployed vaultSigner).lamports
      else ∃ k t, multiDeployed.token? k = some t ∧ t.mint = a.params.receivingTokenMint ∧
        t.owner = vaultSigner ∧ a.params.receivingAmount.toNat ≤ t.amount) :
    Redeemable runtime libraries multiDeployed multiState multiTree p a.params multiSchedule
      vaultSigner recipient userFee 6 := by
  have hmem := List.mem_of_getElem? ha
  have hvault : multiDeployed.vault? vault = some ⟨.vault, 255, owner, systemProgramId, []⟩ := by
    decide +kernel
  have hschedule : multiDeployed.schedule? multiSchedule = some multiState := by decide +kernel
  have haddress : ∀ a ∈ multiRecords, a.params.address = user := by decide +kernel
  have huser : (multiDeployed user).content = .wallet := by decide +kernel
  exact {
    reached := ⟨genesis, [openVault, openMultiSchedule], _, genesis_unused,
      by rw [multi_run, hschedule], by rw [multi_run]; exact hvault, hvault⟩
    account := hschedule
    type := rfl
    timestamp := by decide
    record := ⟨multiRecords, a, multiRecords_inRange, multi_created, ha, rfl⟩
    root := rfl
    active := rfl
    unlocked := (by decide +kernel : ∀ a ∈ multiRecords, a.params.timestamp ≤ 6) a hmem
    bit := (by decide +kernel : ∀ a ∈ multiRecords,
      multiState.redemptions[a.params.index.toNat]? = some false) a hmem
    signer := ⟨255, by decide +kernel⟩
    wallet := by decide +kernel
    user := by rw [haddress a hmem, huser]; exact Content.noConfusion
    payee := hpayee
    funds := hfunds
    fee := fun _ => ⟨feeMint, by
        rw [haddress a hmem]
        exact ⟨⟨feeMint, user, 9, none, .initialized, none, 0, none⟩, by decide +kernel, rfl, rfl,
          rfl, by decide⟩,
      ⟨⟨feeMint, owner, 0, none, .initialized, none, 0, none⟩, by decide +kernel, rfl, rfl⟩,
      (by decide +kernel : ∀ a ∈ multiRecords, multiState.fee a.params.sendingAmount ≤
        multiDeployed.balance (.tokens userFee)) a hmem⟩ }

end Reference

open Coin98Vault.Reference Reference in
theorem multi_token_client_deployed :
    ∃ b', redeemRecord runtime packages connection multiDeployed multiTree 0
        ⟨0, 0, user, mint, 3, 1⟩ vault multiSchedule userToken userFee 6 = some b' ∧
      Pays multiDeployed b' multiState ⟨0, 0, user, mint, 3, 1⟩ vaultSigner userToken userFee := by
  have hvaultToken : multiDeployed.token? vaultToken =
      some ⟨mint, vaultSigner, 50, none, .initialized, none, 0, none⟩ := by decide +kernel
  have huserToken : multiDeployed.Live mint userToken :=
    ⟨⟨mint, user, 5, none, .initialized, none, 0, none⟩, by decide +kernel, rfl, rfl⟩
  have hsys : mint ≠ systemProgramId := by decide
  have hdue := multiRecords_redeemable (p := 0) rfl (fun _ => huserToken) (by
    refine (if_neg hsys).mpr ⟨vaultToken, _, hvaultToken, rfl, rfl, by decide⟩)
  have hiff := multi_token_client runtime_lawful packages_lawful connection_lawful
    (by decide +kernel) hdue
  exact hiff.mpr ⟨by decide +kernel, by decide +kernel, .inr ⟨_, hvaultToken, rfl, rfl,
    .inr ⟨by decide, rfl⟩, by decide +kernel⟩⟩

open Coin98Vault.Reference Reference in
/-- The vault holds enough of the second record's mint, but the client passes its account of the
first one. -/
theorem multi_token_client_fails :
    Redeemable runtime libraries multiDeployed multiState multiTree 1 ⟨1, 0, user, feeMint, 2, 0⟩
        multiSchedule vaultSigner userFee userFee 6 ∧
      redeemRecord runtime packages connection multiDeployed multiTree 1
        ⟨1, 0, user, feeMint, 2, 0⟩ vault multiSchedule userFee userFee 6 = none ∧
      ∃ ix c, VaultService.redeemTokenMulti runtime packages connection multiDeployed user vault
          multiSchedule 1 0 (multiProofs 1) feeMint 2 0 userFee userFee runtime.programId =
            some ix ∧
        ix.call runtime user 6 = some c ∧
        step runtime multiDeployed c = .error (.program .invalidAccount) := by
  have hotherToken : multiDeployed.token? otherVaultToken =
      some ⟨feeMint, vaultSigner, 40, none, .initialized, none, 0, none⟩ := by decide +kernel
  have huserFee : multiDeployed.Live feeMint userFee :=
    ⟨⟨feeMint, user, 9, none, .initialized, none, 0, none⟩, by decide +kernel, rfl, rfl⟩
  have hsys : feeMint ≠ systemProgramId := by decide
  refine ⟨multiRecords_redeemable (p := 1) rfl (fun _ => huserFee) ?_, ?_, ?_⟩
  · exact (if_neg hsys).mpr ⟨otherVaultToken, _, hotherToken, rfl, rfl, by decide⟩
  · rw [← Option.isNone_iff_eq_none]
    decide +kernel
  · have hfails : ((VaultService.redeemTokenMulti runtime packages connection multiDeployed user
        vault multiSchedule 1 0 (multiProofs 1) feeMint 2 0 userFee userFee
        runtime.programId).bind fun ix => ix.call runtime user 6).map (fun c =>
          match step runtime multiDeployed c with
          | .ok _ => none
          | .error e => some e) = some (some (.program .invalidAccount)) := by decide +kernel
    obtain ⟨c, hcall, he⟩ := Option.map_eq_some_iff.mp hfails
    obtain ⟨ix, hix, hcall⟩ := Option.bind_eq_some_iff.mp hcall
    refine ⟨ix, c, hix, hcall, ?_⟩
    cases hstep : step runtime multiDeployed c with
    | ok b' => simp [hstep] at he
    | error e => simpa [hstep] using he

end Coin98Vault.Client

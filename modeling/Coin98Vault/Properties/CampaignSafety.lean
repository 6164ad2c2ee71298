import Coin98Vault.Properties.Campaign
import Coin98Vault.Properties.Solvency

/-!
# The records that the root of a campaign proves

The root of a service's tree proves the listed records only, each with the proof that the service
gives, unless a climb passes through the padding of the library.
-/

namespace Coin98Vault

open Trace Ledger Coin98Vault.Distribution

/-- Every digest that is met in the check of a record. -/
def proofNodes (rt : Runtime) (r : Record) (proofs : List Hash) : List Hash :=
  Merkle.climbNodes (redemptionScheme rt) proofs (rt.keccak r.tryToVec)

/-- The digests that are met for the redemptions that a run attempts on a schedule. -/
def attemptNodes (rt : Runtime) (schedule : Pubkey) (timestamp : Int64) (calls : List Call) :
    List Hash :=
  (calls.filterMap fun c => c.instruction.claim?).flatMap fun cl =>
    if cl.accounts.schedule = schedule then proofNodes rt (cl.record timestamp) cl.args.proofs
    else []

private theorem proofNodes_subset_attemptNodes {rt : Runtime} {calls : List Call} {c : Call}
    {cl : Claim} (hc : c ∈ calls) (hcl : c.instruction.claim? = some cl) (timestamp : Int64) :
    ∀ n ∈ proofNodes rt (cl.record timestamp) cl.args.proofs,
      n ∈ attemptNodes rt cl.accounts.schedule timestamp calls := by
  intro n hn
  rw [attemptNodes, List.mem_flatMap]
  exact ⟨cl, List.mem_filterMap.mpr ⟨c, hc, hcl⟩, by rwa [if_pos rfl]⟩

namespace MerkleDistributor

section
variable (lib : Libraries)

def digests (tree : lib.MerkleTree) : List (List Hash) :=
  (lib.nodes tree).map (List.map MerkleNode.hash)

/-- The nodes of a tree of so many records that stand for no record and for no pair. -/
def padding (tree : lib.MerkleTree) (count : Nat) : List Hash :=
  ((digests lib tree).headD []).drop count ++ Merkle.paddingAbove (digests lib tree)

/-- Every byte string hashed to make a tree of the records. -/
def treeInputs (rt : Runtime) (tree : lib.MerkleTree) (records : List Record) : List Bytes :=
  records.map Record.tryToVec ++ Merkle.levelInputs (redemptionScheme rt) (digests lib tree)

end

variable {lib : Libraries} {rt : Runtime}

/-- The root of a tree proves its records only, and with no proof but its own. -/
private theorem getProof_of_verifyProof (hlib : lib.Lawful rt) {records : List Record}
    (hne : records ≠ []) {r : Record} {proofs : List Hash} :
    let tree := lib.newMerkleTree (records.map fun r => rt.keccak r.tryToVec)
    CollisionFree rt.keccak (treeInputs lib rt tree records ++ proofInputs rt r proofs) →
    (∀ n ∈ proofNodes rt r proofs, n ∉ padding lib tree records.length) →
    Shared.verifyProof rt proofs (lib.root tree).hash (rt.keccak r.tryToVec) = true →
    ∃ p, records[p]? = some r ∧
      (getProof lib tree p).mapM (Option.map MerkleNode.hash) = some proofs := by
  intro tree hkeccak hpadding hproved
  have hhashes : (records.map fun r => rt.keccak r.tryToVec) ≠ [] := by simp [hne]
  obtain ⟨pad, levels, hdigests, hlevels⟩ := hlib.levels _ hhashes
  have hdigests' : digests lib tree = _ := hdigests
  rw [treeInputs, hdigests'] at hkeccak
  rw [padding, hdigests', List.headD_cons, List.drop_left' (List.length_map _)] at hpadding
  obtain ⟨p, hr, hsiblings⟩ := hlevels.exists_index_of_climb (redemptionScheme_separated rt)
    (fun x hx y hy => hkeccak x (List.mem_append.mpr hx) y (List.mem_append.mpr hy)) hpadding
    (Shared.verifyProof_eq_true.mp hproved)
  have hloop := getProofLoop_eq p (lib.nodes tree)
  rw [hdigests] at hloop
  obtain ⟨nodes, hnodes, rfl⟩ := exists_of_map_eq_some (hloop.trans hsiblings)
  refine ⟨p, hr, ?_⟩
  rw [getProof, hnodes, Client.mapM_hash]

end MerkleDistributor

namespace Client

/-- The service of the campaign gives these proofs for a position. -/
def Campaign.Gives (lib : Libraries) (tree : lib.MerkleTree) (p : Nat) (proofs : List Hash)
    (d : Campaign) : Prop :=
  (match d with
    | .oldVersion _ => OldMerkleDistributionService.getProof lib tree p
    | .single _ => MerkleDistributionService.getProof lib tree p
    | .multiToken _ => MerkleDistributionMultiTokenService.getProof lib tree p).mapM
      (Option.map MerkleNode.hash) = some proofs

section
variable {lib : Libraries} {rt : Runtime} {d : Campaign}

private theorem Campaign.gives_iff {tree : lib.MerkleTree} {p : Nat} {proofs : List Hash} :
    d.Gives lib tree p proofs ↔
      (MerkleDistributor.getProof lib tree p).mapM (Option.map MerkleNode.hash) = some proofs := by
  cases d <;> exact Iff.rfl

private theorem Campaign.gives_of_verifyProof (hlib : lib.Lawful rt) (hne : d.records ≠ [])
    (hrange : d.InRange) {tree : lib.MerkleTree} (htree : d.createTree lib = some tree) {r : Record}
    {proofs : List Hash}
    (hkeccak : CollisionFree rt.keccak
      (MerkleDistributor.treeInputs lib rt tree d.records ++ proofInputs rt r proofs))
    (hpadding : ∀ n ∈ proofNodes rt r proofs,
      n ∉ MerkleDistributor.padding lib tree d.records.length)
    (hproved : Shared.verifyProof rt proofs (lib.root tree).hash (rt.keccak r.tryToVec) = true) :
    ∃ p, d.records[p]? = some r ∧ d.Gives lib tree p proofs := by
  obtain rfl := Option.some.inj ((Campaign.createTree_eq hlib hrange).symm.trans htree)
  obtain ⟨p, hr, hgives⟩ :=
    MerkleDistributor.getProof_of_verifyProof hlib hne hkeccak hpadding hproved
  exact ⟨p, hr, Campaign.gives_iff.mpr hgives⟩

/-- What the claims of a run on a schedule are checked against: no two strings that are hashed
collide, and no claim climbs through padding. -/
structure Campaign.Unmistaken (d : Campaign) (lib : Libraries) (rt : Runtime)
    (tree : lib.MerkleTree) (schedule : Pubkey) (timestamp : Int64) (calls : List Call) : Prop where
  keccak : CollisionFree rt.keccak (MerkleDistributor.treeInputs lib rt tree d.records ++
    attemptInputs rt schedule timestamp calls)
  padding : ∀ n ∈ attemptNodes rt schedule timestamp calls,
    n ∉ MerkleDistributor.padding lib tree d.records.length

private theorem Campaign.Unmistaken.gives {tree : lib.MerkleTree} {schedule : Pubkey}
    {timestamp : Int64} {calls : List Call} (h : d.Unmistaken lib rt tree schedule timestamp calls)
    (hlib : lib.Lawful rt) (hne : d.records ≠ []) (hrange : d.InRange)
    (htree : d.createTree lib = some tree) {c : Call} (hc : c ∈ calls) {cl : Claim}
    (hcl : c.instruction.claim? = some cl) (htarget : cl.accounts.schedule = schedule)
    (hproved : Shared.verifyProof rt cl.args.proofs (lib.root tree).hash
      (rt.keccak (cl.record timestamp).tryToVec) = true) :
    ∃ p, d.records[p]? = some (cl.record timestamp) ∧ d.Gives lib tree p cl.args.proofs := by
  subst htarget
  apply Campaign.gives_of_verifyProof hlib hne hrange htree ?_ ?_ hproved
  · apply h.keccak.mono
    intro y hy
    rw [List.mem_append] at hy ⊢
    exact hy.imp_right (proofInputs_subset_attemptInputs hc hcl timestamp y)
  · intro n hn
    exact h.padding n (proofNodes_subset_attemptNodes hc hcl timestamp n hn)

private theorem Campaign.Unmistaken.provesOnly {tree : lib.MerkleTree} {schedule : Pubkey}
    {a : CreateScheduleArgs} {calls : List Call}
    (h : d.Unmistaken lib rt tree schedule a.timestamp calls) (hlib : lib.Lawful rt)
    (hne : d.records ≠ []) (hrange : d.InRange) (htree : d.createTree lib = some tree)
    (hroot : a.merkleRoot = (lib.root tree).hash) :
    a.ProvesOnly rt schedule calls d.records := by
  intro c hc cl hcl htarget hproved
  rw [hroot] at hproved
  obtain ⟨p, hr, -⟩ := h.gives hlib hne hrange htree hc hcl htarget hproved
  exact List.mem_of_getElem? hr

end

/-- The program accepts for a record just the proofs that the service gives for the positions of the
record: none for a record that was not listed. -/
theorem campaign_accepts_iff {rt : Runtime} {lib : Libraries} (hlib : lib.Lawful rt) {d : Campaign}
    (hne : d.records ≠ []) (hrange : d.InRange) {tree : lib.MerkleTree}
    (htree : d.createTree lib = some tree) (r : Record) (proofs : List Hash)
    (hkeccak : CollisionFree rt.keccak
      (MerkleDistributor.treeInputs lib rt tree d.records ++ proofInputs rt r proofs))
    (hpadding : ∀ n ∈ proofNodes rt r proofs,
      n ∉ MerkleDistributor.padding lib tree d.records.length) :
    Shared.verifyProof rt proofs (lib.root tree).hash (rt.keccak r.tryToVec) = true ↔
      ∃ p, d.records[p]? = some r ∧ d.Gives lib tree p proofs := by
  constructor
  · exact Campaign.gives_of_verifyProof hlib hne hrange htree hkeccak hpadding
  · intro h
    obtain ⟨p, hr, hgives⟩ := h
    obtain rfl := Option.some.inj ((Campaign.createTree_eq hlib hrange).symm.trans htree)
    obtain ⟨nodes, hnodes, -, haccepts⟩ :=
      @MerkleDistributor.getProof_climbs Record lib rt id hlib d.records p r hr
    rw [Campaign.gives_iff] at hgives
    have hproofs := (congrArg (List.mapM (Option.map MerkleNode.hash)) hnodes).trans (mapM_hash nodes)
    obtain rfl := Option.some.inj (hproofs.symm.trans hgives)
    exact haccepts

open Coin98Vault.Reference Reference in
theorem campaign_accepts_iff_reference :
    let d := Campaign.multiToken multiRecords
    ∃ r p, d.records[p]? = some r ∧ d.Gives libraries multiTree p (multiProofs 1) ∧
      ¬ ∃ p, d.records[p]? = some r ∧ d.Gives libraries multiTree p (multiProofs 0) := by
  intro d
  have hne : d.records ≠ [] := by decide
  have hrecord : d.records[1]? = some (.multiV2 ⟨1, 0, user, feeMint, 2, 0⟩) := by decide +kernel
  obtain ⟨p, hr, hgives⟩ := (campaign_accepts_iff libraries_lawful hne multiRecords_inRange
    multi_runs.created (.multiV2 ⟨1, 0, user, feeMint, 2, 0⟩) (multiProofs 1) (by decide +kernel)
    (by decide +kernel)).mp (by decide +kernel)
  refine ⟨_, p, hr, hgives, ?_⟩
  intro h
  have hproved := (campaign_accepts_iff libraries_lawful hne multiRecords_inRange
    multi_runs.created (.multiV2 ⟨1, 0, user, feeMint, 2, 0⟩) (multiProofs 0) (by decide +kernel)
    (by decide +kernel)).mpr h
  exact absurd hproved (by decide +kernel)

/-- What a schedule with the root of a campaign does over any run is what a distribution of the
records of the campaign does, whatever its claimants try.  Each record that it pays was listed, and
is proved as the service proves it. -/
theorem campaign_distributes {rt : Runtime} (hrt : rt.Lawful) {lib : Libraries}
    (hlib : lib.Lawful rt) {d : Campaign} (hne : d.records ≠ []) (hrange : d.InRange)
    {tree : lib.MerkleTree} (htree : d.createTree lib = some tree) {b₀ b : Bank} {create : Call}
    {x : CreateScheduleContext} {a : CreateScheduleArgs}
    (hcall : create.instruction = .createSchedule x a) (hcreate : step rt b₀ create = .ok b)
    (hroot : a.merkleRoot = (lib.root tree).hash) (calls : List Call)
    (hunmistaken : d.Unmistaken lib rt tree x.schedule a.timestamp calls) :
    (∃ s distribution, (run (step rt) b calls).schedule? x.schedule = some s ∧
      replay Record.index (start (a.promisedOf d.records))
        (log (step rt) (Call.events x.schedule) b calls) = some distribution ∧
      s.Represents d.records distribution ∧
      ∀ worth : Record → Nat,
        let paid := ((paidRecords rt x.schedule b calls).map worth).sum
        let owed := (((d.records : Multiset Record).filter s.Outstanding).map worth).sum
        let promised := ((a.promisedOf d.records).map worth).sum
        paid + owed ≤ promised ∧
          (((a.promisedOf d.records).map Record.index).Nodup → paid + owed = promised)) ∧
    ∀ before c after cl, calls = before ++ c :: after → c.instruction.claim? = some cl →
      cl.accounts.schedule = x.schedule → Succeeds (step rt) (run (step rt) b before) c →
      ∃ p r, d.records[p]? = some r ∧ d.Gives lib tree p cl.args.proofs ∧
        Honours rt (run (step rt) b before) c cl a r := by
  constructor
  · obtain ⟨distribution, hd, -, s, hs, -, hrep⟩ := represents_run hrt hcall hcreate
      (hunmistaken.provesOnly hlib hne hrange htree hroot)
    refine ⟨s, distribution, hs, hd, hrep, ?_⟩
    intro worth
    have hsound := sound_replay hd
    rw [← paidRecords_sum hd, ← hrep.outstanding]
    exact ⟨hsound.worth_le worth, fun hdistinct => hsound.worth_eq hdistinct worth⟩
  · intro before c after cl hcalls hcl htarget hok
    have hc : c ∈ calls := by simp [hcalls]
    obtain ⟨v₀, bump, -, -, hs₀⟩ := createSchedule_schedule? hrt hcall hcreate
    obtain ⟨s, hs, hext⟩ := extends_run hrt hs₀ before
    have ht : s.timestamp = a.timestamp := by
      rw [hext.fixed]
      rfl
    have hmerkle : s.merkleRoot = (lib.root tree).hash.bytes := by
      rw [hext.fixed, ← hroot]
      rfl
    rw [← htarget] at hs
    obtain ⟨v, hadm⟩ := admitted_of_step hrt hcl hs hok.step_eq
    have hproved := hadm.proves.verified hmerkle
    rw [ht] at hproved
    obtain ⟨p, hr, hgives⟩ := hunmistaken.gives hlib hne hrange htree hc hcl htarget hproved
    exact ⟨p, _, hr, hgives, hadm.honours ht⟩

open Coin98Vault.Reference Reference in
theorem campaign_distributes_deployed :
    let d := Campaign.multiToken multiRecords
    let amount := fun r : Record => r.receivingAmount.toNat
    let calls : List Call := [tokenTicket, tokenTicket, lamportTicket].map fun t =>
      ⟨t.tx multiState multiSchedule vaultSigner 6,
        (t.claim multiState multiSchedule vaultSigner).instruction⟩
    ∃ s, (run (step runtime) multiDeployed calls).schedule? multiSchedule = some s ∧
      ((paidRecords runtime multiSchedule multiDeployed calls).map amount).sum +
        (((d.records : Multiset Record).filter s.Outstanding).map amount).sum = 9 := by
  intro d amount calls
  have hne : d.records ≠ [] := by decide
  obtain ⟨s, distribution, hs, -, -, hworth⟩ := (campaign_distributes runtime_lawful
    libraries_lawful hne multiRecords_inRange multi_runs.created
    (show openMultiSchedule.instruction = _ from rfl) openMultiSchedule_ok rfl calls
    ⟨by decide +kernel, by decide +kernel⟩).1
  refine ⟨s, hs, ?_⟩
  exact (hworth amount).2 (by decide +kernel)

private theorem Campaign.Runs.seeds_before {rt : Runtime} (hrt : rt.Lawful) {lib : Libraries}
    {d : Campaign} {b : Bank} {calls : List Call} {s : Schedule} {tree : lib.MerkleTree}
    {schedule vaultSigner : Pubkey}
    (hruns : d.Runs rt lib (run (step rt) b calls) s tree schedule vaultSigner)
    (hb : (run (step rt) b calls).WellFormed rt) {v : Vault} (hv : b.vault? s.vaultId = some v) :
    rt.createProgramAddress (signerSeeds s.vaultId v) = some vaultSigner := by
  obtain ⟨u, hu, hsigner⟩ := hruns.vault hb
  obtain ⟨v', hv', -, hnonce⟩ := vault_run hrt hv calls
  obtain rfl := Option.some.inj (hv'.symm.trans hu)
  rw [hnonce] at hsigner
  exact rt.create_of_find hsigner

/-- Where the vault has been funded with all that the schedule promised and all that others take,
the program accepts the redemption of a payable ticket that its holder sends with the client,
whatever has gone on before, if and only if the schedule is active, the time has come, nobody has
redeemed the index yet, the fee can be paid and no key that is written is reserved. -/
theorem funded_campaign {rt : Runtime} (hrt : rt.Lawful) {packages : Packages}
    (hp : packages.Lawful rt) {connection : Connection} (hc : connection.Lawful rt)
    (hfound : (VaultInstructionService.findRootSignerAddress rt packages rt.programId).isSome)
    {b₀ b : Bank} (hempty : ∀ k d, (b₀ k).content ≠ .program d) (earlier : List Call)
    {create : Call} {x : CreateScheduleContext} {a : CreateScheduleArgs}
    (hcall : create.instruction = .createSchedule x a)
    (hcreate : step rt (run (step rt) b₀ earlier) create = .ok b) {calls : List Call}
    {d : Campaign} {s : Schedule} {tree : packages.lib.MerkleTree} {vaultSigner : Pubkey}
    (hruns : d.Runs rt packages.lib (run (step rt) b calls) s tree x.schedule vaultSigner)
    (hunmistaken : d.Unmistaken packages.lib rt tree x.schedule a.timestamp calls)
    (hsigned : ∀ c ∈ calls, vaultSigner ∉ c.signers)
    (hsha : CollisionFree rt.sha256 (signerStrings rt x.vault b calls))
    {t : Ticket} (hissues : d.Issues packages.lib tree t)
    (hpayable : t.Payable s vaultSigner (run (step rt) b calls)) (hholder : t.user ≠ vaultSigner)
    (hasset : b.Holds vaultSigner ((t.claim s x.schedule vaultSigner).payMove s).source)
    (hfunded : ((a.promisedOf d.records).map fun r =>
        a.draw b.currency r ((t.claim s x.schedule vaultSigner).payMove s).source).sum +
      debits (otherPayouts rt x.vault x.schedule b calls)
        ((t.claim s x.schedule vaultSigner).payMove s).source ≤
      b.balance ((t.claim s x.schedule vaultSigner).payMove s).source) (unixTimestamp : Int64) :
    (∃ b', t.redeem rt packages connection (run (step rt) b calls) s.vaultId x.schedule
        unixTimestamp = some b') ↔
      s.isActive = true ∧ t.unlockTime s ≤ unixTimestamp ∧
        t.args.index.toNat < a.userCount.toNat ∧
        ¬ Occurs (step rt) (fun _ c => Redeems x.schedule t.args.index.toNat c) b calls ∧
        Covers (run (step rt) b calls).balance
          ((t.claim s x.schedule vaultSigner).feeMoves s) ∧
        rt.CanWrite ((t.claim s x.schedule vaultSigner).writes s) := by
  have hb : (run (step rt) b calls).WellFormed rt := by
    apply wellFormed_run hrt
    exact wellFormed_step hrt (wellFormed_run hrt (wellFormed_of_unused hempty) earlier) hcreate
  obtain ⟨v₀, bump, hv₀, -, hs₀⟩ := createSchedule_schedule? hrt hcall hcreate
  obtain ⟨s', hs', hext⟩ := extends_run hrt hs₀ calls
  obtain rfl := Option.some.inj (hruns.account.symm.trans hs')
  have hvaultId : s.vaultId = x.vault := by
    rw [hext.fixed]
    rfl
  have hroot : a.merkleRoot = (packages.lib.root tree).hash := by
    apply Bytes32.bytes_injective
    rw [← hruns.root, hext.fixed]
    rfl
  obtain ⟨v, hv, -⟩ := vault_step hrt hcreate hv₀
  have hseeds : rt.createProgramAddress (signerSeeds x.vault v) = some vaultSigner := by
    rw [← hvaultId] at hv ⊢
    exact hruns.seeds_before hrt hb hv
  obtain ⟨u, hu, hsigner⟩ := hruns.vault hb
  -- the bits of the schedule are the history of the run
  have hlength : s.redemptions.length = a.userCount.toNat :=
    (schedule_of_createSchedule hrt hcall hcreate hruns.account).1
  have hopen := (recorded_created hrt hs₀ hruns.account).open_iff t.args.index.toNat
  rw [hlength] at hopen
  have hnone : Paid (run (step rt) b calls) s x.schedule vaultSigner [] (run (step rt) b calls) :=
    paid_nil hruns.account
  rw [← and_assoc (a := t.args.index.toNat < _), ← hopen]
  constructor
  · intro h
    obtain ⟨b', hsent⟩ := h
    obtain ⟨hactive, hunlocked, hbit, hkeys⟩ :=
      hnone.of_redeem hrt hp hc hfound hb hruns hissues hsent
    have hmoves := hruns.funded_of_redeem hrt hp hc hfound hb hissues hsent
    exact ⟨hactive, hunlocked, hbit, (funded_append.mp hmoves).1.covers (Claim.feeMoves_length _),
      hkeys⟩
  · intro h
    obtain ⟨hactive, hunlocked, hbit, hfee, hkeys⟩ := h
    have hissued := hruns.issued hp.lib hissues
    have hne : d.records ≠ [] :=
      List.ne_nil_of_mem (hissues.record hp.lib hruns.inRange hruns.suits x.schedule vaultSigner)
    have hfits : (t.claim s x.schedule vaultSigner).Fits rt
        (t.call s x.schedule vaultSigner rt unixTimestamp).toTx (run (step rt) b calls) u s :=
      hpayable.fits hu (rt.create_of_find hsigner) hruns.wallet hissued.type hkeys
    have hclaimant :
        vaultSigner ∉ (t.call s x.schedule vaultSigner rt unixTimestamp).toTx.signers := by
      simp [Ticket.call, Ticket.tx, hholder.symm]
    have hcovers := funded_covers hrt hcall hcreate hv hseeds hsigned
      (hunmistaken.provesOnly hp.lib hne hruns.inRange hruns.created hroot) hsha hruns.account hfits
      (hissues.record hp.lib hruns.inRange hruns.suits x.schedule vaultSigner) hbit hclaimant hfee
      hasset hfunded
    obtain ⟨b', hsent, -⟩ := Paid.redeem hrt hp hc hfound hb hruns hissues hpayable hkeys hactive
      hunlocked hbit (List.forall_mem_nil _) hcovers.funded hnone
    exact ⟨b', hsent⟩

open Coin98Vault.Reference Reference in
theorem funded_campaign_deployed :
    ∃ b', tokenTicket.redeem runtime packages connection (run (step runtime) multiDeployed [])
      vault multiSchedule 6 = some b' := by
  have hopened : run (step runtime) genesis [openVault] = opened := by
    rw [run_cons, exec_ok openVault_ok, run_nil]
  have hcreate : step runtime (run (step runtime) genesis [openVault]) openMultiSchedule =
      .ok multiDeployed := by
    rw [hopened]
    exact openMultiSchedule_ok
  have hruns : (Campaign.multiToken multiRecords).Runs runtime libraries
      (run (step runtime) multiDeployed []) multiState multiTree multiSchedule vaultSigner := by
    have hruns := multi_runs
    rw [multi_run] at hruns
    exact hruns
  have hmem : tokenTicket ∈ [tokenTicket, lamportTicket] := List.mem_cons_self
  have hunmistaken : (Campaign.multiToken multiRecords).Unmistaken libraries runtime multiTree
      multiSchedule multiScheduleArgs.timestamp [] := ⟨by decide +kernel, by decide +kernel⟩
  have hsigned : ∀ c ∈ ([] : List Call), vaultSigner ∉ c.signers := by simp
  have hsource : ((tokenTicket.claim multiState multiSchedule vaultSigner).payMove
      multiState).source = .tokens vaultToken := by decide +kernel
  have hasset : multiDeployed.Holds vaultSigner (.tokens vaultToken) :=
    ⟨⟨mint, vaultSigner, 50, none, .initialized, none, 0, none⟩, by decide +kernel, rfl, .inl rfl⟩
  have hissued : ¬ Occurs (step runtime) (fun _ c => Redeems multiSchedule 0 c) multiDeployed [] :=
    not_occurs_nil _ _
  refine (funded_campaign runtime_lawful packages_lawful connection_lawful (by decide +kernel)
    genesis_unused [openVault] (show openMultiSchedule.instruction = _ from rfl) hcreate hruns
    hunmistaken hsigned (by decide +kernel) (multi_issues _ hmem) (tickets_payable _ hmem)
    (by decide +kernel) (by rw [hsource]; exact hasset) ?_ 6).mpr
    ⟨rfl, by decide, by decide, hissued, by decide +kernel, by decide +kernel⟩
  rw [hsource]
  decide +kernel

end Client

end Coin98Vault

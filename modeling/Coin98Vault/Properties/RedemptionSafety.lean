import Coin98Vault.Program.Lifecycle
import Coin98Vault.Program.MerkleProof
import Coin98Vault.Program.Reference

/-!
# No record is paid twice, early or to another

The history of a schedule from its creation: its bits record the redemptions of the run, and
every redemption is one of the records of its tree.
-/

namespace Coin98Vault

open Trace

/-- The call is a redemption of the index from the schedule. -/
def Redeems (schedule : Pubkey) (index : Nat) (c : Call) : Prop :=
  ∃ cl, c.instruction.claim? = some cl ∧ cl.accounts.schedule = schedule ∧
    cl.args.index.toNat = index

private theorem Schedule.redeem_getElem? (s : Schedule) (index : UInt16) (n : Nat) :
    (s.redeem index).redemptions[n]? = some true ↔
      s.redemptions[n]? = some true ∨ (index.toNat = n ∧ n < s.redemptions.length) := by
  simp only [Schedule.redeem, List.getElem?_set]
  by_cases h : index.toNat = n
  · subst h
    by_cases hlt : index.toNat < s.redemptions.length
    · simp [hlt]
    · simp [hlt]
  · simp [h]

/-- What a run keeps of a schedule: the fields that redemptions rest on, and the history. -/
structure Recorded (rt : Runtime) (b : Bank) (schedule : Pubkey) (s₀ : Schedule)
    (calls : List Call) (s : Schedule) : Prop where
  timestamp : s.timestamp = s₀.timestamp
  merkleRoot : s.merkleRoot = s₀.merkleRoot
  bits : ∀ n, s.redemptions[n]? = some true ↔
    Occurs (step rt) (fun _ c => Redeems schedule n c) b calls

section
variable {rt : Runtime} {b : Bank} {schedule : Pubkey} {s₀ : Schedule}

theorem Recorded.concat {calls : List Call} {c : Call} {b' : Bank} {s s' : Schedule}
    (h : Recorded rt b schedule s₀ calls s) (hok : step rt (run (step rt) b calls) c = .ok b')
    (hstep : ScheduleStep rt (run (step rt) b calls) c schedule s s') :
    Recorded rt b schedule s₀ (calls ++ [c]) s' := by
  have hs : Succeeds (step rt) (run (step rt) b calls) c := ⟨b', hok⟩
  cases hstep with
  | @redeem cl v call target admitted =>
    refine ⟨h.timestamp, h.merkleRoot, fun n => ?_⟩
    obtain ⟨-, -, hbit⟩ := admitted.proves
    have hlt : cl.args.index.toNat < s.redemptions.length :=
      (List.getElem?_eq_some_iff.mp hbit).1
    rw [Schedule.redeem_getElem?, h.bits, occurs_concat]
    refine or_congr Iff.rfl ⟨?_, ?_⟩
    · rintro ⟨rfl, -⟩
      exact ⟨hs, cl, call, target, rfl⟩
    · rintro ⟨-, cl', hcl', -, rfl⟩
      obtain rfl := Option.some.inj (call.symm.trans hcl')
      exact ⟨rfl, hlt⟩
  | setStatus call =>
    refine ⟨h.timestamp, h.merkleRoot, fun n => ?_⟩
    rw [occurs_concat_of_not, h.bits]
    rintro ⟨-, cl, hcl, -⟩
    rw [call] at hcl
    cases hcl
  | untouched claim =>
    refine ⟨h.timestamp, h.merkleRoot, fun n => ?_⟩
    rw [occurs_concat_of_not, h.bits]
    rintro ⟨-, cl, hcl, htarget, -⟩
    exact claim cl hcl htarget

/-- The history of a schedule that starts without redemptions. -/
private theorem recorded_run (hrt : rt.Lawful) (hs₀ : b.schedule? schedule = some s₀)
    (hfresh : ∀ n : Nat, s₀.redemptions[n]? ≠ some true) (calls : List Call) :
    ∃ s, (run (step rt) b calls).schedule? schedule = some s ∧
      Recorded rt b schedule s₀ calls s := by
  refine run_induction (P := fun calls b' => ∃ s, b'.schedule? schedule = some s ∧
    Recorded rt b schedule s₀ calls s) b calls ?_ ?_ ?_
  · refine ⟨s₀, hs₀, rfl, rfl, fun n => ?_⟩
    simp [hfresh n]
  · rintro before c _ b' - ⟨s, hs, hrec⟩ hok
    obtain ⟨s', hs', hstep⟩ := schedule_step hrt hok hs
    exact ⟨s', hs', hrec.concat hok hstep⟩
  · rintro before c e ⟨s, hs, hrec⟩ herr
    refine ⟨s, hs, hrec.timestamp, hrec.merkleRoot, fun n => ?_⟩
    rw [occurs_concat_of_not, hrec.bits]
    exact fun h => not_succeeds_of_error herr h.1

private theorem CreateScheduleArgs.schedule_fresh (a : CreateScheduleArgs) (vault : Pubkey)
    (bump : UInt8) (n : Nat) :
    (a.schedule vault bump).redemptions[n]? ≠ some true := by
  simp [CreateScheduleArgs.schedule, List.getElem?_replicate]

/-- The history of a schedule since its creation. -/
theorem recorded_created (hrt : rt.Lawful) {a : CreateScheduleArgs} {vault : Pubkey} {bump : UInt8}
    (hs₀ : b.schedule? schedule = some (a.schedule vault bump)) {calls : List Call} {s : Schedule}
    (hs : (run (step rt) b calls).schedule? schedule = some s) :
    Recorded rt b schedule (a.schedule vault bump) calls s := by
  obtain ⟨s', hs', hrecorded⟩ := recorded_run hrt hs₀ (a.schedule_fresh vault bump) calls
  obtain rfl := Option.some.inj (hs.symm.trans hs')
  exact hrecorded

/-- An index is open if it has a bit and no redemption of the run has set it. -/
theorem Recorded.open_iff {calls : List Call} {s : Schedule}
    (h : Recorded rt b schedule s₀ calls s) (n : Nat) :
    s.redemptions[n]? = some false ↔ n < s.redemptions.length ∧
      ¬ Occurs (step rt) (fun _ c => Redeems schedule n c) b calls := by
  rw [← h.bits]
  by_cases hlt : n < s.redemptions.length
  · simp [hlt]
  · simp [hlt]

/-- What a successful redemption says of the record that was redeemed. -/
structure Honours (rt : Runtime) (b : Bank) (c : Call) (cl : Claim) (a : CreateScheduleArgs)
    (r : Record) : Prop where
  index : r.index = cl.args.index
  user : r.address = cl.accounts.user
  signed : cl.accounts.user ∈ c.signers
  receivingAmount : r.receivingAmount = cl.args.receivingAmount
  sendingAmount : r.sendingAmount = cl.args.sendingAmount
  mint : r.mint? = cl.mint
  /-- In the first regime the schedule unlocks, in the second the record itself. -/
  unlocked : if a.timestamp > 0 then a.timestamp ≤ c.unixTimestamp ∧ r.timestamp? = none
    else ∃ timestamp, r.timestamp? = some timestamp ∧ timestamp ≤ c.unixTimestamp
  active : ∃ s, b.schedule? cl.accounts.schedule = some s ∧ s.isActive = true

theorem Claim.Admitted.honours {c : Call} {cl : Claim} {v : Vault} {s : Schedule}
    {a : CreateScheduleArgs} (h : cl.Admitted rt c.toTx b v s) (ht : s.timestamp = a.timestamp) :
    Honours rt b c cl a (cl.record a.timestamp) where
  index := cl.record_index _
  user := cl.record_address _
  signed := h.user
  receivingAmount := cl.record_receivingAmount _
  sendingAmount := cl.record_sendingAmount _
  mint := cl.record_mint? _
  unlocked := by
    have hclock := h.unlocked
    rw [ht, Claim.unlockTime] at hclock
    rw [Claim.record_timestamp?]
    split
    · rename_i hpos
      exact ⟨by rwa [if_pos hpos] at hclock, rfl⟩
    · rename_i hpos
      exact ⟨_, rfl, by rwa [if_neg hpos] at hclock⟩
  active := ⟨s, h.schedule, h.active⟩

end

/-- The byte strings hashed for the redemptions that a run attempts on a schedule. -/
def attemptInputs (rt : Runtime) (schedule : Pubkey) (timestamp : Int64) (calls : List Call) :
    List Bytes :=
  (calls.filterMap fun c => c.instruction.claim?).flatMap fun cl =>
    if cl.accounts.schedule = schedule then proofInputs rt (cl.record timestamp) cl.args.proofs
    else []

section
variable {rt : Runtime} {b b' : Bank} {c : Call} {cl : Claim} {s : Schedule}

/-- A redemption that succeeds has been admitted on the schedule that it finds. -/
theorem admitted_of_step (hrt : rt.Lawful) (hcl : c.instruction.claim? = some cl)
    (hs : b.schedule? cl.accounts.schedule = some s) (hok : step rt b c = .ok b') :
    ∃ v, cl.Admitted rt c.toTx b v s := by
  obtain ⟨s', -, hstep⟩ := schedule_step hrt hok hs
  cases hstep with
  | redeem call _ admitted =>
    obtain rfl := Option.some.inj (hcl.symm.trans call)
    exact ⟨_, admitted⟩
  | setStatus call =>
    rw [call] at hcl
    cases hcl
  | untouched claim => exact absurd rfl (claim cl hcl)

theorem Schedule.Proves.verified {index : UInt16} {data : Bytes} {proofs : List Hash} {root : Hash}
    (h : s.Proves rt index data proofs) (hroot : s.merkleRoot = root.bytes) :
    Shared.verifyProof rt proofs root (rt.keccak data) = true := by
  obtain ⟨hlen, hproof, -⟩ := h
  have hsame : (⟨s.merkleRoot, hlen⟩ : Hash) = root := Bytes32.bytes_injective hroot
  rw [hsame] at hproof
  exact hproof

/-- Without collisions, the record that a schedule's root proves is one of the tree. -/
private theorem Schedule.Proves.mem_leaves {index : UInt16} {r : Record} {proofs : List Hash}
    {t : Merkle.Tree Record} (h : s.Proves rt index r.tryToVec proofs)
    (hroot : s.merkleRoot = (t.root (redemptionScheme rt)).bytes)
    (hkeccak : CollisionFree rt.keccak (t.inputs (redemptionScheme rt) ++
      proofInputs rt r proofs)) : r ∈ t.leaves := by
  obtain ⟨position, hat, -⟩ := Shared.position_of_verifyProof hkeccak (h.verified hroot)
  exact Merkle.Tree.mem_leaves_of_leafAt hat

theorem proofInputs_subset_attemptInputs {calls : List Call} (hc : c ∈ calls)
    (hcl : c.instruction.claim? = some cl) (timestamp : Int64) :
    ∀ y ∈ proofInputs rt (cl.record timestamp) cl.args.proofs,
      y ∈ attemptInputs rt cl.accounts.schedule timestamp calls := by
  intro y hy
  rw [attemptInputs, List.mem_flatMap]
  exact ⟨cl, List.mem_filterMap.mpr ⟨c, hc, hcl⟩, by rwa [if_pos rfl]⟩

end

/-- From the creation of a schedule on, over any run: its bits are set by redemptions and by
nothing else, no index is redeemed twice, and every redemption is that of a record of the
tree, by its own address and not before its time. -/
theorem redemption_safety {rt : Runtime} (hrt : rt.Lawful) {b₀ b : Bank} {create : Call}
    {x : CreateScheduleContext} {a : CreateScheduleArgs}
    (hcall : create.instruction = .createSchedule x a) (hcreate : step rt b₀ create = .ok b)
    (t : Merkle.Tree Record) (hroot : a.merkleRoot = t.root (redemptionScheme rt)) (calls : List Call)
    (hkeccak : CollisionFree rt.keccak
      (t.inputs (redemptionScheme rt) ++ attemptInputs rt x.schedule a.timestamp calls)) :
    (∀ before after, calls = before ++ after →
      ∃ s, (run (step rt) b before).schedule? x.schedule = some s ∧
        ∀ n : Nat, s.redemptions[n]? = some true ↔
          Occurs (step rt) (fun _ c => Redeems x.schedule n c) b before) ∧
    (∀ before c middle c' after n, calls = before ++ c :: middle ++ c' :: after →
      Succeeds (step rt) (run (step rt) b before) c → Redeems x.schedule n c →
      Redeems x.schedule n c' →
      ¬ Succeeds (step rt) (run (step rt) b (before ++ c :: middle)) c') ∧
    (∀ before c after cl, calls = before ++ c :: after → c.instruction.claim? = some cl →
      cl.accounts.schedule = x.schedule → Succeeds (step rt) (run (step rt) b before) c →
      ∃ r ∈ t.leaves, Honours rt (run (step rt) b before) c cl a r) := by
  obtain ⟨v₀, bump, -, -, hs₀⟩ := createSchedule_schedule? hrt hcall hcreate
  have hfresh (n : Nat) : (a.schedule x.vault bump).redemptions[n]? ≠ some true := by
    simp [CreateScheduleArgs.schedule, List.getElem?_replicate]
  have hrun := recorded_run hrt hs₀ hfresh
  -- a successful redemption meets the schedule that the history describes
  have hadmitted (before : List Call) (c : Call) (cl : Claim) (hcl : c.instruction.claim? = some cl)
      (htarget : cl.accounts.schedule = x.schedule)
      (hok : Succeeds (step rt) (run (step rt) b before) c) :
      ∃ v s, cl.Admitted rt c.toTx (run (step rt) b before) v s ∧
        Recorded rt b x.schedule (a.schedule x.vault bump) before s := by
    obtain ⟨s, hs, hrec⟩ := hrun before
    rw [← htarget] at hs
    obtain ⟨v, admitted⟩ := admitted_of_step hrt hcl hs hok.step_eq
    exact ⟨v, s, admitted, hrec⟩
  refine ⟨fun before after _ => ?_, ?_, ?_⟩
  · obtain ⟨s, hs, hrec⟩ := hrun before
    exact ⟨s, hs, hrec.bits⟩
  · rintro before c middle c' after n - hok hredeems ⟨cl, hcl, htarget, rfl⟩ hok'
    obtain ⟨v, s, hadm, hrec⟩ := hadmitted _ c' cl hcl htarget hok'
    obtain ⟨-, -, hbit⟩ := hadm.proves
    have htrue := (hrec.bits cl.args.index.toNat).mpr ⟨before, c, middle, rfl, hok, hredeems⟩
    rw [hbit] at htrue
    cases htrue
  · rintro before c after cl rfl hcl htarget hok
    obtain ⟨v, s, hadm, hrec⟩ := hadmitted before c cl hcl htarget hok
    have ht : s.timestamp = a.timestamp := hrec.timestamp
    have hmerkle : s.merkleRoot = (t.root (redemptionScheme rt)).bytes := by
      rw [← hroot]
      exact hrec.merkleRoot
    have hproves := hadm.proves
    rw [ht] at hproves
    have hfree : CollisionFree rt.keccak (t.inputs (redemptionScheme rt) ++
        proofInputs rt (cl.record a.timestamp) cl.args.proofs) := by
      apply hkeccak.mono
      intro y hy
      rw [List.mem_append] at hy ⊢
      rw [← htarget]
      exact hy.imp_right (proofInputs_subset_attemptInputs (by simp) hcl a.timestamp y)
    exact ⟨cl.record a.timestamp, hproves.mem_leaves hmerkle hfree, hadm.honours ht⟩

open Reference in
theorem redemption_safety_deployed :
    (∃ r ∈ records.leaves, r.address = user ∧ r.receivingAmount = 3) ∧
      ¬ Succeeds (step runtime) (run (step runtime) deployed [redeemFirst]) redeemFirst := by
  obtain ⟨-, honce, hrecord⟩ := redemption_safety runtime_lawful
    (show openSchedule.instruction = _ from rfl) openSchedule_ok records rfl
    [redeemFirst, redeemFirst] (by decide +kernel)
  have hfirst : Succeeds (step runtime) deployed redeemFirst := by decide +kernel
  have hredeems : Redeems schedule 0 redeemFirst :=
    ⟨firstClaim, firstClaim.claim?_instruction, by simp only [firstClaim], by decide +kernel⟩
  obtain ⟨r, hr, h⟩ := hrecord [] redeemFirst [redeemFirst] firstClaim rfl
    firstClaim.claim?_instruction (by simp only [firstClaim]) hfirst
  exact ⟨⟨r, hr, h.user, h.receivingAmount⟩,
    honce [] redeemFirst [] redeemFirst [] 0 rfl hfirst hredeems hredeems⟩

end Coin98Vault

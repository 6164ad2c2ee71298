import Mathlib.Algebra.Order.Group.Nat
import Mathlib.Algebra.Ring.Nat
import Coin98Vault.Framework.Distribution
import Coin98Vault.Properties.RedemptionSafety

/-!
# A schedule is a distribution

Of all that happens to a bank, a schedule takes notice of two kinds of events: a record of its
tree is paid, or its status is set.  On these it does what a distribution of the records of its
tree does, with the index of a record as its key.
-/

namespace Coin98Vault

open Trace Coin98Vault.Distribution

/-- What a successful call means to the schedule at `k`. -/
def Call.events (k : Pubkey) (b : Bank) (c : Call) : List (Event Record) :=
  match c.instruction with
  | .setScheduleStatus x isActive => if x.schedule = k then [.setActive isActive] else []
  | i =>
    match i.claim?, b.schedule? k with
    | some cl, some s => if cl.accounts.schedule = k then [.pay (cl.record s.timestamp)] else []
    | _, _ => []

/-- The bit of the record is there and not set. -/
def Schedule.Outstanding (s : Schedule) (r : Record) : Prop :=
  s.redemptions[r.index.toNat]? = some false

instance (s : Schedule) (r : Record) : Decidable (s.Outstanding r) :=
  inferInstanceAs (Decidable (s.redemptions[r.index.toNat]? = some false))

/-- The schedule is where the distribution is. -/
structure Schedule.Represents (s : Schedule) (records : Multiset Record)
    (d : Distribution Record) : Prop where
  active : d.active = s.isActive
  outstanding : d.outstanding = records.filter s.Outstanding

/-- The records that a schedule with the arguments has a bit for. -/
def CreateScheduleArgs.promised (a : CreateScheduleArgs) (t : Merkle.Tree Record) :
    Multiset Record :=
  (t.leaves : Multiset Record).filter fun r => r.index.toNat < a.userCount.toNat

/-- Of these records, those that a schedule with the arguments has a bit for. -/
def CreateScheduleArgs.promisedOf (a : CreateScheduleArgs) (records : Multiset Record) :
    Multiset Record :=
  records.filter fun r => r.index.toNat < a.userCount.toNat

/-- All that the root proves to the claims that a run attempts on the schedule are such records. -/
def CreateScheduleArgs.ProvesOnly (a : CreateScheduleArgs) (rt : Runtime) (schedule : Pubkey)
    (calls : List Call) (records : Multiset Record) : Prop :=
  ∀ c ∈ calls, ∀ cl, c.instruction.claim? = some cl → cl.accounts.schedule = schedule →
    Shared.verifyProof rt cl.args.proofs a.merkleRoot
      (rt.keccak (cl.record a.timestamp).tryToVec) = true →
    cl.record a.timestamp ∈ records

private theorem Schedule.outstanding_redeem {s : Schedule} {index : UInt16}
    (hbit : s.redemptions[index.toNat]? = some false) (r : Record) :
    (s.redeem index).Outstanding r ↔ r.index ≠ index ∧ s.Outstanding r := by
  have hlt : index.toNat < s.redemptions.length := (List.getElem?_eq_some_iff.mp hbit).1
  unfold Schedule.Outstanding Schedule.redeem
  by_cases h : r.index = index
  · subst h
    simp [hlt]
  · have hne : index.toNat ≠ r.index.toNat := fun he => h (UInt16.toNat_inj.mp he).symm
    rw [List.getElem?_set_ne hne]
    simp [h]

section
variable {rt : Runtime} {b b' : Bank} {c : Call} {k : Pubkey} {s s' : Schedule}

theorem Call.events_of_claim? {cl : Claim} (hcl : c.instruction.claim? = some cl)
    (hk : cl.accounts.schedule = k) (hs : b.schedule? k = some s) :
    c.events k b = [.pay (cl.record s.timestamp)] := by
  unfold Call.events
  cases hi : c.instruction with
  | setScheduleStatus x isActive =>
    rw [hi] at hcl
    cases hcl
  | _ =>
    rw [hi] at hcl
    simp [hcl, hs, hk]

private theorem Call.events_of_untouched
    (claim : ∀ cl, c.instruction.claim? = some cl → cl.accounts.schedule ≠ k)
    (status : ∀ x isActive, c.instruction = .setScheduleStatus x isActive → x.schedule ≠ k) :
    c.events k b = [] := by
  unfold Call.events
  split
  · rename_i x isActive hi
    exact if_neg (status x isActive hi)
  · split
    · rename_i cl s hcl hs
      exact if_neg (claim cl hcl)
    · rfl

/-- One step of a schedule is what its events are to the distribution. -/
private theorem ScheduleStep.represents {records : Multiset Record} {d : Distribution Record}
    (h : ScheduleStep rt b c k s s') (hs : b.schedule? k = some s) (hd : s.Represents records d)
    (hrecord : ∀ cl v, c.instruction.claim? = some cl → cl.accounts.schedule = k →
      cl.Admitted rt c.toTx b v s → cl.record s.timestamp ∈ records) :
    ∃ d', replay Record.index d (c.events k b) = some d' ∧ s'.Represents records d' := by
  cases h with
  | @redeem cl v call target admitted =>
    obtain ⟨-, -, hbit⟩ := admitted.proves
    have hout : cl.record s.timestamp ∈ d.outstanding := by
      rw [hd.outstanding, Multiset.mem_filter]
      refine ⟨hrecord cl v call target admitted, ?_⟩
      unfold Schedule.Outstanding
      rw [Claim.record_index]
      exact hbit
    have hpay : next Record.index d (.pay (cl.record s.timestamp)) = some _ :=
      next_pay.mpr ⟨hd.active.trans admitted.active, hout, rfl⟩
    rw [Call.events_of_claim? call target hs]
    refine ⟨_, (replay_singleton _).trans hpay, hd.active, ?_⟩
    dsimp only
    rw [hd.outstanding, Multiset.filter_filter]
    apply Multiset.filter_congr
    intro r _
    rw [Schedule.outstanding_redeem hbit, Claim.record_index]
  | @setStatus x isActive v call target =>
    have hevents : c.events k b = [.setActive isActive] := by
      unfold Call.events
      rw [call]
      exact if_pos target
    rw [hevents]
    exact ⟨_, replay_singleton _, rfl, hd.outstanding⟩
  | untouched claim status =>
    rw [Call.events_of_untouched claim status]
    exact ⟨d, rfl, hd⟩

end

private theorem represents_start {a : CreateScheduleArgs} {vault : Pubkey} {bump : UInt8}
    (records : Multiset Record) :
    (a.schedule vault bump).Represents records (start (a.promisedOf records)) where
  active := rfl
  outstanding := by
    show a.promisedOf records = _
    apply Multiset.filter_congr
    intro r _
    simp [Schedule.Outstanding, CreateScheduleArgs.schedule, List.getElem?_replicate]

/-- From its creation on, a schedule whose root proves only these records does over any run what
their distribution does. -/
theorem represents_run {rt : Runtime} (hrt : rt.Lawful) {b₀ b : Bank} {create : Call}
    {x : CreateScheduleContext} {a : CreateScheduleArgs}
    (hcall : create.instruction = .createSchedule x a) (hcreate : step rt b₀ create = .ok b)
    {records : Multiset Record} {calls : List Call}
    (honly : a.ProvesOnly rt x.schedule calls records) :
    ∃ d, replay Record.index (start (a.promisedOf records))
        (log (step rt) (Call.events x.schedule) b calls) = some d ∧
      ∃ bump s, (run (step rt) b calls).schedule? x.schedule = some s ∧
        (a.schedule x.vault bump).Extends s ∧ s.Represents records d := by
  obtain ⟨v₀, bump, -, -, hs₀⟩ := createSchedule_schedule? hrt hcall hcreate
  -- what redemptions rest on is fixed by the creation
  let Related (b' : Bank) (d : Distribution Record) : Prop :=
    ∃ s, b'.schedule? x.schedule = some s ∧ (a.schedule x.vault bump).Extends s ∧
      s.Represents records d
  obtain ⟨d, hd, s, hs, hext, hrep⟩ : ∃ d, replay Record.index (start (a.promisedOf records))
      (log (step rt) (Call.events x.schedule) b calls) = some d ∧
        Related (run (step rt) b calls) d := by
    apply log_simulates (R := Related)
    · exact ⟨_, hs₀, .refl _, represents_start _⟩
    · rintro before c after b' d hcalls ⟨s, hs, hext, hrep⟩ hok
      have hc : c ∈ calls := by simp [hcalls]
      obtain ⟨s', hs', hstep⟩ := schedule_step hrt hok hs
      have ht : s.timestamp = a.timestamp := by
        rw [hext.fixed]
        rfl
      have hmerkle : s.merkleRoot = a.merkleRoot.bytes := by
        rw [hext.fixed]
        rfl
      have hrecord (cl : Claim) (v : Vault) (hcl : c.instruction.claim? = some cl)
          (htarget : cl.accounts.schedule = x.schedule)
          (hadm : cl.Admitted rt c.toTx (run (step rt) b before) v s) :
          cl.record s.timestamp ∈ records := by
        have hproved := hadm.proves.verified hmerkle
        rw [ht] at hproved ⊢
        exact honly c hc cl hcl htarget hproved
      obtain ⟨d', hd', hrep'⟩ := hstep.represents hs hrep hrecord
      exact ⟨d', hd', s', hs', hext.trans hstep.extends, hrep'⟩
  exact ⟨d, hd, bump, s, hs, hext, hrep⟩

/-- Without collisions, the root of a tree proves only its leaves. -/
theorem provesOnly_leaves {rt : Runtime} {a : CreateScheduleArgs} {t : Merkle.Tree Record}
    (hroot : a.merkleRoot = t.root (redemptionScheme rt)) {schedule : Pubkey} {calls : List Call}
    (hkeccak : CollisionFree rt.keccak
      (t.inputs (redemptionScheme rt) ++ attemptInputs rt schedule a.timestamp calls)) :
    a.ProvesOnly rt schedule calls t.leaves := by
  intro c hc cl hcl htarget hproved
  rw [hroot] at hproved
  have hfree : CollisionFree rt.keccak (t.inputs (redemptionScheme rt) ++
      proofInputs rt (cl.record a.timestamp) cl.args.proofs) := by
    apply hkeccak.mono
    intro y hy
    rw [List.mem_append] at hy ⊢
    rw [← htarget]
    exact hy.imp_right (proofInputs_subset_attemptInputs hc hcl a.timestamp y)
  obtain ⟨position, hat, -⟩ := Shared.position_of_verifyProof hfree hproved
  exact Merkle.Tree.mem_leaves_of_leafAt hat

/-- The records that the run pays on the schedule. -/
def paidRecords (rt : Runtime) (schedule : Pubkey) (b : Bank) (calls : List Call) : List Record :=
  (log (step rt) (Call.events schedule) b calls).filterMap Event.paid?

theorem paidRecords_sum {rt : Runtime} {schedule : Pubkey} {b : Bank} {calls : List Call}
    {promised : Multiset Record} {d : Distribution Record} (h : replay Record.index (start promised)
      (log (step rt) (Call.events schedule) b calls) = some d) (worth : Record → Nat) :
    (d.paid.map worth).sum = ((paidRecords rt schedule b calls).map worth).sum := by
  rw [paid_replay h]
  rfl

/-- A schedule refines the distribution of the records of its tree that it has a bit for.  By
whatever measure, what it has paid and what it still owes are no more than what it promised, and
no less where no two records share an index. -/
theorem schedule_distributes {rt : Runtime} (hrt : rt.Lawful) {b₀ b : Bank} {create : Call}
    {x : CreateScheduleContext} {a : CreateScheduleArgs}
    (hcall : create.instruction = .createSchedule x a) (hcreate : step rt b₀ create = .ok b)
    (t : Merkle.Tree Record) (hroot : a.merkleRoot = t.root (redemptionScheme rt)) (calls : List Call)
    (hkeccak : CollisionFree rt.keccak
      (t.inputs (redemptionScheme rt) ++ attemptInputs rt x.schedule a.timestamp calls)) :
    ∃ s d, (run (step rt) b calls).schedule? x.schedule = some s ∧
      replay Record.index (start (a.promised t))
        (log (step rt) (Call.events x.schedule) b calls) = some d ∧
      s.Represents t.leaves d ∧
      ∀ worth : Record → Nat,
        let paid := ((paidRecords rt x.schedule b calls).map worth).sum
        let owed := (((t.leaves : Multiset Record).filter s.Outstanding).map worth).sum
        let promised := ((a.promised t).map worth).sum
        paid + owed ≤ promised ∧
          (((a.promised t).map Record.index).Nodup → paid + owed = promised) := by
  obtain ⟨d, hd, -, s, hs, -, hrep⟩ := represents_run hrt hcall hcreate
    (provesOnly_leaves hroot hkeccak)
  refine ⟨s, d, hs, hd, hrep, ?_⟩
  intro worth
  have hsound := sound_replay hd
  rw [← paidRecords_sum hd, ← hrep.outstanding]
  exact ⟨hsound.worth_le worth, fun hdistinct => hsound.worth_eq hdistinct worth⟩

open Reference in
theorem schedule_distributes_deployed :
    let amount := fun r : Record => r.receivingAmount.toNat
    ∃ s, (run (step runtime) deployed [redeemFirst, redeemFirst]).schedule? schedule = some s ∧
      ((paidRecords runtime schedule deployed [redeemFirst, redeemFirst]).map amount).sum +
        (((records.leaves : Multiset Record).filter s.Outstanding).map amount).sum = 7 := by
  intro amount
  obtain ⟨s, d, hs, -, -, hworth⟩ := schedule_distributes runtime_lawful
    (show openSchedule.instruction = _ from rfl) openSchedule_ok records rfl
    [redeemFirst, redeemFirst] (by decide +kernel)
  refine ⟨s, hs, ?_⟩
  exact (hworth amount).2 (by decide +kernel)

end Coin98Vault

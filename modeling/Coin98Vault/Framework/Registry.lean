import Mathlib.Data.Set.Basic
import Coin98Vault.Framework.Ledger

/-!
# Registries

An office has an owner, who names its deputies and may hand it over to a nominee that accepts it.
Its members file listings under it, and the slots of a listing are drawn one by one while it is
active.  A registry keeps the offices and the listings, and the balances that go with them.
Authority over an office spreads by what those in authority do, and in no other way.
-/

namespace Coin98Vault

namespace Registry

structure Office (π : Type*) where
  owner : π
  nominee : π
  deputies : Set π

structure Listing (κ τ σ : Type*) where
  office : κ
  terms : τ
  active : Bool
  /-- The slots that have not been drawn yet. -/
  remaining : Set σ

inductive Entry (κ π τ σ : Type*) where
  | office (o : Office π)
  | listing (l : Listing κ τ σ)

/-- What is done at an office, and by whom. -/
inductive Act (κ π τ σ : Type*) where
  | found (k : κ) (owner : π)
  | appoint (k : κ) (owner : π) (deputies : Set π)
  | nominate (k : κ) (owner nominee : π)
  | accept (k : κ) (nominee : π)
  | file (k : κ) (member : π) (listing : κ) (terms : τ) (slots : Set σ)
  | setActive (k : κ) (member : π) (listing : κ) (active : Bool)
  | spend (k : κ) (member : π)
  | draw (k : κ) (listing : κ) (slot : σ)

/-- An act, with what it moves between balances. -/
structure Event (κ π τ σ α : Type*) where
  act : Act κ π τ σ
  moves : List (Ledger.Move α)

end Registry

@[ext] structure Registry (κ π τ σ α : Type*) where
  entries : κ → Option (Registry.Entry κ π τ σ)
  balance : α → Nat

namespace Registry

variable {κ π τ σ α : Type*}

/-- The owner and the deputies may act for the office. -/
def Office.May (o : Office π) (p : π) : Prop := p = o.owner ∨ p ∈ o.deputies

def office? (r : Registry κ π τ σ α) (k : κ) : Option (Office π) :=
  match r.entries k with
  | some (.office o) => some o
  | _ => none

def listing? (r : Registry κ π τ σ α) (k : κ) : Option (Listing κ τ σ) :=
  match r.entries k with
  | some (.listing l) => some l
  | _ => none

section
variable [DecidableEq κ]

def put (r : Registry κ π τ σ α) (k : κ) (e : Entry κ π τ σ) : Registry κ π τ σ α :=
  { r with entries := Function.update r.entries k (some e) }

open Classical in
/-- What an act does, if it is in order. -/
noncomputable def perform (nobody : π) (r : Registry κ π τ σ α) :
    Act κ π τ σ → Option (Registry κ π τ σ α)
  | .found k owner =>
    if r.entries k = none then some (r.put k (.office ⟨owner, nobody, ∅⟩)) else none
  | .appoint k owner deputies => (r.office? k).bind fun o =>
    if owner = o.owner then some (r.put k (.office { o with deputies })) else none
  | .nominate k owner nominee => (r.office? k).bind fun o =>
    if owner = o.owner then some (r.put k (.office { o with nominee })) else none
  | .accept k nominee => (r.office? k).bind fun o =>
    if nominee = o.nominee then
      some (r.put k (.office { o with owner := o.nominee, nominee := nobody }))
    else none
  | .file k member listing terms slots => (r.office? k).bind fun o =>
    if o.May member ∧ r.entries listing = none then
      some (r.put listing (.listing ⟨k, terms, true, slots⟩))
    else none
  | .setActive k member listing active => (r.office? k).bind fun o =>
    (r.listing? listing).bind fun l =>
      if o.May member ∧ l.office = k then some (r.put listing (.listing { l with active })) else none
  | .spend k member => (r.office? k).bind fun o => if o.May member then some r else none
  | .draw k listing slot => (r.office? k).bind fun _ => (r.listing? listing).bind fun l =>
    if l.office = k ∧ l.active = true ∧ slot ∈ l.remaining then
      some (r.put listing (.listing { l with remaining := l.remaining \ {slot} }))
    else none

variable [DecidableEq α]

open Classical in
/-- The act is in order, and its moves are paid for one after the other. -/
noncomputable def next (nobody : π) (r : Registry κ π τ σ α) (e : Event κ π τ σ α) :
    Option (Registry κ π τ σ α) :=
  (r.perform nobody e.act).bind fun r' =>
    if Ledger.Funded r.balance e.moves then
      some { r' with balance := Ledger.settle e.moves r.balance }
    else none

/-- A history that the registry agrees to. -/
noncomputable def replay (nobody : π) (r : Registry κ π τ σ α) (events : List (Event κ π τ σ α)) :
    Option (Registry κ π τ σ α) :=
  events.foldlM (next nobody) r

end

/-! ## What is there -/

section
variable {nobody : π} {r r' : Registry κ π τ σ α} {k k' : κ}

theorem office?_eq_some {o : Office π} :
    r.office? k = some o ↔ r.entries k = some (.office o) := by
  unfold office?
  split <;> simp_all

theorem listing?_eq_some {l : Listing κ τ σ} :
    r.listing? k = some l ↔ r.entries k = some (.listing l) := by
  unfold listing?
  split <;> simp_all

variable [DecidableEq κ]

@[simp] theorem put_entries_self (e : Entry κ π τ σ) : (r.put k e).entries k = some e := by
  simp [put]

theorem put_entries_of_ne (e : Entry κ π τ σ) (h : k ≠ k') :
    (r.put k' e).entries k = r.entries k := by
  simp [put, h]

theorem next_eq_some [DecidableEq α] {e : Event κ π τ σ α} : r.next nobody e = some r' ↔
    ∃ r₁, r.perform nobody e.act = some r₁ ∧ Ledger.Funded r.balance e.moves ∧
      { r₁ with balance := Ledger.settle e.moves r.balance } = r' := by
  simp only [next, Option.bind_eq_some_iff, Option.ite_none_right_eq_some, Option.some.injEq]

end

/-! ## Authority -/

/-- All that hold or have been offered authority over the office are of the set. -/
structure Office.Within (P : Set π) (o : Office π) : Prop where
  owner : o.owner ∈ P
  nominee : o.nominee ∈ P
  deputies : o.deputies ⊆ P

/-- Whoever acts with the authority of an office. -/
def Act.authority? : Act κ π τ σ → Option (κ × π)
  | .appoint k owner _ => some (k, owner)
  | .nominate k owner _ => some (k, owner)
  | .accept k nominee => some (k, nominee)
  | .file k member _ _ _ => some (k, member)
  | .setActive k member _ _ => some (k, member)
  | .spend k member => some (k, member)
  | .found _ _ => none
  | .draw _ _ _ => none

/-- The act gives no authority over the office from the set to others. -/
def Act.KeepsTo (P : Set π) (k : κ) : Act κ π τ σ → Prop
  | .appoint k' owner deputies => k' = k → owner ∈ P → deputies ⊆ P
  | .nominate k' owner nominee => k' = k → owner ∈ P → nominee ∈ P
  | _ => True

/-- What an act does to an office that is there. -/
inductive Office.Step (nobody : π) (k : κ) (act : Act κ π τ σ) (o : Office π) : Office π → Prop
  | appointed {deputies : Set π} (call : act = .appoint k o.owner deputies) :
      Step nobody k act o { o with deputies }
  | nominated {nominee : π} (call : act = .nominate k o.owner nominee) :
      Step nobody k act o { o with nominee }
  | accepted (call : act = .accept k o.nominee) :
      Step nobody k act o { o with owner := o.nominee, nominee := nobody }
  | kept : Step nobody k act o o

section
variable {P : Set π} {nobody p : π} {r r' : Registry κ π τ σ α} {k k' : κ} {o o' : Office π}
  {act : Act κ π τ σ}

theorem Office.Within.may (h : o.Within P) (hp : o.May p) : p ∈ P := by
  rcases hp with rfl | hp
  · exact h.owner
  · exact h.deputies hp

theorem Office.Within.step (hnobody : nobody ∈ P) (h : o.Within P) (hkeeps : act.KeepsTo P k)
    (hstep : o.Step nobody k act o') : o'.Within P := by
  cases hstep with
  | appointed call =>
    subst call
    exact ⟨h.owner, h.nominee, hkeeps rfl h.owner⟩
  | nominated call =>
    subst call
    exact ⟨h.owner, hkeeps rfl h.owner, h.deputies⟩
  | accepted => exact ⟨h.nominee, hnobody, h.deputies⟩
  | kept => exact h

variable [DecidableEq κ]

private theorem step_put (hk : r.entries k = some (.office o))
    (h : k' = k → o.Step nobody k act o') :
    ∃ o'', (r.put k' (.office o')).entries k = some (.office o'') ∧ o.Step nobody k act o'' := by
  by_cases hkk : k' = k
  · subst hkk
    exact ⟨o', put_entries_self _, h rfl⟩
  · exact ⟨o, (put_entries_of_ne _ (Ne.symm hkk)).trans hk, .kept⟩

private theorem step_put_listing {l : Listing κ τ σ} (hk : r.entries k = some (.office o))
    (hl : r.entries k' ≠ some (.office o)) :
    ∃ o', (r.put k' (.listing l)).entries k = some (.office o') ∧ o.Step nobody k act o' := by
  refine ⟨o, (put_entries_of_ne _ ?_).trans hk, .kept⟩
  intro hkk
  exact hl (hkk ▸ hk)

/-- An office lives on, and changes in three acts only. -/
private theorem office_step (h : r.perform nobody act = some r')
    (hk : r.entries k = some (.office o)) :
    ∃ o', r'.entries k = some (.office o') ∧ o.Step nobody k act o' := by
  have hsame {k' : κ} {o' : Office π} (ho' : r.office? k' = some o') (hkk : k' = k) : o' = o := by
    subst hkk
    rw [office?_eq_some, hk] at ho'
    exact (Entry.office.inj (Option.some.inj ho')).symm
  cases act <;> simp only [perform, Option.bind_eq_some_iff, Option.ite_none_right_eq_some,
    Option.some.injEq] at h
  case found k' owner =>
    obtain ⟨hnone, rfl⟩ := h
    apply step_put hk
    intro hkk
    rw [hkk, hk] at hnone
    cases hnone
  case appoint k' owner deputies =>
    obtain ⟨o', ho', rfl, rfl⟩ := h
    apply step_put hk
    intro hkk
    rw [hsame ho' hkk, hkk]
    exact .appointed rfl
  case nominate k' owner nominee =>
    obtain ⟨o', ho', rfl, rfl⟩ := h
    apply step_put hk
    intro hkk
    rw [hsame ho' hkk, hkk]
    exact .nominated rfl
  case accept k' nominee =>
    obtain ⟨o', ho', rfl, rfl⟩ := h
    apply step_put hk
    intro hkk
    rw [hsame ho' hkk, hkk]
    exact .accepted rfl
  case file k' member listing terms slots =>
    obtain ⟨-, -, ⟨-, hnone⟩, rfl⟩ := h
    exact step_put_listing hk (by simp [hnone])
  case setActive k' member listing active =>
    obtain ⟨-, -, l, hl, -, rfl⟩ := h
    exact step_put_listing hk (by simp [listing?_eq_some.mp hl])
  case spend k' member =>
    obtain ⟨-, -, -, rfl⟩ := h
    exact ⟨o, hk, .kept⟩
  case draw k' listing slot =>
    obtain ⟨-, -, l, hl, -, rfl⟩ := h
    exact step_put_listing hk (by simp [listing?_eq_some.mp hl])

/-- Nobody acts for an office but its members and, to accept it, its nominee. -/
theorem authority_of_perform (h : r.perform nobody act = some r')
    (hp : act.authority? = some (k, p)) :
    ∃ o, r.entries k = some (.office o) ∧ (o.May p ∨ p = o.nominee) := by
  cases act <;> simp only [Act.authority?, reduceCtorEq, Option.some.injEq, Prod.mk.injEq] at hp <;>
    obtain ⟨rfl, rfl⟩ := hp <;>
    simp only [perform, Option.bind_eq_some_iff, Option.ite_none_right_eq_some] at h <;>
    obtain ⟨o, ho, h⟩ := h
  case appoint => exact ⟨o, office?_eq_some.mp ho, .inl (.inl h.1)⟩
  case nominate => exact ⟨o, office?_eq_some.mp ho, .inl (.inl h.1)⟩
  case accept => exact ⟨o, office?_eq_some.mp ho, .inr h.1⟩
  case file => exact ⟨o, office?_eq_some.mp ho, .inl h.1.1⟩
  case setActive =>
    obtain ⟨l, -, h⟩ := h
    exact ⟨o, office?_eq_some.mp ho, .inl h.1.1⟩
  case spend => exact ⟨o, office?_eq_some.mp ho, .inl h.1⟩

/-- In a history in which the members of a set give nothing away, nobody else acts for the office. -/
theorem replay_within [DecidableEq α] {events : List (Event κ π τ σ α)} (hnobody : nobody ∈ P)
    (h : r.replay nobody events = some r') (hk : r.entries k = some (.office o)) (ho : o.Within P)
    (hkeeps : ∀ e ∈ events, e.act.KeepsTo P k) :
    (∀ e ∈ events, ∀ p, e.act.authority? = some (k, p) → p ∈ P) ∧
      ∃ o', r'.entries k = some (.office o') ∧ o'.Within P := by
  induction events generalizing r o with
  | nil =>
    obtain rfl := Option.some.inj h
    exact ⟨by simp, o, hk, ho⟩
  | cons e events ih =>
    rw [replay, List.foldlM_cons] at h
    obtain ⟨r₁, hnext, hrest⟩ := Option.bind_eq_some_iff.mp h
    obtain ⟨r₂, hperform, -, rfl⟩ := next_eq_some.mp hnext
    obtain ⟨o₁, hk₁, hstep⟩ := office_step hperform hk
    have ho₁ : o₁.Within P := ho.step hnobody (hkeeps e List.mem_cons_self) hstep
    obtain ⟨hacts, hend⟩ := ih hrest hk₁ ho₁ fun e' he' => hkeeps e' (List.mem_cons_of_mem _ he')
    refine ⟨?_, hend⟩
    rw [List.forall_mem_cons]
    refine ⟨?_, hacts⟩
    intro p hp
    obtain ⟨o', ho', hmay⟩ := authority_of_perform hperform hp
    obtain rfl := Entry.office.inj (Option.some.inj (ho'.symm.trans hk))
    rcases hmay with hmay | rfl
    · exact ho.may hmay
    · exact ho.nominee

end

end Registry

end Coin98Vault

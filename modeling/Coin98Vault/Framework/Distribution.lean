import Mathlib.Algebra.BigOperators.Group.Multiset.Basic
import Mathlib.Algebra.Order.Monoid.Canonical.Defs

/-!
# Distributions

A distribution promises entitlements, each under a key, and pays out every key once.  Whatever
it is asked to do, it pays no more than it promised, and what it still owes is what it promised
less what it has paid.
-/

namespace Coin98Vault

structure Distribution (ε : Type*) where
  outstanding : Multiset ε
  paid : Multiset ε
  active : Bool

namespace Distribution

inductive Event (ε : Type*) where
  | pay (e : ε)
  | setActive (active : Bool)

variable {ε ι : Type*}

def Event.paid? : Event ε → Option ε
  | pay e => some e
  | setActive _ => none

/-- Nothing has been paid yet. -/
def start (promised : Multiset ε) : Distribution ε := ⟨promised, 0, true⟩

section
variable [DecidableEq ε] [DecidableEq ι] (key : ε → ι)

/-- An active distribution pays what is outstanding; all else under the same key lapses. -/
def next (d : Distribution ε) : Event ε → Option (Distribution ε)
  | .pay e =>
    if d.active = true ∧ e ∈ d.outstanding then
      some { d with
        outstanding := d.outstanding.filter fun e' => key e' ≠ key e
        paid := e ::ₘ d.paid }
    else none
  | .setActive active => some { d with active }

/-- A history that the distribution agrees to. -/
def replay (d : Distribution ε) (events : List (Event ε)) : Option (Distribution ε) :=
  events.foldlM (next key) d

end

/-- What has been paid and what is outstanding have been promised, and no key is in both. -/
structure Sound (key : ε → ι) (promised : Multiset ε) (d : Distribution ε) : Prop where
  le : d.paid + d.outstanding ≤ promised
  nodup : (d.paid.map key).Nodup
  disjoint : ∀ e ∈ d.paid, ∀ e' ∈ d.outstanding, key e ≠ key e'
  eq : (promised.map key).Nodup → d.paid + d.outstanding = promised

variable {key : ε → ι} {promised : Multiset ε} {d d' : Distribution ε}

private theorem sound_start : Sound key promised (start promised) where
  le := by simp [start]
  nodup := by simp [start]
  disjoint := by simp [start]
  eq _ := by simp [start]

/-- By whatever measure, no more is paid and owed than was promised. -/
theorem Sound.worth_le {M : Type*} [AddCommMonoid M] [PartialOrder M] [CanonicallyOrderedAdd M]
    (h : Sound key promised d) (worth : ε → M) :
    (d.paid.map worth).sum + (d.outstanding.map worth).sum ≤ (promised.map worth).sum := by
  obtain ⟨rest, hrest⟩ := Multiset.le_iff_exists_add.mp h.le
  rw [hrest, Multiset.map_add, Multiset.sum_add, Multiset.map_add, Multiset.sum_add]
  exact le_self_add

theorem Sound.worth_eq {M : Type*} [AddCommMonoid M] (h : Sound key promised d)
    (hdistinct : (promised.map key).Nodup) (worth : ε → M) :
    (d.paid.map worth).sum + (d.outstanding.map worth).sum = (promised.map worth).sum := by
  rw [← h.eq hdistinct, Multiset.map_add, Multiset.sum_add]

variable [DecidableEq ι]

private theorem filter_key_add_le {s : Multiset ε} {e : ε} (he : e ∈ s) :
    (s.filter fun e' => key e' ≠ key e) + {e} ≤ s := by
  have hsplit := Multiset.filter_add_not (fun e' => key e' ≠ key e) s
  have hmem : e ∈ s.filter fun e' => ¬ key e' ≠ key e := by simp [he]
  calc (s.filter fun e' => key e' ≠ key e) + {e}
      ≤ (s.filter fun e' => key e' ≠ key e) + s.filter fun e' => ¬ key e' ≠ key e :=
        add_le_add_right (Multiset.singleton_le.mpr hmem) _
    _ = s := hsplit

variable [DecidableEq ε]

@[simp] theorem replay_nil : replay key d [] = some d := rfl

theorem replay_singleton (event : Event ε) : replay key d [event] = next key d event := by
  simp [replay]

theorem replay_concat {events : List (Event ε)} {event : Event ε} :
    replay key d (events ++ [event]) = (replay key d events).bind fun d => next key d event := by
  simp [replay]

theorem next_pay {e : ε} : next key d (.pay e) = some d' ↔
    d.active = true ∧ e ∈ d.outstanding ∧
      d' = ⟨d.outstanding.filter fun e' => key e' ≠ key e, e ::ₘ d.paid, d.active⟩ := by
  rw [← and_assoc]
  simp only [next]
  by_cases h : d.active = true ∧ e ∈ d.outstanding
  · rw [if_pos h, Option.some.injEq, and_iff_right h]
    exact eq_comm
  · rw [if_neg h]
    simp [h]

private theorem filter_key_eq_erase {s : Multiset ε} {e : ε} (hs : (s.map key).Nodup) (he : e ∈ s) :
    (s.filter fun e' => key e' ≠ key e) = s.erase e := by
  obtain ⟨s, rfl⟩ := Multiset.exists_cons_of_mem he
  rw [Multiset.map_cons, Multiset.nodup_cons] at hs
  rw [Multiset.filter_cons_of_neg _ (by simp), Multiset.erase_cons_head, Multiset.filter_eq_self]
  intro e' he' hkey
  apply hs.1
  rw [← hkey]
  exact Multiset.mem_map_of_mem key he'

theorem Sound.next {event : Event ε} (h : Sound key promised d)
    (hnext : next key d event = some d') : Sound key promised d' := by
  cases event with
  | setActive active =>
    obtain rfl := Option.some.inj hnext
    exact ⟨h.le, h.nodup, h.disjoint, h.eq⟩
  | pay e =>
    obtain ⟨-, he, rfl⟩ := next_pay.mp hnext
    constructor
    · calc e ::ₘ d.paid + d.outstanding.filter (fun e' => key e' ≠ key e)
          = d.paid + (d.outstanding.filter (fun e' => key e' ≠ key e) + {e}) := by
            rw [← Multiset.singleton_add, add_comm ({e} : Multiset ε), add_right_comm, add_assoc]
        _ ≤ d.paid + d.outstanding := add_le_add_right (filter_key_add_le he) _
        _ ≤ promised := h.le
    · rw [Multiset.map_cons, Multiset.nodup_cons]
      refine ⟨?_, h.nodup⟩
      intro hmem
      obtain ⟨e', he', hkey⟩ := Multiset.mem_map.mp hmem
      exact h.disjoint e' he' e he hkey
    · intro e₁ he₁ e₂ he₂
      rw [Multiset.mem_filter] at he₂
      rcases Multiset.mem_cons.mp he₁ with rfl | he₁
      · exact he₂.2.symm
      · exact h.disjoint e₁ he₁ e₂ he₂.1
    · intro hdistinct
      have hsum := h.eq hdistinct
      have hkeys : (d.outstanding.map key).Nodup := by
        rw [← hsum, Multiset.map_add] at hdistinct
        exact Multiset.nodup_of_le (Multiset.le_add_left _ _) hdistinct
      show e ::ₘ d.paid + d.outstanding.filter (fun e' => key e' ≠ key e) = promised
      rw [filter_key_eq_erase hkeys he, Multiset.cons_add, ← Multiset.add_cons,
        Multiset.cons_erase he, hsum]

/-- Whatever history it agrees to, a distribution stays sound. -/
theorem sound_replay {events : List (Event ε)} (h : replay key (start promised) events = some d) :
    Sound key promised d := by
  induction events using List.reverseRecOn generalizing d with
  | nil =>
    obtain rfl := Option.some.inj h
    exact sound_start
  | append_singleton events event ih =>
    rw [replay_concat, Option.bind_eq_some_iff] at h
    obtain ⟨d₁, hbefore, hnext⟩ := h
    exact (ih hbefore).next hnext

/-- What has been paid is what the history says has been paid. -/
theorem paid_replay {events : List (Event ε)} (h : replay key (start promised) events = some d) :
    d.paid = (events.filterMap Event.paid? : List ε) := by
  induction events using List.reverseRecOn generalizing d with
  | nil =>
    obtain rfl := Option.some.inj h
    rfl
  | append_singleton events event ih =>
    rw [replay_concat, Option.bind_eq_some_iff] at h
    obtain ⟨d₁, hbefore, hnext⟩ := h
    rw [List.filterMap_append, ← Multiset.coe_add, ← ih hbefore]
    cases event with
    | setActive active =>
      obtain rfl := Option.some.inj hnext
      simp [Event.paid?]
    | pay e =>
      obtain ⟨-, -, rfl⟩ := next_pay.mp hnext
      show e ::ₘ d₁.paid = d₁.paid + ([e] : List ε)
      rw [Multiset.coe_singleton, add_comm, Multiset.singleton_add]

end Distribution

end Coin98Vault

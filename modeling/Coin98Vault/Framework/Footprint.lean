import Mathlib.Data.Set.BooleanAlgebra
import Mathlib.Data.Set.Piecewise
import Mathlib.Logic.Relation
import Mathlib.Order.CompletePartialOrder
import Coin98Vault.Framework.Trace

/-!
# Footprints

A call names cells of a store, and may write some of them.  If that is all it depends on and all it
changes, then a region of the store knows nothing of the calls that do not write there, and
neighbours that write nothing that the other one names may change places.
-/

namespace Coin98Vault.Footprint

open Trace Set Classical

variable {κ α β ε : Type*}

/-- A step depends on the cells that the call names and changes those that it writes; what is in the
others makes no difference. -/
structure Confined (step : (κ → α) → β → Except ε (κ → α)) (names writes : β → Set κ) : Prop where
  writes_subset : ∀ c, writes c ⊆ names c
  step_eq : ∀ {s t : κ → α} {c}, EqOn s t (names c) →
    step t c = (step s c).map fun s' => (writes c).piecewise s' t

/-- The first call writes nothing that the second one names. -/
def Spares (names writes : β → Set κ) (c c' : β) : Prop := Disjoint (writes c) (names c')

/-- Neighbours that spare each other have changed places. -/
def Exchange (names writes : β → Set κ) (calls calls' : List β) : Prop :=
  ∃ before c c' after, calls = before ++ c :: c' :: after ∧ calls' = before ++ c' :: c :: after ∧
    Spares names writes c c' ∧ Spares names writes c' c

section
variable {σ : Type*} (step : σ → β → Except ε σ)

/-- How a call is answered: with an error or with none. -/
def answer (s : σ) (c : β) : Option ε :=
  match step s c with
  | .ok _ => none
  | .error e => some e

/-- The calls of a run with their answers. -/
def answers : σ → List β → List (β × Option ε)
  | _, [] => []
  | s, c :: calls => (c, answer step s c) :: answers (exec step s c) calls

variable {step}

theorem answers_append (s : σ) (first second : List β) :
    answers step s (first ++ second) =
      answers step s first ++ answers step (run step s first) second := by
  induction first generalizing s with
  | nil => rfl
  | cons c first ih => rw [List.cons_append, answers, answers, ih, run_cons, List.cons_append]

end

namespace Confined

variable {step : (κ → α) → β → Except ε (κ → α)} {names writes : β → Set κ} {s t : κ → α}
  {c c' : β} {calls calls' : List β}

/-- It is enough that the cells that are not named come along, and that of the others those that are
not written stay. -/
theorem of_piecewise (hsubset : ∀ c, writes c ⊆ names c)
    (hnames : ∀ s t c, step ((names c).piecewise s t) c =
      (step s c).map fun s' => (names c).piecewise s' t)
    (hwrites : ∀ s s' c, step s c = .ok s' → ∀ k ∈ names c, k ∉ writes c → s' k = s k) :
    Confined step names writes where
  writes_subset := hsubset
  step_eq {s t c} h := by
    have ht : (names c).piecewise s t = t := by
      funext k
      by_cases hk : k ∈ names c
      · simp [hk, h hk]
      · simp [hk]
    have hstep := hnames s t c
    rw [ht] at hstep
    rw [hstep]
    cases hs : step s c with
    | error e => rfl
    | ok s' =>
      apply congrArg Except.ok
      funext k
      by_cases hw : k ∈ writes c
      · simp [hw, hsubset c hw]
      · by_cases hk : k ∈ names c
        · simp [hw, hk, hwrites s s' c hs k hk hw, h hk]
        · simp [hw, hk]

private theorem answer_eq (h : Confined step names writes) (heq : EqOn s t (names c)) :
    answer step t c = answer step s c := by
  unfold answer
  rw [h.step_eq heq]
  cases step s c <;> rfl

private theorem exec_eq (h : Confined step names writes) (heq : EqOn s t (names c)) :
    exec step t c = (writes c).piecewise (exec step s c) t := by
  have hstep := h.step_eq heq
  cases hs : step s c with
  | ok s' =>
    rw [hs] at hstep
    rw [exec_ok hs, exec_ok hstep]
  | error e =>
    rw [hs] at hstep
    rw [exec_error hs, exec_error hstep]
    funext k
    by_cases hk : k ∈ writes c
    · simp [hk, heq (h.writes_subset c hk)]
    · simp [hk]

private theorem exec_of_notMem (h : Confined step names writes) {k : κ} (hk : k ∉ writes c) :
    exec step s c k = s k := by
  rw [h.exec_eq (eqOn_refl s _)]
  simp [hk]

/-! ## Regions -/

private theorem eqOn_exec (h : Confined step names writes) {N : Set κ} (heq : EqOn s t N)
    (hnames : names c ⊆ N) : EqOn (exec step s c) (exec step t c) N := by
  intro k hk
  rw [h.exec_eq (heq.mono hnames)]
  by_cases hw : k ∈ writes c
  · simp [hw]
  · simp [hw, h.exec_of_notMem hw, heq hk]

private theorem eqOn_exec_of_disjoint (h : Confined step names writes) {N : Set κ}
    (hwrites : Disjoint (writes c) N) : EqOn (exec step s c) s N :=
  fun _ hk => h.exec_of_notMem fun hw => Set.disjoint_left.mp hwrites hw hk

/-- What goes on in a region is the same without the calls that do not write there. -/
theorem undisturbed (h : Confined step names writes) {N : Set κ} {p : β → Bool}
    (hwithin : ∀ c ∈ calls, p c = true → names c ⊆ N)
    (hwithout : ∀ c ∈ calls, p c = false → Disjoint (writes c) N) (heq : EqOn s t N) :
    EqOn (run step s calls) (run step t (calls.filter p)) N ∧
      (answers step s calls).filter (fun a => p a.1) = answers step t (calls.filter p) := by
  induction calls generalizing s t with
  | nil => exact ⟨heq, rfl⟩
  | cons c calls ih =>
    rw [List.forall_mem_cons] at hwithin hwithout
    rw [run_cons, answers]
    cases hp : p c with
    | true =>
      have hc : names c ⊆ N := hwithin.1 hp
      obtain ⟨hrun, hanswers⟩ := ih hwithin.2 hwithout.2 (h.eqOn_exec heq hc)
      simp only [List.filter_cons, hp, if_true, run_cons, answers, hanswers,
        h.answer_eq (heq.mono hc), and_true]
      exact hrun
    | false =>
      have hc : EqOn (exec step s c) s N := h.eqOn_exec_of_disjoint (hwithout.1 hp)
      simpa only [List.filter_cons, hp, Bool.false_eq_true, if_false] using
        ih hwithin.2 hwithout.2 (hc.trans heq)

/-! ## Neighbours -/

theorem exec_comm (h : Confined step names writes) (hspares : Spares names writes c c')
    (hspares' : Spares names writes c' c) :
    exec step (exec step s c) c' = exec step (exec step s c') c := by
  rw [h.exec_eq (h.eqOn_exec_of_disjoint hspares).symm,
    h.exec_eq (h.eqOn_exec_of_disjoint hspares').symm]
  funext k
  by_cases hk : k ∈ writes c
  · have hk' : k ∉ writes c' := fun hw =>
      Set.disjoint_left.mp hspares' hw (h.writes_subset c hk)
    simp [hk, hk']
  · by_cases hk' : k ∈ writes c'
    · simp [hk, hk']
    · simp [hk, hk', h.exec_of_notMem hk, h.exec_of_notMem hk']

theorem exchange (h : Confined step names writes) (hex : Exchange names writes calls calls')
    (s : κ → α) : run step s calls = run step s calls' ∧
      (answers step s calls).Perm (answers step s calls') := by
  obtain ⟨before, c, c', after, rfl, rfl, hspares, hspares'⟩ := hex
  have hcomm := h.exec_comm (s := run step s before) hspares hspares'
  have hc' := h.answer_eq (h.eqOn_exec_of_disjoint (s := run step s before) hspares).symm
  have hc := h.answer_eq (h.eqOn_exec_of_disjoint (s := run step s before) hspares').symm
  constructor
  · rw [run_append, run_append, run_cons, run_cons, run_cons, run_cons, hcomm]
  · rw [answers_append, answers_append, answers, answers, answers, answers, hcomm, hc, hc']
    exact (List.Perm.swap _ _ _).append_left _

/-- Calls may change places as long as those that do not spare each other keep their order: the run
ends alike, and each call has the same answer. -/
theorem reorder (h : Confined step names writes)
    (hre : Relation.ReflTransGen (Exchange names writes) calls calls') (s : κ → α) :
    run step s calls = run step s calls' ∧
      (answers step s calls).Perm (answers step s calls') := by
  induction hre with
  | refl => exact ⟨rfl, .rfl⟩
  | tail _ hex ih => exact ⟨ih.1.trans (h.exchange hex s).1, ih.2.trans (h.exchange hex s).2⟩

end Confined

end Coin98Vault.Footprint

import Mathlib.Algebra.BigOperators.Group.Finset.Piecewise
import Mathlib.Algebra.BigOperators.Group.List.Basic
import Mathlib.Algebra.Ring.Nat

/-!
# Ledgers

Balances over any kind of account, and moves between them.  A batch whose debits are covered
from the start can be made in every order, and its order leaves no trace in the balances.
-/

namespace Coin98Vault.Ledger

variable {κ : Type*} [DecidableEq κ]

structure Move (κ : Type*) where
  source : κ
  target : κ
  amount : Nat

def Move.debit (m : Move κ) (k : κ) : Nat := if k = m.source then m.amount else 0
def Move.credit (m : Move κ) (k : κ) : Nat := if k = m.target then m.amount else 0

/-- The balances after a move; source and target may be one account. -/
def Move.apply (m : Move κ) (balance : κ → Nat) : κ → Nat :=
  fun k => balance k - m.debit k + m.credit k

def debits (moves : List (Move κ)) (k : κ) : Nat := (moves.map fun m => m.debit k).sum
def credits (moves : List (Move κ)) (k : κ) : Nat := (moves.map fun m => m.credit k).sum

/-- Make the moves one after the other. -/
def settle (moves : List (Move κ)) (balance : κ → Nat) : κ → Nat :=
  moves.foldl (fun balance m => m.apply balance) balance

/-- The balances pay for all moves, without any of the credits. -/
def Covers (balance : κ → Nat) (moves : List (Move κ)) : Prop :=
  ∀ k, debits moves k ≤ balance k

variable {m : Move κ} {moves moves' : List (Move κ)} {balance : κ → Nat}

@[simp] theorem settle_nil (balance : κ → Nat) : settle [] balance = balance := rfl

@[simp] theorem settle_cons (m : Move κ) (moves : List (Move κ)) (balance : κ → Nat) :
    settle (m :: moves) balance = settle moves (m.apply balance) := rfl

theorem settle_append (moves moves' : List (Move κ)) (balance : κ → Nat) :
    settle (moves ++ moves') balance = settle moves' (settle moves balance) :=
  List.foldl_append

@[simp] theorem debits_nil (k : κ) : debits [] k = 0 := rfl
@[simp] theorem credits_nil (k : κ) : credits [] k = 0 := rfl

@[simp] theorem debits_cons (m : Move κ) (moves : List (Move κ)) (k : κ) :
    debits (m :: moves) k = m.debit k + debits moves k := by
  simp [debits]

@[simp] theorem credits_cons (m : Move κ) (moves : List (Move κ)) (k : κ) :
    credits (m :: moves) k = m.credit k + credits moves k := by
  simp [credits]

theorem debits_eq_zero {k : κ} (h : ∀ m ∈ moves, m.source ≠ k) : debits moves k = 0 := by
  induction moves with
  | nil => rfl
  | cons m moves ih =>
    have hm : k ≠ m.source := (h m List.mem_cons_self).symm
    rw [debits_cons, ih fun m' hm' => h m' (List.mem_cons_of_mem _ hm'), Move.debit, if_neg hm]

private theorem covers_iff :
    Covers balance moves ↔ ∀ m ∈ moves, debits moves m.source ≤ balance m.source := by
  constructor
  · intro h m _
    exact h m.source
  · intro h k
    by_cases hany : ∃ m ∈ moves, m.source = k
    · obtain ⟨m, hm, rfl⟩ := hany
      exact h m hm
    · rw [debits_eq_zero fun m hm he => hany ⟨m, hm, he⟩]
      exact Nat.zero_le _

instance (balance : κ → Nat) (moves : List (Move κ)) : Decidable (Covers balance moves) :=
  decidable_of_iff _ covers_iff.symm

theorem debits_append (moves moves' : List (Move κ)) (k : κ) :
    debits (moves ++ moves') k = debits moves k + debits moves' k := by
  simp [debits]

theorem Covers.head (h : Covers balance (m :: moves)) : m.amount ≤ balance m.source := by
  have hm := h m.source
  rw [debits_cons, Move.debit, if_pos rfl] at hm
  omega

/-- Credits only help: what is left still pays for the rest. -/
theorem Covers.tail (h : Covers balance (m :: moves)) : Covers (m.apply balance) moves := by
  intro k
  have hk := h k
  rw [debits_cons] at hk
  unfold Move.apply
  omega

theorem Covers.of_append_right (h : Covers balance (moves ++ moves')) :
    Covers (settle moves balance) moves' := by
  induction moves generalizing balance with
  | nil => exact h
  | cons m moves ih =>
    apply ih
    exact Covers.tail h

theorem Covers.of_append_left (h : Covers balance (moves ++ moves')) : Covers balance moves := by
  intro k
  have hk := h k
  rw [debits_append] at hk
  omega

/-- The balances after a covered batch, in terms of what it debits and credits. -/
theorem Covers.settle_add (h : Covers balance moves) (k : κ) :
    settle moves balance k + debits moves k = balance k + credits moves k := by
  induction moves generalizing balance with
  | nil => rfl
  | cons m moves ih =>
    have hrest := ih h.tail
    have hk := h k
    rw [debits_cons] at hk
    rw [settle_cons, debits_cons, credits_cons]
    unfold Move.apply at hrest ⊢
    omega

theorem debits_perm (h : moves.Perm moves') (k : κ) : debits moves k = debits moves' k :=
  (h.map _).sum_eq

theorem credits_perm (h : moves.Perm moves') (k : κ) : credits moves k = credits moves' k :=
  (h.map _).sum_eq

theorem Covers.perm (h : Covers balance moves) (hp : moves.Perm moves') :
    Covers balance moves' := by
  intro k
  rw [← debits_perm hp]
  exact h k

/-- The order of a covered batch leaves no trace. -/
theorem Covers.settle_perm (h : Covers balance moves) (hp : moves.Perm moves') :
    settle moves balance = settle moves' balance := by
  funext k
  have hfirst := h.settle_add k
  have hsecond := (h.perm hp).settle_add k
  rw [← debits_perm hp, ← credits_perm hp] at hsecond
  omega

/-! ## Histories of moves -/

/-- Each move is paid for when its turn comes, by credits of earlier ones too. -/
def Funded : (κ → Nat) → List (Move κ) → Prop
  | _, [] => True
  | balance, m :: moves => m.amount ≤ balance m.source ∧ Funded (m.apply balance) moves

@[simp] theorem funded_nil (balance : κ → Nat) : Funded balance [] := trivial

@[simp] theorem funded_cons : Funded balance (m :: moves) ↔
    m.amount ≤ balance m.source ∧ Funded (m.apply balance) moves := Iff.rfl

theorem funded_append : Funded balance (moves ++ moves') ↔
    Funded balance moves ∧ Funded (settle moves balance) moves' := by
  induction moves generalizing balance with
  | nil => simp
  | cons m moves ih => simp only [List.cons_append, funded_cons, settle_cons, ih, and_assoc]

theorem Covers.funded (h : Covers balance moves) : Funded balance moves := by
  induction moves generalizing balance with
  | nil => trivial
  | cons m moves ih => exact ⟨h.head, ih h.tail⟩

/-- A single move is covered when it is paid for. -/
theorem Funded.covers (h : Funded balance moves) (hlength : moves.length ≤ 1) :
    Covers balance moves := by
  cases moves with
  | nil => simp [covers_iff]
  | cons m rest =>
    obtain rfl : rest = [] := by simpa using hlength
    rw [covers_iff]
    intro m' hm'
    obtain rfl := List.mem_singleton.mp hm'
    simpa [Move.debit] using h.1

theorem Move.apply_add (h : m.amount ≤ balance m.source) (k : κ) :
    m.apply balance k + m.debit k = balance k + m.credit k := by
  have hdebit : m.debit k ≤ balance k := by
    unfold Move.debit
    split
    · rename_i hk
      rw [hk]
      exact h
    · exact Nat.zero_le _
  unfold Move.apply
  omega

/-- The balances after a history, in terms of what it debits and credits. -/
theorem Funded.settle_add (h : Funded balance moves) (k : κ) :
    settle moves balance k + debits moves k = balance k + credits moves k := by
  induction moves generalizing balance with
  | nil => rfl
  | cons m moves ih =>
    have hfirst := m.apply_add h.1 k
    have hrest := ih h.2
    rw [settle_cons, debits_cons, credits_cons]
    omega

private theorem Move.sum_apply (h : m.amount ≤ balance m.source) {S : Finset κ}
    (hS : m.source ∈ S ↔ m.target ∈ S) : ∑ k ∈ S, m.apply balance k = ∑ k ∈ S, balance k := by
  have hsum : ∑ k ∈ S, (m.apply balance k + m.debit k) = ∑ k ∈ S, (balance k + m.credit k) :=
    Finset.sum_congr rfl fun k _ => m.apply_add h k
  have hsides : ∑ k ∈ S, m.debit k = ∑ k ∈ S, m.credit k := by
    simp only [Move.debit, Move.credit, Finset.sum_ite_eq', hS]
  rw [Finset.sum_add_distrib, Finset.sum_add_distrib, hsides] at hsum
  exact Nat.add_right_cancel hsum

/-- Moves that stay inside a set of accounts, or outside it, leave its total as it was. -/
theorem Funded.sum_settle (h : Funded balance moves) {S : Finset κ}
    (hS : ∀ m ∈ moves, m.source ∈ S ↔ m.target ∈ S) :
    ∑ k ∈ S, settle moves balance k = ∑ k ∈ S, balance k := by
  induction moves generalizing balance with
  | nil => rfl
  | cons m moves ih =>
    rw [settle_cons, ih h.2 fun m' hm' => hS m' (List.mem_cons_of_mem _ hm')]
    exact m.sum_apply h.1 (hS m List.mem_cons_self)

private theorem credits_eq_zero {k : κ} (h : ∀ m ∈ moves, m.target ≠ k) : credits moves k = 0 := by
  induction moves with
  | nil => rfl
  | cons m moves ih =>
    have hm : k ≠ m.target := (h m List.mem_cons_self).symm
    rw [credits_cons, ih fun m' hm' => h m' (List.mem_cons_of_mem _ hm'), Move.credit, if_neg hm]

theorem settle_untouched {k : κ} (h : ∀ m ∈ moves, m.source ≠ k ∧ m.target ≠ k) :
    settle moves balance k = balance k := by
  induction moves generalizing balance with
  | nil => rfl
  | cons m moves ih =>
    obtain ⟨hs, ht⟩ := h m List.mem_cons_self
    rw [settle_cons, ih fun m' hm' => h m' (List.mem_cons_of_mem _ hm')]
    simp [Move.apply, Move.debit, Move.credit, hs.symm, ht.symm]

/-! ## Cash books -/

/-- Make a move if its source pays for it. -/
def Move.attempt (m : Move κ) (balance : κ → Nat) : κ → Nat :=
  if m.amount ≤ balance m.source then m.apply balance else balance

/-- Try the moves one after the other. -/
def attemptAll (moves : List (Move κ)) (balance : κ → Nat) : κ → Nat :=
  moves.foldl (fun balance m => m.attempt balance) balance

@[simp] theorem attemptAll_nil (balance : κ → Nat) : attemptAll [] balance = balance := rfl

@[simp] theorem attemptAll_cons (m : Move κ) (moves : List (Move κ)) (balance : κ → Nat) :
    attemptAll (m :: moves) balance = attemptAll moves (m.attempt balance) := rfl

theorem Funded.attemptAll_eq (h : Funded balance moves) :
    attemptAll moves balance = settle moves balance := by
  induction moves generalizing balance with
  | nil => rfl
  | cons m moves ih => rw [attemptAll_cons, Move.attempt, if_pos h.1, ih h.2, settle_cons]

/-- Moves that empty the accounts they start from, into others. -/
structure Empties (balance : κ → Nat) (moves : List (Move κ)) : Prop where
  all : ∀ m ∈ moves, m.amount = balance m.source
  distinct : (moves.map Move.source).Nodup
  outward : ∀ m ∈ moves, ∀ m' ∈ moves, m.target ≠ m'.source

omit [DecidableEq κ] in
theorem Empties.perm (h : Empties balance moves) (hp : moves.Perm moves') :
    Empties balance moves' where
  all m hm := h.all m (hp.mem_iff.mpr hm)
  distinct := (hp.map _).nodup_iff.mp h.distinct
  outward m hm m' hm' := h.outward m (hp.mem_iff.mpr hm) m' (hp.mem_iff.mpr hm')

private theorem debits_of_distinct (h : (moves.map Move.source).Nodup) (hm : m ∈ moves) :
    debits moves m.source = m.amount := by
  induction moves with
  | nil => cases hm
  | cons m' moves ih =>
    rw [List.map_cons, List.nodup_cons] at h
    obtain ⟨hnew, hrest⟩ := h
    rw [debits_cons, Move.debit]
    rcases List.mem_cons.mp hm with rfl | hm
    · have hothers : debits moves m.source = 0 := by
        apply debits_eq_zero
        intro m' hm' he
        exact hnew (List.mem_map.mpr ⟨m', hm', he⟩)
      rw [if_pos rfl, hothers, Nat.add_zero]
    · have hne : m.source ≠ m'.source := fun he => hnew (he ▸ List.mem_map_of_mem hm)
      rw [if_neg hne, ih hrest hm, Nat.zero_add]

theorem Empties.covers (h : Empties balance moves) : Covers balance moves := by
  rw [covers_iff]
  intro m hm
  rw [debits_of_distinct h.distinct hm, h.all m hm]

theorem Empties.settle_source (h : Empties balance moves) (hm : m ∈ moves) :
    settle moves balance m.source = 0 := by
  have hadd := h.covers.settle_add m.source
  rw [debits_of_distinct h.distinct hm, h.all m hm,
    credits_eq_zero fun m' hm' => h.outward m' hm' m hm] at hadd
  omega

end Coin98Vault.Ledger

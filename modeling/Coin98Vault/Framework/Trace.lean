import Mathlib.Data.List.Induction

/-!
# Runs of a partial step function

A call either takes a step or fails and is rolled back.  A run is a list of calls; its
history is read off the prefixes of that list.
-/

namespace Coin98Vault.Trace

variable {σ α ε : Type*} (step : σ → α → Except ε σ)

/-- A failing call leaves the state as it found it. -/
def exec (s : σ) (a : α) : σ :=
  match step s a with
  | .ok s' => s'
  | .error _ => s

def run (s : σ) (calls : List α) : σ := calls.foldl (exec step) s

/-- The call takes a step. -/
def Succeeds (s : σ) (a : α) : Prop := ∃ s', step s a = .ok s'

/-- Every call of the run takes a step. -/
def AllSucceed (s : σ) (calls : List α) : Prop :=
  ∀ before a after, calls = before ++ a :: after → Succeeds step (run step s before) a

/-- Some call of the run succeeds and satisfies `Q` in the state it finds. -/
def Occurs (Q : σ → α → Prop) (s : σ) (calls : List α) : Prop :=
  ∃ before a after, calls = before ++ a :: after ∧ Succeeds step (run step s before) a ∧
    Q (run step s before) a

/-- The call `a`, made after `before`, is the last of the run to succeed with `Q`. -/
def Latest (Q : σ → α → Prop) (s : σ) (calls before : List α) (a : α) : Prop :=
  ∃ after, calls = before ++ a :: after ∧ Succeeds step (run step s before) a ∧
    Q (run step s before) a ∧ ¬ Occurs step Q (run step s (before ++ [a])) after

variable {step}

theorem exec_ok {s s' : σ} {a : α} (h : step s a = .ok s') : exec step s a = s' := by
  simp [exec, h]

theorem exec_error {s : σ} {a : α} {e : ε} (h : step s a = .error e) : exec step s a = s := by
  simp [exec, h]

theorem succeeds_iff {s : σ} {a : α} : Succeeds step s a ↔ (step s a).isOk = true := by
  unfold Succeeds
  cases step s a <;> simp [Except.isOk, Except.toBool]

instance (s : σ) (a : α) : Decidable (Succeeds step s a) :=
  decidable_of_iff _ succeeds_iff.symm

theorem Succeeds.step_eq {s : σ} {a : α} (h : Succeeds step s a) :
    step s a = .ok (exec step s a) := by
  obtain ⟨s', h⟩ := h
  rw [h, exec_ok h]

theorem not_succeeds_of_error {s : σ} {a : α} {e : ε} (h : step s a = .error e) :
    ¬ Succeeds step s a := by
  intro hs
  rw [hs.step_eq] at h
  cases h

@[simp] theorem run_nil (s : σ) : run step s [] = s := rfl

@[simp] theorem run_cons (s : σ) (a : α) (calls : List α) :
    run step s (a :: calls) = run step (exec step s a) calls := rfl

theorem run_append (s : σ) (first second : List α) :
    run step s (first ++ second) = run step (run step s first) second :=
  List.foldl_append

theorem run_concat (s : σ) (calls : List α) (a : α) :
    run step s (calls ++ [a]) = exec step (run step s calls) a := by
  rw [run_append, run_cons, run_nil]

theorem allSucceed_nil (s : σ) : AllSucceed step s [] := by
  intro before a after h
  simp at h

/-- What holds of every call of a run, with the calls before it: of the first, and of the rest. -/
theorem forall_split_cons {P : List α → α → Prop} {a : α} {calls : List α} (ha : P [] a)
    (h : ∀ before b after, calls = before ++ b :: after → P (a :: before) b) :
    ∀ before b after, a :: calls = before ++ b :: after → P before b := by
  intro before b after hcalls
  cases before with
  | nil =>
    rw [List.nil_append, List.cons.injEq] at hcalls
    obtain ⟨rfl, -⟩ := hcalls
    exact ha
  | cons c before =>
    rw [List.cons_append, List.cons.injEq] at hcalls
    obtain ⟨rfl, hrest⟩ := hcalls
    exact h before b after hrest

theorem AllSucceed.cons {s s' : σ} {a : α} {calls : List α} (ha : step s a = .ok s')
    (h : AllSucceed step s' calls) : AllSucceed step s (a :: calls) := by
  refine forall_split_cons (P := fun before b => Succeeds step (run step s before) b) ⟨s', ha⟩ ?_
  intro before b after hrest
  rw [run_cons, exec_ok ha]
  exact h before b after hrest

/-- Induction over the prefixes of a run: one case for a step, one for a rolled back call. -/
theorem run_induction {P : List α → σ → Prop} (s : σ) (calls : List α) (h0 : P [] s)
    (hok : ∀ before a after s', calls = before ++ a :: after → P before (run step s before) →
      step (run step s before) a = .ok s' → P (before ++ [a]) s')
    (herr : ∀ before a e, P before (run step s before) →
      step (run step s before) a = .error e → P (before ++ [a]) (run step s before)) :
    P calls (run step s calls) := by
  suffices h : ∀ p, p <+: calls → P p (run step s p) from h calls List.prefix_rfl
  intro p
  induction p using List.reverseRecOn with
  | nil => exact fun _ => h0
  | append_singleton p a ih =>
    intro hp
    have hbefore := ih ((List.prefix_append p [a]).trans hp)
    obtain ⟨after, hafter⟩ := hp
    have hcalls : calls = p ++ a :: after := by rw [← hafter, List.append_assoc]; rfl
    rw [run_concat]
    cases h : step (run step s p) a with
    | ok s' => rw [exec_ok h]; exact hok p a after s' hcalls hbefore h
    | error e => rw [exec_error h]; exact herr p a e hbefore h

/-- What every step preserves, a run preserves. -/
theorem run_invariant {P : σ → Prop} (s : σ) (calls : List α) (h0 : P s)
    (hstep : ∀ t a t', a ∈ calls → P t → step t a = .ok t' → P t') : P (run step s calls) :=
  run_induction (P := fun _ => P) s calls h0
    (fun _ a _ s' hc hp h => hstep _ a s' (by simp [hc]) hp h) (fun _ _ _ hp _ => hp)

/-- A part of the state that every step keeps, but for changes by `R`, is kept by a run. -/
theorem run_keeps {β : Type*} (f : σ → Option β) (R : β → β → Prop) (hrefl : ∀ x, R x x)
    (htrans : ∀ x y z, R x y → R y z → R x z)
    (hstep : ∀ s a s' x, step s a = .ok s' → f s = some x → ∃ x', f s' = some x' ∧ R x x')
    {s : σ} {x : β} (hx : f s = some x) (calls : List α) :
    ∃ x', f (run step s calls) = some x' ∧ R x x' := by
  apply run_invariant (P := fun t => ∃ x', f t = some x' ∧ R x x') s calls ⟨x, hx, hrefl x⟩
  intro t a t' _ ht hok
  obtain ⟨y, hy, hxy⟩ := ht
  obtain ⟨z, hz, hyz⟩ := hstep t a t' y hok hy
  exact ⟨z, hz, htrans x y z hxy hyz⟩

@[simp] theorem not_occurs_nil (Q : σ → α → Prop) (s : σ) : ¬ Occurs step Q s [] := by
  rintro ⟨before, a, after, h, -⟩
  simp at h

theorem Occurs.mono {Q R : σ → α → Prop} {s : σ} {calls : List α} (h : Occurs step Q s calls)
    (hqr : ∀ t a, Q t a → R t a) : Occurs step R s calls := by
  obtain ⟨before, a, after, hcalls, hs, hq⟩ := h
  exact ⟨before, a, after, hcalls, hs, hqr _ _ hq⟩

/-- The last call of a run is the event, or the event lies before it. -/
theorem occurs_concat (Q : σ → α → Prop) (s : σ) (calls : List α) (a : α) :
    Occurs step Q s (calls ++ [a]) ↔
      Occurs step Q s calls ∨ (Succeeds step (run step s calls) a ∧ Q (run step s calls) a) := by
  constructor
  · rintro ⟨before, b, after, h, hs, hq⟩
    rcases List.eq_nil_or_concat after with rfl | ⟨rest, c, rfl⟩
    · obtain ⟨rfl, hab⟩ := List.append_inj' h rfl
      obtain rfl : a = b := by simpa using hab
      exact .inr ⟨hs, hq⟩
    · rw [List.concat_eq_append, ← List.cons_append, ← List.append_assoc] at h
      exact .inl ⟨before, b, rest, (List.append_inj' h rfl).1, hs, hq⟩
  · rintro (⟨before, b, after, rfl, hs, hq⟩ | ⟨hs, hq⟩)
    · exact ⟨before, b, after ++ [a], by simp, hs, hq⟩
    · exact ⟨calls, a, [], rfl, hs, hq⟩

theorem occurs_concat_of_not {Q : σ → α → Prop} {s : σ} {calls : List α} {a : α}
    (h : ¬ (Succeeds step (run step s calls) a ∧ Q (run step s calls) a)) :
    Occurs step Q s (calls ++ [a]) ↔ Occurs step Q s calls := by
  rw [occurs_concat]
  exact or_iff_left h

theorem Latest.concat_new {Q : σ → α → Prop} {s : σ} {calls : List α} {a : α}
    (hs : Succeeds step (run step s calls) a) (hq : Q (run step s calls) a) :
    Latest step Q s (calls ++ [a]) calls a :=
  ⟨[], rfl, hs, hq, not_occurs_nil Q _⟩

theorem Latest.concat_old {Q : σ → α → Prop} {s : σ} {calls before : List α} {a b : α}
    (h : Latest step Q s calls before a)
    (hb : ¬ (Succeeds step (run step s calls) b ∧ Q (run step s calls) b)) :
    Latest step Q s (calls ++ [b]) before a := by
  obtain ⟨after, rfl, hs, hq, hnone⟩ := h
  refine ⟨after ++ [b], by simp, hs, hq, ?_⟩
  rw [occurs_concat, ← run_append]
  rintro (h | h)
  · exact hnone h
  · exact hb (by simpa using h)

/-- An event with no `R` after it lies after every `R` of the run. -/
theorem occurs_after {Q R : σ → α → Prop} {s : σ} {before middle before' between : List α}
    {a t : α} (h : before ++ a :: middle = before' ++ t :: between)
    (ha : Succeeds step (run step s before) a) (hr : R (run step s before) a)
    (ht : Succeeds step (run step s before') t) (hq : Q (run step s before') t)
    (hne : ¬ R (run step s before') t)
    (hnone : ¬ Occurs step R (run step s (before' ++ [t])) between) :
    Occurs step Q (run step s (before ++ [a])) middle := by
  rcases List.append_eq_append_iff.mp h with ⟨mid, rfl, hmid⟩ | ⟨mid, rfl, hmid⟩
  · rcases mid with _ | ⟨c, mid⟩
    · -- the event would be the `R` itself
      simp only [List.nil_append, List.cons.injEq] at hmid
      obtain ⟨rfl, rfl⟩ := hmid
      simp only [List.append_nil] at hne
      exact absurd hr hne
    · rw [List.cons_append, List.cons.injEq] at hmid
      obtain ⟨rfl, rfl⟩ := hmid
      refine ⟨mid, t, between, rfl, ?_, ?_⟩
      · simpa [run_append] using ht
      · simpa [run_append] using hq
  · rcases mid with _ | ⟨c, mid⟩
    · simp only [List.nil_append, List.cons.injEq] at hmid
      obtain ⟨rfl, rfl⟩ := hmid
      simp only [List.append_nil] at hr
      exact absurd hr hne
    · rw [List.cons_append, List.cons.injEq] at hmid
      obtain ⟨rfl, rfl⟩ := hmid
      refine absurd ⟨mid, a, middle, rfl, ?_, ?_⟩ hnone
      · simpa [run_append] using ha
      · simpa [run_append] using hr

/-! ## Logs -/

section
variable {β τ : Type*}

/-- What the successful calls of a run emit, in their order. -/
def log (step : σ → α → Except ε σ) (emit : σ → α → List β) : σ → List α → List β
  | _, [] => []
  | s, a :: calls =>
    (if Succeeds step s a then emit s a else []) ++ log step emit (exec step s a) calls

variable {emit : σ → α → List β}

@[simp] theorem log_nil (s : σ) : log step emit s [] = [] := rfl

theorem log_append (s : σ) (first second : List α) :
    log step emit s (first ++ second) =
      log step emit s first ++ log step emit (run step s first) second := by
  induction first generalizing s with
  | nil => rfl
  | cons a first ih => rw [List.cons_append, log, log, ih, run_cons, List.append_assoc]

theorem log_concat_ok {s s' : σ} {calls : List α} {a : α}
    (h : step (run step s calls) a = .ok s') :
    log step emit s (calls ++ [a]) = log step emit s calls ++ emit (run step s calls) a := by
  rw [log_append, log, log_nil, List.append_nil, if_pos ⟨s', h⟩]

theorem log_concat_error {s : σ} {calls : List α} {a : α} {e : ε}
    (h : step (run step s calls) a = .error e) :
    log step emit s (calls ++ [a]) = log step emit s calls := by
  rw [log_append, log, log_nil, List.append_nil, if_neg (not_succeeds_of_error h), List.append_nil]

/-- Induction over a run together with its log. -/
theorem log_induction {P : List β → σ → Prop} (s : σ) (calls : List α) (h0 : P [] s)
    (hstep : ∀ before a after t', calls = before ++ a :: after →
      P (log step emit s before) (run step s before) → step (run step s before) a = .ok t' →
      P (log step emit s before ++ emit (run step s before) a) t') :
    P (log step emit s calls) (run step s calls) := by
  refine run_induction (P := fun before t => P (log step emit s before) t) s calls h0 ?_ ?_
  · intro before a after t' hcalls hbefore hok
    rw [log_concat_ok hok]
    exact hstep before a after t' hcalls hbefore hok
  · intro before a e hbefore herr
    rw [log_concat_error herr]
    exact hbefore

theorem mem_log {s : σ} {calls : List α} {x : β} :
    x ∈ log step emit s calls ↔ ∃ before a after, calls = before ++ a :: after ∧
      Succeeds step (run step s before) a ∧ x ∈ emit (run step s before) a := by
  constructor
  · induction calls generalizing s with
    | nil => simp
    | cons a calls ih =>
      intro hx
      rw [log, List.mem_append] at hx
      rcases hx with hx | hx
      · by_cases hs : Succeeds step s a
        · rw [if_pos hs] at hx
          exact ⟨[], a, calls, rfl, hs, hx⟩
        · rw [if_neg hs] at hx
          cases hx
      · obtain ⟨before, b, after, rfl, hs, hx⟩ := ih hx
        exact ⟨a :: before, b, after, rfl, hs, hx⟩
  · rintro ⟨before, a, after, rfl, hs, hx⟩
    rw [log_append, log, if_pos hs]
    exact List.mem_append_right _ (List.mem_append_left _ hx)

/-- A forward simulation: where every step is answered by an abstract machine on what the step
emits, the log of a run is a history of that machine. -/
theorem log_simulates {next : τ → β → Option τ} {R : σ → τ → Prop} {s : σ} {t₀ : τ}
    (calls : List α) (h0 : R s t₀)
    (hstep : ∀ before a after s' t, calls = before ++ a :: after → R (run step s before) t →
      step (run step s before) a = .ok s' →
      ∃ t', (emit (run step s before) a).foldlM next t = some t' ∧ R s' t') :
    ∃ t, (log step emit s calls).foldlM next t₀ = some t ∧ R (run step s calls) t := by
  apply log_induction (P := fun events s' => ∃ t, events.foldlM next t₀ = some t ∧ R s' t)
  · exact ⟨t₀, rfl, h0⟩
  · intro before a after s' hcalls hbefore hok
    obtain ⟨t, ht, hrel⟩ := hbefore
    obtain ⟨t', ht', hrel'⟩ := hstep before a after s' t hcalls hrel hok
    refine ⟨t', ?_, hrel'⟩
    rw [List.foldlM_append, ht]
    exact ht'

end

/-! ## Tasks that are done once

Attempts come in any order, too early and again and again.  What they come to depends on the tasks
only that some attempt was right for. -/

/-- When an attempt does its task if the task is still to be done, and changes nothing otherwise, a
list of attempts does each of its tasks once.  `State done s` says what the state `s` is when these
tasks have been done. -/
theorem foldl_once {τ : Type*} {attempt : σ → α → σ} {State : List τ → σ → Prop}
    {task : α → Option τ} {attempts : List α} {s : σ} (hstart : State [] s)
    (hdo : ∀ done s a t, State done s → (∀ u ∈ done, ∃ a' ∈ attempts, task a' = some u) →
      done.Nodup → a ∈ attempts → task a = some t → t ∉ done → State (done ++ [t]) (attempt s a))
    (hagain : ∀ done s a t, State done s → (∀ u ∈ done, ∃ a' ∈ attempts, task a' = some u) →
      a ∈ attempts → task a = some t → t ∈ done → attempt s a = s)
    (hnone : ∀ done s a, State done s → (∀ u ∈ done, ∃ a' ∈ attempts, task a' = some u) →
      a ∈ attempts → task a = none → attempt s a = s) :
    ∃ done, done.Nodup ∧ (∀ t, t ∈ done ↔ ∃ a ∈ attempts, task a = some t) ∧
      State done (attempts.foldl attempt s) := by
  suffices h : ∀ p, p <+: attempts → ∃ done, done.Nodup ∧
      (∀ t, t ∈ done ↔ ∃ a ∈ p, task a = some t) ∧ State done (p.foldl attempt s) from
    h attempts List.prefix_rfl
  intro p
  induction p using List.reverseRecOn with
  | nil => exact fun _ => ⟨[], List.nodup_nil, by simp, hstart⟩
  | append_singleton p a ih =>
    intro hp
    obtain ⟨done, hnodup, hmem, hstate⟩ := ih ((List.prefix_append p [a]).trans hp)
    have hsub : ∀ u ∈ done, ∃ a' ∈ attempts, task a' = some u := by
      intro u hu
      obtain ⟨a', ha', htask⟩ := (hmem u).mp hu
      exact ⟨a', hp.subset (List.mem_append_left [a] ha'), htask⟩
    have ha : a ∈ attempts := hp.subset (List.mem_append_right p (List.mem_singleton_self a))
    have hconcat (u : τ) : (∃ x ∈ p ++ [a], task x = some u) ↔ u ∈ done ∨ task a = some u := by
      simp only [List.mem_append, List.mem_singleton, or_and_right, exists_or, exists_eq_left, hmem]
    rw [List.foldl_append, List.foldl_cons, List.foldl_nil]
    cases htask : task a with
    | none =>
      rw [hnone done _ a hstate hsub ha htask]
      refine ⟨done, hnodup, ?_, hstate⟩
      intro u
      rw [hconcat, htask]
      simp
    | some t =>
      by_cases hold : t ∈ done
      · rw [hagain done _ a t hstate hsub ha htask hold]
        refine ⟨done, hnodup, ?_, hstate⟩
        intro u
        rw [hconcat, htask, Option.some.injEq]
        constructor
        · exact Or.inl
        · intro h
          rcases h with h | h
          · exact h
          · exact h ▸ hold
      · have hfresh : (done ++ [t]).Nodup :=
          List.nodup_append.mpr ⟨hnodup, by simp, by
            intro u hu w hw he
            rw [List.mem_singleton] at hw
            exact hold (hw ▸ he ▸ hu)⟩
        refine ⟨done ++ [t], hfresh, ?_, hdo done _ a t hstate hsub hnodup ha htask hold⟩
        intro u
        rw [hconcat, htask, Option.some.injEq, List.mem_append, List.mem_singleton, eq_comm]

end Coin98Vault.Trace

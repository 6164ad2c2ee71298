import Coin98Vault.Program.Accounting
import Coin98Vault.Program.Reference

/-!
# Where the money of a run comes from and goes to

The balances of every run are those of a ledger.  What a run moves, it moves between accounts
that its calls may write, and it neither makes nor loses any of it.
-/

namespace Coin98Vault

open Trace Ledger

/-- All moves of a run, in their order. -/
def runMoves (rt : Runtime) (b : Bank) (calls : List Call) : List (Move Asset) :=
  log (step rt) (fun b c => c.instruction.moves rt b) b calls

def writableIn (calls : List Call) : List Pubkey := calls.flatMap fun c => c.writable

/-- The tokens of a mint in an account. -/
def Bank.holding (b : Bank) (mint k : Pubkey) : Nat :=
  if b.currency (.tokens k) = some (.tokens mint) then b.balance (.tokens k) else 0

section
variable {rt : Runtime} {b b' : Bank}

/-- A run pays what its calls pay. -/
theorem run_pays (hrt : rt.Lawful) (b : Bank) (calls : List Call) :
    Bank.Pays (writableIn calls) (runMoves rt b calls) b (run (step rt) b calls) := by
  refine log_induction (P := fun moves b' => Bank.Pays (writableIn calls) moves b b') b calls
    (.refl _ b) ?_
  intro before c after b' hcalls hbefore hok
  have hsub : c.writable ⊆ writableIn calls := by
    intro k hk
    exact List.mem_flatMap.mpr ⟨c, by simp [hcalls], hk⟩
  exact hbefore.trans ((step_pays hrt hok).mono hsub)

private theorem Bank.Pays.conserves {accounts : List Pubkey} {moves : List (Move Asset)}
    (h : Bank.Pays accounts moves b b') {S : Finset Pubkey} (hS : ∀ k ∈ accounts, k ∈ S) :
    ∑ k ∈ S, (b' k).lamports = ∑ k ∈ S, (b k).lamports ∧
      ∀ mint, ∑ k ∈ S, b'.holding mint k = ∑ k ∈ S, b.holding mint k := by
  constructor
  · let A : Finset Asset := S.image .lamports
    have hinjective : Set.InjOn Asset.lamports S := fun _ _ _ _ he => Asset.lamports.inj he
    have hinside : ∀ m ∈ moves, m.source ∈ A ↔ m.target ∈ A := by
      intro m hm
      obtain ⟨hs, ht⟩ := h.between m hm
      obtain ⟨c, hcs, hct⟩ := h.currency m hm
      have hmem {a : Asset} (ha : a.account ∈ accounts) (hc : b.currency a = some c) :
          a ∈ A ↔ c = .lamports := by
        cases a with
        | lamports k =>
          obtain rfl : Currency.lamports = c := Option.some.inj hc
          simpa [A] using hS k ha
        | tokens k =>
          obtain ⟨t, -, rfl⟩ := Option.map_eq_some_iff.mp hc
          simp [A]
      rw [hmem hs hcs, hmem ht hct]
    have hsum := h.funded.sum_settle hinside
    rw [← h.settled, Finset.sum_image hinjective, Finset.sum_image hinjective] at hsum
    exact hsum
  · intro mint
    let A : Finset Asset := (S.image .tokens).filter fun a => b.currency a = some (.tokens mint)
    have hinjective : Set.InjOn Asset.tokens S := fun _ _ _ _ he => Asset.tokens.inj he
    have hinside : ∀ m ∈ moves, m.source ∈ A ↔ m.target ∈ A := by
      intro m hm
      obtain ⟨hs, ht⟩ := h.between m hm
      obtain ⟨c, hcs, hct⟩ := h.currency m hm
      have hmem {a : Asset} (ha : a.account ∈ accounts) (hc : b.currency a = some c) :
          a ∈ A ↔ c = .tokens mint := by
        rw [Finset.mem_filter, hc, Option.some.injEq]
        apply and_iff_right_of_imp
        rintro rfl
        cases a with
        | lamports k => cases hc
        | tokens k => simpa using hS k ha
      rw [hmem hs hcs, hmem ht hct]
    have hsum := h.funded.sum_settle hinside
    rw [← h.settled, Finset.sum_filter, Finset.sum_filter, Finset.sum_image hinjective,
      Finset.sum_image hinjective] at hsum
    simp only [Bank.holding, h.currencies]
    exact hsum

end

/-- The balances of a run are those of a ledger that makes the moves of its successful calls, each
covered when its turn comes.  Accounts that no call may write are as they were. -/
theorem run_ledger {rt : Runtime} (hrt : rt.Lawful) (b : Bank) (calls : List Call) :
    Funded b.balance (runMoves rt b calls) ∧
      (run (step rt) b calls).balance = settle (runMoves rt b calls) b.balance ∧
      (∀ a, (run (step rt) b calls).balance a + debits (runMoves rt b calls) a =
        b.balance a + credits (runMoves rt b calls) a) ∧
      ∀ k, k ∉ writableIn calls → run (step rt) b calls k = b k := by
  have h := run_pays hrt b calls
  refine ⟨h.funded, h.settled, ?_, h.frame⟩
  intro a
  rw [h.settled]
  exact h.funded.settle_add a

open Reference in
theorem run_ledger_deployed :
    (run (step runtime) deployed [redeemFirst]).balance (.tokens vaultToken) + 3 = 50 := by
  have hrun := (run_ledger runtime_lawful deployed [redeemFirst]).2.2.1 (.tokens vaultToken)
  have hdebits : debits (runMoves runtime deployed [redeemFirst]) (.tokens vaultToken) = 3 := by
    decide +kernel
  have hcredits : credits (runMoves runtime deployed [redeemFirst]) (.tokens vaultToken) = 0 := by
    decide +kernel
  have hbefore : deployed.balance (.tokens vaultToken) = 50 := by decide +kernel
  rw [hdebits, hcredits, hbefore] at hrun
  exact hrun

/-- No run makes or loses lamports, or tokens of any mint, among accounts that include all that
its calls may write. -/
theorem run_conserves {rt : Runtime} (hrt : rt.Lawful) (b : Bank) (calls : List Call)
    (S : Finset Pubkey) (hS : ∀ c ∈ calls, ∀ k ∈ c.writable, k ∈ S) :
    ∑ k ∈ S, (run (step rt) b calls k).lamports = ∑ k ∈ S, (b k).lamports ∧
      ∀ mint, ∑ k ∈ S, (run (step rt) b calls).holding mint k = ∑ k ∈ S, b.holding mint k := by
  apply (run_pays hrt b calls).conserves
  intro k hk
  obtain ⟨c, hc, hk⟩ := List.mem_flatMap.mp hk
  exact hS c hc k hk

open Reference in
theorem run_conserves_deployed :
    let b := run (step runtime) genesis [openVault, openSchedule, redeemFirst]
    let S := (writableIn [openVault, openSchedule, redeemFirst]).toFinset
    ∑ k ∈ S, b.holding mint k = ∑ k ∈ S, genesis.holding mint k := by
  intro b S
  refine (run_conserves runtime_lawful genesis [openVault, openSchedule, redeemFirst] S ?_).2 mint
  intro c hc k hk
  exact List.mem_toFinset.mpr (List.mem_flatMap.mpr ⟨c, hc, hk⟩)

end Coin98Vault

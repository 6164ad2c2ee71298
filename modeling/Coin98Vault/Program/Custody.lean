import Coin98Vault.Program.Accounting
import Coin98Vault.Program.Isolation

/-!
# What only one key can spend

The lamports of a key, and the token accounts that no other key can debit.  Those of the signer
of a vault go down by what the calls on the vault pay out, and by nothing else.
-/

namespace Coin98Vault

open Trace Ledger

/-- The key alone can spend the asset. -/
def Bank.Holds (b : Bank) (p : Pubkey) : Asset → Prop
  | .tokens k => ∃ t, b.token? k = some t ∧ t.OnlyFor p
  | .lamports k => k = p

/-- What the signers of vaults pay in calls of a kind. -/
def Call.payoutsIn (kind : Instruction → Prop) [DecidablePred kind] (b : Bank) (c : Call) :
    List (Move Asset) :=
  if kind c.instruction then c.instruction.payouts b else []

private theorem TokenAccount.Evolves.onlyFor {t t' : TokenAccount} {p : Pubkey} (h : t.Evolves t')
    (hp : t.OnlyFor p) : t'.OnlyFor p := by
  refine ⟨h.owner.trans hp.1, ?_⟩
  rcases h.delegate with hd | hd
  · rw [hd]
    exact hp.2
  · exact .inl hd

section
variable {rt : Runtime} {b b' : Bank} {c : Call} {vault p : Pubkey} {v : Vault} {a : Asset}

theorem Bank.Keeps.balance_le (h : Bank.Keeps (· = p) b b') (ha : b.Holds p a) :
    b.balance a ≤ b'.balance a := by
  cases a with
  | lamports k =>
    obtain rfl : k = p := ha
    exact h.lamports k rfl
  | tokens k =>
    obtain ⟨t, ht, hp⟩ := ha
    obtain ⟨t', ht', hgrows⟩ := h.of_onlyFor ht hp
    simpa [Bank.balance, ht, ht'] using hgrows.2

theorem holds_step (hrt : rt.Lawful) (h : step rt b c = .ok b') (ha : b.Holds p a) :
    b'.Holds p a := by
  cases a with
  | lamports k => exact ha
  | tokens k =>
    obtain ⟨t, ht, hp⟩ := ha
    obtain ⟨t', ht', hev⟩ := (kinds_step hrt h).1 t ht
    exact ⟨t', ht', hev.onlyFor hp⟩

/-- What the signers of a call pay is not from an asset of another key's. -/
private theorem dues_spare (hrt : rt.Lawful) {tx : Tx} {i : Instruction} {o : Outcome}
    (h : handle rt tx b i = .ok o) (ha : b.Holds p a) (hp : p ∉ tx.signers) :
    debits (i.dues rt b) a = 0 := by
  apply debits_eq_zero
  intro m hm hsource
  cases hi : i.claim? with
  | some cl =>
    obtain ⟨v, s, b₁, b₂, hadm, hfee, -, -⟩ := (handle_claim_eq_ok hi).mp h
    rw [(Instruction.moves_of_claim? rt hi hadm.schedule).1] at hm
    rcases payFee_eq_ok.mp hfee with ⟨hzero, -⟩ | ⟨hpos, -, u, hu, ht⟩
    · unfold Claim.feeMoves at hm
      split at hm <;> simp [hzero] at hm
    · rw [Claim.feeMoves, hu] at hm
      dsimp only at hm
      rw [if_pos hpos, List.mem_singleton] at hm
      subst hm
      obtain rfl : Asset.tokens u = a := hsource
      obtain ⟨t, ht', honly⟩ := ha
      -- the user debits the account, so that it is the key
      obtain ⟨-, -, -, -, hprocess⟩ := transferToken_eq_ok.mp ht
      obtain ⟨t₀, -, ht₀, -, -, hdebit, -⟩ := hrt.token.requires hprocess
      obtain rfl := Option.some.inj (ht'.symm.trans ht₀)
      have huser := honly.eq_of_authorizes hdebit.authorizes
      exact hp (huser ▸ hadm.user)
  | none =>
    cases i with
    | createVault x vaultPath =>
      obtain ⟨hs, -⟩ := (createVault_eq_ok hrt).mp h
      obtain rfl := List.mem_singleton.mp hm
      obtain rfl : Asset.lamports x.owner = a := hsource
      obtain rfl : x.owner = p := ha
      exact hp hs
    | createSchedule x args =>
      obtain ⟨v, -, hs, -⟩ := (createSchedule_eq_ok hrt).mp h
      obtain rfl := List.mem_singleton.mp hm
      obtain rfl : Asset.lamports x.admin = a := hsource
      obtain rfl : x.admin = p := ha
      exact hp hs
    | redeemToken => simp [Instruction.claim?] at hi
    | redeemTokenMulti => simp [Instruction.claim?] at hi
    | _ => simp [Instruction.dues, Bank.ofClaim, Instruction.claim?] at hm

/-- An asset of the signer of a vault loses in a step no more than the vault pays out. -/
private theorem outflow_step (hrt : rt.Lawful) (h : step rt b c = .ok b')
    (hv : b.vault? vault = some v) (hp : rt.createProgramAddress (signerSeeds vault v) = some p)
    (hsigned : p ∉ c.signers)
    (hsha : CollisionFree rt.sha256 ((signerString rt b vault).toList ++
      (c.instruction.payer?.bind fun q => signerString rt b q.1).toList)) (ha : b.Holds p a) :
    b.balance a ≤ b'.balance a + debits (c.payoutsIn (fun i => i.vault = vault) b) a := by
  unfold Call.payoutsIn
  split
  · obtain ⟨o, hh, -⟩ := step_eq_ok_iff.mp h
    have hdues := dues_spare hrt hh ha hsigned
    have hpays := step_pays hrt h
    have hsum := hpays.funded.settle_add a
    rw [← hpays.settled, Instruction.moves, debits_append, hdues] at hsum
    omega
  · rename_i hother
    have hkeeps := signer_keeps hrt h hv hp hsigned hsha fun q hq =>
      hother (Instruction.vault_of_payer? hq)
    exact (hkeeps.balance_le ha).trans (Nat.le_add_right _ _)

/-- Over a run, what an asset of the signer of a vault has lost the vault has paid out. -/
theorem outflow_run (hrt : rt.Lawful) (hv : b.vault? vault = some v)
    (hp : rt.createProgramAddress (signerSeeds vault v) = some p) {calls : List Call}
    (hsigned : ∀ c ∈ calls, p ∉ c.signers)
    (hsha : CollisionFree rt.sha256 (signerStrings rt vault b calls)) (ha : b.Holds p a) :
    (run (step rt) b calls).Holds p a ∧
      b.balance a ≤ (run (step rt) b calls).balance a +
        debits (log (step rt) (Call.payoutsIn fun i => i.vault = vault) b calls) a := by
  refine log_induction (P := fun moves b' => b'.Holds p a ∧
    b.balance a ≤ b'.balance a + debits moves a) b calls ⟨ha, Nat.le_add_right _ _⟩ ?_
  rintro before c after b' hcalls ⟨hholds, hbefore⟩ hok
  obtain ⟨u, hu, -, hnonce⟩ := vault_run hrt hv before
  have hseeds : rt.createProgramAddress (signerSeeds vault u) = some p := by
    rw [signerSeeds, hnonce]
    exact hp
  have hstep := outflow_step hrt hok hu hseeds (hsigned c (by simp [hcalls]))
    (hsha.mono fun y hy => mem_signerStrings hcalls hy) hholds
  refine ⟨holds_step hrt hok hholds, ?_⟩
  rw [debits_append]
  omega

end

end Coin98Vault

import Coin98Vault.Program.Addresses
import Coin98Vault.Program.Reference

/-!
# Who may change a vault, its schedules and its assets
-/

namespace Coin98Vault

open Trace

section
variable {rt : Runtime} {b b' : Bank} {c : Call} {vault k : Pubkey}

/-! ## One step -/

/-- Who may change which field of a vault. -/
structure VaultAuthority (c : Call) (vault : Pubkey) (v v' : Vault) : Prop where
  objType : v'.objType = v.objType
  signerNonce : v'.signerNonce = v.signerNonce
  admins : v'.admins ≠ v.admins → ∃ x admins, c.instruction = .setVault x admins ∧
    x.vault = vault ∧ x.owner = v.owner ∧ v.owner ∈ c.signers
  owners : v'.owner ≠ v.owner ∨ v'.newOwner ≠ v.newOwner →
    (∃ x newOwner, c.instruction = .transferOwnership x newOwner ∧ x.vault = vault) ∨
      ∃ x, c.instruction = .acceptOwnership x ∧ x.vault = vault

theorem VaultAuthority.refl (c : Call) (vault : Pubkey) (v : Vault) :
    VaultAuthority c vault v v := ⟨rfl, rfl, by simp, by simp⟩

theorem VaultStep.authority {v v' : Vault} (h : VaultStep b c vault v v') :
    VaultAuthority c vault v v' := by
  cases h with
  | setVault call target signed owner =>
    exact ⟨rfl, rfl, fun _ => ⟨_, _, call, target, owner, owner ▸ signed⟩, by simp⟩
  | transferOwnership call target =>
    exact ⟨rfl, rfl, by simp, fun _ => .inl ⟨_, _, call, target⟩⟩
  | acceptOwnership call target =>
    exact ⟨rfl, rfl, by simp, fun _ => .inr ⟨_, call, target⟩⟩
  | untouched => exact .refl c vault v

/-- Who may change which field of a schedule. -/
structure ScheduleAuthority (b : Bank) (c : Call) (k : Pubkey) (s s' : Schedule) : Prop where
  history : s.Extends s'
  isActive : s'.isActive ≠ s.isActive → ∃ x isActive v,
    c.instruction = .setScheduleStatus x isActive ∧ x.schedule = k ∧
      b.vault? s.vaultId = some v ∧ v.IsAdmin x.admin ∧ x.admin ∈ c.signers
  redemptions : s'.redemptions ≠ s.redemptions → ∃ cl, c.instruction.claim? = some cl ∧
    cl.accounts.schedule = k ∧ s.redemptions[cl.args.index.toNat]? = some false ∧
    s' = s.redeem cl.args.index

theorem ScheduleAuthority.refl (b : Bank) (c : Call) (k : Pubkey) (s : Schedule) :
    ScheduleAuthority b c k s s := ⟨.refl s, by simp, by simp⟩

theorem ScheduleStep.authority {s s' : Schedule} (h : ScheduleStep rt b c k s s') :
    ScheduleAuthority b c k s s' := by
  have hext := h.extends
  cases h with
  | @redeem cl v call target admitted =>
    obtain ⟨-, -, hbit⟩ := admitted.proves
    exact ⟨hext, by simp [Schedule.redeem], fun _ => ⟨cl, call, target, hbit, rfl⟩⟩
  | setStatus call target vault signed admin =>
    exact ⟨hext, fun _ => ⟨_, _, _, call, target, vault, admin, signed⟩, by simp⟩
  | untouched => exact .refl b c k s

/-- The call takes assets of the vault with leave: an admin withdraws, or a claim on one of
its schedules is paid. -/
inductive Spends (b : Bank) (c : Call) (vault : Pubkey) : Prop
  | withdraw {v : Vault} {admin : Pubkey} (account : b.vault? vault = some v)
      (isAdmin : v.IsAdmin admin) (signed : admin ∈ c.signers)
      (call : (∃ x n, c.instruction = .withdrawSol x n ∧ x.vault = vault ∧ x.admin = admin) ∨
        ∃ x n, c.instruction = .withdrawToken x n ∧ x.vault = vault ∧ x.admin = admin)
  | redeem {cl : Claim} {s : Schedule} (call : c.instruction.claim? = some cl)
      (schedule : b.schedule? cl.accounts.schedule = some s) (link : s.vaultId = vault)

private theorem Accepted.spends {w : Option (Pubkey × Value)} {p : Pubkey}
    (h : Accepted rt c.toTx b c.instruction w) (hp : c.instruction.payer? = some (vault, p)) :
    Spends b c vault := by
  obtain ⟨tx, i⟩ := c
  have hi := Instruction.vault_of_payer? hp
  cases h with
  | withdrawSol hv hs hadmin =>
    exact .withdraw (hi ▸ hv) hadmin hs (.inl ⟨_, _, rfl, hi, rfl⟩)
  | withdrawToken hv hs hadmin =>
    exact .withdraw (hi ▸ hv) hadmin hs (.inr ⟨_, _, rfl, hi, rfl⟩)
  | claim hcl hadm =>
    exact .redeem hcl hadm.schedule (by rw [hadm.link, ← Instruction.vault_of_claim? hcl, hi])
  | _ => simp [Instruction.payer?] at hp

private theorem spends_of_loss (hrt : rt.Lawful) (h : step rt b c = .ok b') {v : Vault} {p : Pubkey}
    (hv : b.vault? vault = some v)
    (hp : rt.createProgramAddress (signerSeeds vault v) = some p) (hsigned : p ∉ c.signers)
    (hsha : CollisionFree rt.sha256 ((signerString rt b vault).toList ++
      (c.instruction.payer?.bind fun q => signerString rt b q.1).toList))
    (hloss : ¬ Bank.Keeps (· = p) b b') : Spends b c vault := by
  by_contra hno
  apply hloss
  apply signer_keeps hrt h hv hp hsigned hsha
  intro q hq
  obtain ⟨w, -, hst⟩ := step_eq_ok hrt h
  exact hno (hst.accepted.spends hq)

/-- The signer of a vault has lost lamports, or tokens that only it can debit. -/
def Loses (p : Pubkey) (b b' : Bank) : Prop :=
  (b' p).lamports < (b p).lamports ∨
    ∃ k t t', b.token? k = some t ∧ t.OnlyFor p ∧ b'.token? k = some t' ∧ t'.amount < t.amount

private theorem Loses.not_keeps {p : Pubkey} (h : Loses p b b') : ¬ Bank.Keeps (· = p) b b' := by
  intro hkeeps
  rcases h with h | ⟨k, t, t', ht, hp, ht', hlt⟩
  · have hle := hkeeps.lamports p rfl
    omega
  · obtain ⟨t'', ht'', -, hle⟩ := hkeeps.of_onlyFor ht hp
    obtain rfl := Option.some.inj (ht'.symm.trans ht'')
    omega

private theorem Loses.irrefl {p : Pubkey} : ¬ Loses p b b := fun h => h.not_keeps (.refl _ b)

end

/-- Over any run of calls that no derived address signs: a vault and its schedules change only
by those entitled to it, and the assets of its signer are spent only by its admins and in
redemptions from its schedules, whatever other vaults and accounts are passed. -/
theorem vault_authority {rt : Runtime} (hrt : rt.Lawful) (b : Bank) (vault : Pubkey)
    (calls : List Call) (hsigners : ∀ c ∈ calls, ∀ k ∈ c.signers, ¬ rt.IsDerived k)
    (hsha : CollisionFree rt.sha256 (signerStrings rt vault b calls)) :
    (∀ before c after s s', calls = before ++ c :: after → s = run (step rt) b before →
      s' = run (step rt) b (before ++ [c]) →
      (∀ v, s.vault? vault = some v →
        ∃ v', s'.vault? vault = some v' ∧ VaultAuthority c vault v v') ∧
      (∀ k sch', s.schedule? k = none → s'.schedule? k = some sch' → sch'.vaultId = vault →
        ∃ x a v, c.instruction = .createSchedule x a ∧ x.schedule = k ∧ x.vault = vault ∧
          s.vault? vault = some v ∧ v.IsAdmin x.admin ∧ x.admin ∈ c.signers) ∧
      (∀ k sch, s.schedule? k = some sch →
        ∃ sch', s'.schedule? k = some sch' ∧ ScheduleAuthority s c k sch sch') ∧
      (∀ v p, s.vault? vault = some v →
        rt.createProgramAddress (signerSeeds vault v) = some p → Loses p s s' →
        Succeeds (step rt) s c ∧ Spends s c vault)) ∧
    (∀ v, b.vault? vault = some v → ∃ v', (run (step rt) b calls).vault? vault = some v' ∧
      v'.objType = v.objType ∧ v'.signerNonce = v.signerNonce) ∧
    (∀ k sch, b.schedule? k = some sch → ∃ sch', (run (step rt) b calls).schedule? k = some sch' ∧
      sch.Extends sch') := by
  refine ⟨?_, fun v hv => ?_, fun k sch hs => ?_⟩
  · rintro before c after s s' hcalls rfl hs'
    rw [run_concat] at hs'
    cases hok : step rt (run (step rt) b before) c with
    | error e =>
      rw [exec_error hok] at hs'
      subst hs'
      refine ⟨fun v hv => ⟨v, hv, .refl c vault v⟩, fun k sch' hnone hs => ?_,
        fun k sch hs => ⟨sch, hs, .refl _ c k sch⟩, fun v p _ _ hl => absurd hl Loses.irrefl⟩
      rw [hnone] at hs
      cases hs
    | ok b' =>
      rw [exec_ok hok] at hs'
      subst hs'
      refine ⟨fun v hv => ?_, fun k sch' hnone hs hlink => ?_, fun k sch hs => ?_,
        fun v p hv hp hl => ⟨⟨s', hok⟩, ?_⟩⟩
      · obtain ⟨v', hv', hstep⟩ := vault_step hrt hok hv
        exact ⟨v', hv', hstep.authority⟩
      · obtain ⟨x, a, v, bump, hc, hk, hsigned, hv, hadmin, -, -, rfl⟩ :=
          schedule_created hrt hok hnone hs
        obtain rfl : x.vault = vault := hlink
        exact ⟨x, a, v, hc, hk, rfl, hv, hadmin, hsigned⟩
      · obtain ⟨sch', hs', hstep⟩ := schedule_step hrt hok hs
        exact ⟨sch', hs', hstep.authority⟩
      · refine spends_of_loss hrt hok hv hp (fun hmem => ?_) (hsha.mono fun x hx => ?_)
          hl.not_keeps
        · exact hsigners c (by simp [hcalls]) p hmem ⟨_, hp⟩
        · exact mem_signerStrings hcalls hx
  · exact vault_run hrt hv calls
  · exact extends_run hrt hs calls

open Reference in
theorem vault_authority_deployed : Spends deployed redeemFirst vault := by
  have hsigners : ∀ c ∈ [redeemFirst], ∀ k ∈ c.signers, ¬ runtime.IsDerived k :=
    underived_signers (by decide +kernel)
  obtain ⟨hstep, -⟩ := vault_authority runtime_lawful deployed vault [redeemFirst] hsigners
    (by decide +kernel)
  have hv : (deployed.vault? vault).map (signerSeeds vault) =
      some [signerSeed1, vault.bytes, [255]] := by decide +kernel
  obtain ⟨v, hv, hseeds⟩ := Option.map_eq_some_iff.mp hv
  refine ((hstep [] redeemFirst [] _ _ rfl rfl rfl).2.2.2 v vaultSigner hv ?_ (.inr ?_)).2
  · rw [hseeds]
    decide +kernel
  · exact ⟨vaultToken, ⟨mint, vaultSigner, 50, none, .initialized, none, 0, none⟩,
      ⟨mint, vaultSigner, 47, none, .initialized, none, 0, none⟩, by decide +kernel,
      ⟨rfl, .inl rfl⟩, by decide +kernel, by decide⟩

end Coin98Vault

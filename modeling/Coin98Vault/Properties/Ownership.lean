import Coin98Vault.Program.Lifecycle
import Coin98Vault.Program.Reference

/-!
# Ownership changes hands in two steps

The nominee stored in a vault stands for the last nomination of its history, by the owner in
office, with no acceptance since.
-/

namespace Coin98Vault

open Trace

def Nominates (vault : Pubkey) (c : Call) : Prop :=
  ∃ x newOwner, c.instruction = .transferOwnership x newOwner ∧ x.vault = vault

def Accepts (vault : Pubkey) (c : Call) : Prop :=
  ∃ x, c.instruction = .acceptOwnership x ∧ x.vault = vault

/-- The call nominates `nominee` in the name of `owner`, who signs it. -/
def NominatedBy (vault owner nominee : Pubkey) (c : Call) : Prop :=
  ∃ x, c.instruction = .transferOwnership x nominee ∧ x.vault = vault ∧ x.owner = owner ∧
    owner ∈ c.signers

/-- The call hands the vault over to a key that signs it. -/
def TakenBy (vault newOwner : Pubkey) (c : Call) : Prop :=
  ∃ x, c.instruction = .acceptOwnership x ∧ x.vault = vault ∧ x.newOwner = newOwner ∧
    newOwner ∈ c.signers

/-- The last nomination of a run: `owner` named `nominee`, and since then no one has been
named and no one has taken the vault over. -/
def PendingNomination (rt : Runtime) (b : Bank) (vault : Pubkey) (calls : List Call)
    (owner nominee : Pubkey) : Prop :=
  ∃ before t between, calls = before ++ t :: between ∧
    Succeeds (step rt) (run (step rt) b before) t ∧ NominatedBy vault owner nominee t ∧
    ¬ Occurs (step rt) (fun _ c => Nominates vault c) (run (step rt) b (before ++ [t])) between ∧
    ¬ Occurs (step rt) (fun _ c => Accepts vault c) (run (step rt) b (before ++ [t])) between

/-- What the history of a vault says of its owner and of its nominee. -/
structure Held (rt : Runtime) (b : Bank) (vault : Pubkey) (create : Call) (calls : List Call)
    (v : Vault) : Prop where
  office : v.owner ≠ systemProgramId
  origin : v.owner ∈ create.signers ∨
    Occurs (step rt) (fun _ c => TakenBy vault v.owner c) b calls
  nominee : v.newOwner = systemProgramId ∨
    ∃ before t, Latest (step rt) (fun _ c => Nominates vault c ∨ Accepts vault c) b calls before t ∧
      NominatedBy vault v.owner v.newOwner t

section
variable {rt : Runtime} {b : Bank} {vault : Pubkey} {create : Call}

/-- A call that neither nominates nor accepts leaves the history of a vault as it is. -/
theorem Held.concat_other {calls : List Call} {c : Call} {v v' : Vault}
    (h : Held rt b vault create calls v) (howner : v'.owner = v.owner)
    (hnew : v'.newOwner = v.newOwner)
    (hother : ¬ (Succeeds (step rt) (run (step rt) b calls) c ∧
      (Nominates vault c ∨ Accepts vault c))) :
    Held rt b vault create (calls ++ [c]) v' := by
  refine ⟨howner ▸ h.office, ?_, ?_⟩
  · rw [howner, occurs_concat]
    exact h.origin.imp_right .inl
  · rw [howner, hnew]
    refine h.nominee.imp_right ?_
    rintro ⟨before, t, hlast, ht⟩
    exact ⟨before, t, hlast.concat_old hother, ht⟩

theorem Held.concat {calls : List Call} {c : Call} {b' : Bank} {v v' : Vault}
    (h : Held rt b vault create calls v) (hsys : systemProgramId ∉ c.signers)
    (hok : step rt (run (step rt) b calls) c = .ok b')
    (hstep : VaultStep (run (step rt) b calls) c vault v v') :
    Held rt b vault create (calls ++ [c]) v' := by
  cases hstep with
  | setVault call =>
    refine h.concat_other rfl rfl ?_
    rintro ⟨-, ⟨x, n, hc, -⟩ | ⟨x, hc, -⟩⟩ <;> rw [call] at hc <;> cases hc
  | @transferOwnership x newOwner call target signed owner =>
    refine ⟨h.office, ?_, .inr ⟨calls, c, .concat_new ⟨b', hok⟩ (.inl ⟨x, newOwner, call, target⟩),
      x, call, target, owner, owner ▸ signed⟩⟩
    rw [occurs_concat]
    exact h.origin.imp_right .inl
  | @acceptOwnership x call target signed nominee =>
    refine ⟨?_, .inr ?_, .inl rfl⟩
    · rintro (hn : v.newOwner = systemProgramId)
      rw [nominee, hn] at signed
      exact hsys signed
    · rw [occurs_concat]
      exact .inr ⟨⟨b', hok⟩, x, call, target, nominee, nominee ▸ signed⟩
  | untouched _ transfer accept =>
    refine h.concat_other rfl rfl ?_
    rintro ⟨-, ⟨x, n, hc, ht⟩ | ⟨x, hc, ht⟩⟩
    · exact transfer x n hc ht
    · exact accept x hc ht

/-- Who accepts a vault is the nominee of a nomination that still stands. -/
private theorem Held.acceptance {calls : List Call} {c : Call} {v v' : Vault}
    (h : Held rt b vault create calls v) (hsys : systemProgramId ∉ c.signers)
    (hstep : VaultStep (run (step rt) b calls) c vault v v') {x : AcceptOwnershipContext}
    (hc : c.instruction = .acceptOwnership x) (htarget : x.vault = vault) :
    x.newOwner ∈ c.signers ∧ PendingNomination rt b vault calls v.owner x.newOwner := by
  cases hstep with
  | setVault call =>
    rw [hc] at call
    cases call
  | transferOwnership call =>
    rw [hc] at call
    cases call
  | untouched _ _ accept => exact absurd htarget (accept x hc)
  | @acceptOwnership y call target signed nominee =>
    obtain rfl : x = y := by
      rw [hc] at call
      injection call
    rcases h.nominee with hempty | ⟨before, t, ⟨between, rfl, ht, -, hlast⟩, hby⟩
    · rw [nominee, hempty] at signed
      exact absurd signed hsys
    · refine ⟨signed, before, t, between, rfl, ht, nominee ▸ hby, ?_, ?_⟩
      · intro hnominates
        exact hlast (hnominates.mono fun _ _ => .inl)
      · intro haccepts
        exact hlast (haccepts.mono fun _ _ => .inr)

/-- A vault as `create_vault` leaves it. -/
theorem createVault_vault? (hrt : rt.Lawful) {b₀ : Bank} {x : CreateVaultContext}
    {vaultPath : Bytes} (hc : create.instruction = .createVault x vaultPath)
    (h : step rt b₀ create = .ok b) :
    ∃ v, b.vault? x.vault = some v ∧ v.owner ∈ create.signers ∧ v.newOwner = systemProgramId := by
  obtain ⟨w, -, hst⟩ := step_eq_ok hrt h
  have hacc := hst.accepted
  rw [hc] at hacc
  cases hacc with
  | claim hcl => cases hcl
  | createVault signed =>
    exact ⟨_, Bank.value?_eq_vault.mp hst.value?_written, signed, rfl⟩

private theorem held_run (hrt : rt.Lawful) {v : Vault} (hv : b.vault? vault = some v)
    (howner : v.owner ∈ create.signers) (hnew : v.newOwner = systemProgramId) (calls : List Call)
    (hsys : ∀ c ∈ create :: calls, systemProgramId ∉ c.signers) :
    ∃ v', (run (step rt) b calls).vault? vault = some v' ∧
      Held rt b vault create calls v' := by
  refine run_induction (P := fun calls b' => ∃ v', b'.vault? vault = some v' ∧
    Held rt b vault create calls v') b calls ?_ ?_ ?_
  · refine ⟨v, hv, ?_, .inl howner, .inl hnew⟩
    intro h
    exact hsys create (by simp) (h ▸ howner)
  · rintro before c after b' hcalls ⟨v', hv', hheld⟩ hok
    obtain ⟨v'', hv'', hstep⟩ := vault_step hrt hok hv'
    exact ⟨v'', hv'', hheld.concat (hsys c (by simp [hcalls])) hok hstep⟩
  · rintro before c e ⟨v', hv', hheld⟩ herr
    refine ⟨v', hv', hheld.concat_other rfl rfl ?_⟩
    exact fun h => not_succeeds_of_error herr h.1

end

/-- In every run from the creation of a vault on, an acceptance is signed by the key that the
owner in office has named in the last nomination, which has not been accepted before; nothing
else changes the owner, who has signed for the office and is never the empty key. -/
theorem ownership_two_step {rt : Runtime} (hrt : rt.Lawful) {b₀ b : Bank} {create : Call}
    {x : CreateVaultContext} {vaultPath : Bytes}
    (hcall : create.instruction = .createVault x vaultPath) (hcreate : step rt b₀ create = .ok b)
    (calls : List Call) (hsys : ∀ c ∈ create :: calls, systemProgramId ∉ c.signers) :
    (∀ before c after y, calls = before ++ c :: after → c.instruction = .acceptOwnership y →
      y.vault = x.vault → Succeeds (step rt) (run (step rt) b before) c →
      ∃ v, (run (step rt) b before).vault? x.vault = some v ∧ y.newOwner ∈ c.signers ∧
        PendingNomination rt b x.vault before v.owner y.newOwner) ∧
    (∀ before c after v v', calls = before ++ c :: after →
      (run (step rt) b before).vault? x.vault = some v →
      (run (step rt) b (before ++ [c])).vault? x.vault = some v' → v'.owner ≠ v.owner →
      Accepts x.vault c) ∧
    (∀ before after, calls = before ++ after →
      ∃ v, (run (step rt) b before).vault? x.vault = some v ∧ v.owner ≠ systemProgramId ∧
        (v.owner ∈ create.signers ∨
          Occurs (step rt) (fun _ c => TakenBy x.vault v.owner c) b before)) ∧
    (∀ before c middle c' after, calls = before ++ c :: middle ++ c' :: after →
      Succeeds (step rt) (run (step rt) b before) c → Accepts x.vault c →
      Succeeds (step rt) (run (step rt) b (before ++ c :: middle)) c' → Accepts x.vault c' →
      Occurs (step rt) (fun _ d => Nominates x.vault d) (run (step rt) b (before ++ [c]))
        middle) := by
  obtain ⟨v₀, hv₀, howner₀, hnew₀⟩ := createVault_vault? hrt hcall hcreate
  have hheld (before after : List Call) (h : calls = before ++ after) :
      ∃ v, (run (step rt) b before).vault? x.vault = some v ∧
        Held rt b x.vault create before v := by
    refine held_run hrt hv₀ howner₀ hnew₀ before fun c hc => hsys c ?_
    rw [h]
    simp only [List.mem_cons, List.mem_append] at hc ⊢
    tauto
  have haccept : ∀ before c after y, calls = before ++ c :: after →
      c.instruction = .acceptOwnership y → y.vault = x.vault →
      Succeeds (step rt) (run (step rt) b before) c →
      ∃ v, (run (step rt) b before).vault? x.vault = some v ∧ y.newOwner ∈ c.signers ∧
        PendingNomination rt b x.vault before v.owner y.newOwner := by
    intro before c after y hcalls hc htarget hok
    obtain ⟨v, hv, hh⟩ := hheld before (c :: after) hcalls
    obtain ⟨v', -, hstep⟩ := vault_step hrt hok.step_eq hv
    have hc' : systemProgramId ∉ c.signers := hsys c (by simp [hcalls])
    exact ⟨v, hv, hh.acceptance hc' hstep hc htarget⟩
  refine ⟨haccept, ?_, ?_, ?_⟩
  · rintro before c after v v' - hv hv' hne
    rw [run_concat] at hv'
    cases hok : step rt (run (step rt) b before) c with
    | error e =>
      rw [exec_error hok, hv] at hv'
      exact absurd (congrArg Vault.owner (Option.some.inj hv')).symm hne
    | ok b' =>
      rw [exec_ok hok] at hv'
      obtain ⟨v'', hv'', hstep⟩ := vault_step hrt hok hv
      obtain rfl := Option.some.inj (hv'.symm.trans hv'')
      cases hstep with
      | acceptOwnership call target => exact ⟨_, call, target⟩
      | _ => exact absurd rfl hne
  · rintro before after hcalls
    obtain ⟨v, hv, hh⟩ := hheld before after hcalls
    exact ⟨v, hv, hh.office, hh.origin⟩
  · rintro before c middle c' after hcalls hok hacc hok' ⟨y, hc', htarget⟩
    obtain ⟨v, -, -, before', t, between, heq, ht, ⟨z, hz, hzt, -⟩, -, hnone⟩ :=
      haccept (before ++ c :: middle) c' after y hcalls hc' htarget hok'
    refine occurs_after heq hok hacc ht ⟨z, y.newOwner, hz, hzt⟩ ?_ hnone
    rintro ⟨u, hu, -⟩
    rw [hz] at hu
    cases hu

open Reference in
theorem ownership_two_step_deployed :
    ∃ v, (run (step runtime) opened [nominateUser]).vault? vault = some v ∧
      PendingNomination runtime opened vault [nominateUser] v.owner user := by
  have haccept := (ownership_two_step runtime_lawful (show openVault.instruction = _ from rfl)
    openVault_ok [nominateUser, acceptUser] (by decide +kernel)).1
  obtain ⟨v, hv, -, hpending⟩ := haccept [nominateUser] acceptUser [] ⟨user, vault⟩ rfl rfl rfl
    (by decide +kernel)
  exact ⟨v, hv, hpending⟩

end Coin98Vault

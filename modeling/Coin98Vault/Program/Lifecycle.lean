import Coin98Vault.Program.Steps

/-!
# The lives of vaults and schedules

What one step can do to a vault and to a schedule, as two small state machines.
-/

namespace Coin98Vault

open Trace

variable {rt : Runtime} {b b' : Bank} {c : Call} {k : Pubkey}

/-- What a step does to a vault that exists. -/
inductive VaultStep (b : Bank) (c : Call) (k : Pubkey) (v : Vault) : Vault → Prop
  | setVault {x : SetVaultContext} {admins : List Pubkey}
      (call : c.instruction = .setVault x admins) (target : x.vault = k)
      (signed : x.owner ∈ c.signers) (owner : x.owner = v.owner) :
      VaultStep b c k v { v with admins }
  | transferOwnership {x : TransferOwnershipContext} {newOwner : Pubkey}
      (call : c.instruction = .transferOwnership x newOwner) (target : x.vault = k)
      (signed : x.owner ∈ c.signers) (owner : x.owner = v.owner) :
      VaultStep b c k v { v with newOwner }
  | acceptOwnership {x : AcceptOwnershipContext}
      (call : c.instruction = .acceptOwnership x) (target : x.vault = k)
      (signed : x.newOwner ∈ c.signers) (nominee : x.newOwner = v.newOwner) :
      VaultStep b c k v { v with owner := v.newOwner, newOwner := systemProgramId }
  | untouched (set : ∀ x admins, c.instruction = .setVault x admins → x.vault ≠ k)
      (transfer : ∀ x newOwner, c.instruction = .transferOwnership x newOwner → x.vault ≠ k)
      (accept : ∀ x, c.instruction = .acceptOwnership x → x.vault ≠ k) : VaultStep b c k v v

/-- What a step does to a schedule that exists. -/
inductive ScheduleStep (rt : Runtime) (b : Bank) (c : Call) (k : Pubkey) (s : Schedule) :
    Schedule → Prop
  | redeem {cl : Claim} {v : Vault} (call : c.instruction.claim? = some cl)
      (target : cl.accounts.schedule = k) (admitted : cl.Admitted rt c.toTx b v s) :
      ScheduleStep rt b c k s (s.redeem cl.args.index)
  | setStatus {x : SetScheduleContext} {isActive : Bool} {v : Vault}
      (call : c.instruction = .setScheduleStatus x isActive) (target : x.schedule = k)
      (vault : b.vault? s.vaultId = some v) (signed : x.admin ∈ c.signers)
      (admin : v.IsAdmin x.admin) : ScheduleStep rt b c k s { s with isActive }
  | untouched (claim : ∀ cl, c.instruction.claim? = some cl → cl.accounts.schedule ≠ k)
      (status : ∀ x isActive, c.instruction = .setScheduleStatus x isActive → x.schedule ≠ k) :
      ScheduleStep rt b c k s s

theorem Bank.not_wallet_of_read {α : Type} {l : Layout α} {a : α} (h : b.read l k = some a) :
    (b k).content ≠ .wallet := by
  intro hw
  simp [Bank.read, hw] at h

theorem Bank.vault?_eq_none {s : Schedule} (h : b.schedule? k = some s) : b.vault? k = none := by
  by_contra hne
  obtain ⟨v, hv⟩ := Option.ne_none_iff_exists'.mp hne
  rw [Bank.schedule?_eq_none hv] at h
  cases h

/-- A vault lives on, and changes in three instructions only. -/
theorem vault_step (hrt : rt.Lawful) (h : step rt b c = .ok b') {v : Vault}
    (hv : b.vault? k = some v) : ∃ v', b'.vault? k = some v' ∧ VaultStep b c k v v' := by
  obtain ⟨w, -, hst⟩ := step_eq_ok hrt h
  have hacc := hst.accepted
  have hval := hst.value? k
  clear hst h
  obtain ⟨tx, i⟩ := c
  rcases hval with ⟨val, rfl, hval⟩ | ⟨hne, hsame⟩
  · cases hacc with
    | createVault _ unused => exact absurd unused (Bank.not_wallet_of_read hv)
    | createSchedule _ _ _ unused => exact absurd unused (Bank.not_wallet_of_read hv)
    | setScheduleStatus _ schedule =>
      rw [Bank.vault?_eq_none schedule] at hv
      cases hv
    | claim _ admitted =>
      rw [Bank.vault?_eq_none admitted.schedule] at hv
      cases hv
    | setVault vault signed owner =>
      obtain rfl := Option.some.inj (hv.symm.trans vault)
      exact ⟨_, Bank.value?_eq_vault.mp hval, .setVault rfl rfl signed owner⟩
    | transferOwnership vault signed owner =>
      obtain rfl := Option.some.inj (hv.symm.trans vault)
      exact ⟨_, Bank.value?_eq_vault.mp hval, .transferOwnership rfl rfl signed owner⟩
    | acceptOwnership vault signed nominee =>
      obtain rfl := Option.some.inj (hv.symm.trans vault)
      exact ⟨_, Bank.value?_eq_vault.mp hval, .acceptOwnership rfl rfl signed nominee⟩
  · refine ⟨v, ?_, .untouched ?_ ?_ ?_⟩
    · rwa [← Bank.value?_eq_vault, hsame, Bank.value?_eq_vault]
    · rintro x admins ⟨⟩ rfl
      cases hacc with
      | setVault => exact hne _ rfl
      | claim hcl => cases hcl
    · rintro x newOwner ⟨⟩ rfl
      cases hacc with
      | transferOwnership => exact hne _ rfl
      | claim hcl => cases hcl
    · rintro x ⟨⟩ rfl
      cases hacc with
      | acceptOwnership => exact hne _ rfl
      | claim hcl => cases hcl

/-- A schedule lives on, and changes in redemptions and in its status only. -/
theorem schedule_step (hrt : rt.Lawful) (h : step rt b c = .ok b') {s : Schedule}
    (hs : b.schedule? k = some s) :
    ∃ s', b'.schedule? k = some s' ∧ ScheduleStep rt b c k s s' := by
  obtain ⟨w, -, hst⟩ := step_eq_ok hrt h
  have hacc := hst.accepted
  have hval := hst.value? k
  clear hst h
  obtain ⟨tx, i⟩ := c
  have hvault {x : Pubkey} {v : Vault} (hv : b.vault? x = some v) : x ≠ k := by
    rintro rfl
    rw [Bank.vault?_eq_none hs] at hv
    cases hv
  rcases hval with ⟨val, rfl, hval⟩ | ⟨hne, hsame⟩
  · cases hacc with
    | createVault _ unused => exact absurd unused (Bank.not_wallet_of_read hs)
    | createSchedule _ _ _ unused => exact absurd unused (Bank.not_wallet_of_read hs)
    | setVault vault => exact absurd rfl (hvault vault)
    | transferOwnership vault => exact absurd rfl (hvault vault)
    | acceptOwnership vault => exact absurd rfl (hvault vault)
    | setScheduleStatus vault schedule signed link admin =>
      obtain rfl := Option.some.inj (hs.symm.trans schedule)
      exact ⟨_, Bank.value?_eq_schedule.mp hval, .setStatus rfl rfl (link ▸ vault) signed admin⟩
    | claim hcl admitted =>
      obtain rfl := Option.some.inj (hs.symm.trans admitted.schedule)
      exact ⟨_, Bank.value?_eq_schedule.mp hval, .redeem hcl rfl admitted⟩
  · refine ⟨s, ?_, .untouched ?_ ?_⟩
    · rwa [← Bank.value?_eq_schedule, hsame, Bank.value?_eq_schedule]
    · rintro cl hcl rfl
      cases hacc with
      | claim hcl' =>
        obtain rfl := Option.some.inj (hcl.symm.trans hcl')
        exact hne _ rfl
      | _ => simp [Instruction.claim?] at hcl
    · rintro x isActive ⟨⟩ rfl
      cases hacc with
      | setScheduleStatus => exact hne _ rfl
      | claim hcl => cases hcl

/-- Everything but the status and the bits is as it was, and bits are only set. -/
structure Schedule.Extends (s s' : Schedule) : Prop where
  fixed : s' = { s with isActive := s'.isActive, redemptions := s'.redemptions }
  length : s'.redemptions.length = s.redemptions.length
  kept : ∀ n : Nat, s.redemptions[n]? = some true → s'.redemptions[n]? = some true

theorem Schedule.Extends.refl (s : Schedule) : s.Extends s := ⟨rfl, rfl, fun _ h => h⟩

theorem Schedule.Extends.trans {s t u : Schedule} (h : s.Extends t) (h' : t.Extends u) :
    s.Extends u := by
  refine ⟨?_, h'.length.trans h.length, fun n hn => h'.kept n (h.kept n hn)⟩
  rw [h'.fixed, h.fixed]

theorem ScheduleStep.extends {s s' : Schedule} (h : ScheduleStep rt b c k s s') : s.Extends s' := by
  cases h with
  | @redeem cl v call target admitted =>
    obtain ⟨-, -, hbit⟩ := admitted.proves
    refine ⟨rfl, by simp [Schedule.redeem], ?_⟩
    intro n hn
    simp only [Schedule.redeem, List.getElem?_set]
    split
    · rename_i he
      rw [← he, hbit] at hn
      cases hn
    · exact hn
  | setStatus => exact ⟨rfl, rfl, fun _ h => h⟩
  | untouched => exact .refl s

/-- A schedule stays through any run what it was created as. -/
theorem extends_run (hrt : rt.Lawful) {s : Schedule} (hs : b.schedule? k = some s)
    (calls : List Call) :
    ∃ s', (run (step rt) b calls).schedule? k = some s' ∧ s.Extends s' := by
  refine run_keeps (fun b : Bank => b.schedule? k) Schedule.Extends .refl ?_ ?_ hs calls
  · intro s t u
    exact .trans
  · intro b c b' s hok hs
    obtain ⟨s', hs', hstep⟩ := schedule_step hrt hok hs
    exact ⟨s', hs', hstep.extends⟩

/-- Vaults come from `create_vault`. -/
theorem vault_created (hrt : rt.Lawful) (h : step rt b c = .ok b') {v : Vault}
    (hnone : b.vault? k = none) (hv : b'.vault? k = some v) :
    ∃ x vaultPath vaultSigner signerNonce, c.instruction = .createVault x vaultPath ∧
      x.vault = k ∧ x.owner ∈ c.signers ∧ (b k).content = .wallet ∧
      rt.findProgramAddress [signerSeed1, k.bytes] = some (vaultSigner, signerNonce) ∧
      v = ⟨.vault, signerNonce, x.owner, systemProgramId, []⟩ := by
  obtain ⟨w, -, hst⟩ := step_eq_ok hrt h
  have hacc := hst.accepted
  have hval := hst.value? k
  clear hst h
  rw [← Bank.value?_eq_vault] at hv
  obtain ⟨tx, i⟩ := c
  rcases hval with ⟨val, rfl, hval⟩ | ⟨-, hsame⟩
  · rw [hv] at hval
    obtain rfl := Option.some.inj hval
    cases hacc with
    | createVault signed unused address nonce =>
      exact ⟨_, _, _, _, rfl, rfl, signed, unused, nonce, rfl⟩
    | setVault vault => simp [hnone] at vault
    | transferOwnership vault => simp [hnone] at vault
    | acceptOwnership vault => simp [hnone] at vault
  · rw [hsame, Bank.value?_eq_vault, hnone] at hv
    cases hv

/-- Schedules come from `create_schedule`, and belong to the vault whose admin signed it. -/
theorem schedule_created (hrt : rt.Lawful) (h : step rt b c = .ok b') {s : Schedule}
    (hnone : b.schedule? k = none) (hs : b'.schedule? k = some s) :
    ∃ x a v bump, c.instruction = .createSchedule x a ∧ x.schedule = k ∧
      x.admin ∈ c.signers ∧ b.vault? x.vault = some v ∧ v.IsAdmin x.admin ∧
      (b k).content = .wallet ∧
      rt.findProgramAddress [scheduleSeed1, deriveEventId a.eventId] = some (k, bump) ∧
      s = a.schedule x.vault bump := by
  obtain ⟨w, -, hst⟩ := step_eq_ok hrt h
  have hacc := hst.accepted
  have hval := hst.value? k
  clear hst h
  rw [← Bank.value?_eq_schedule] at hs
  obtain ⟨tx, i⟩ := c
  rcases hval with ⟨val, rfl, hval⟩ | ⟨-, hsame⟩
  · rw [hs] at hval
    obtain rfl := Option.some.inj hval
    cases hacc with
    | createSchedule vault signed admin unused address =>
      exact ⟨_, _, _, _, rfl, rfl, signed, vault, admin, unused, address, rfl⟩
    | setScheduleStatus _ schedule => simp [hnone] at schedule
    | claim _ admitted => simp [admitted.schedule] at hnone
  · rw [hsame, Bank.value?_eq_schedule, hnone] at hs
    cases hs

/-- What a successful `create_schedule` leaves behind. -/
theorem createSchedule_schedule? (hrt : rt.Lawful) {x : CreateScheduleContext}
    {a : CreateScheduleArgs} (hc : c.instruction = .createSchedule x a)
    (h : step rt b c = .ok b') :
    ∃ v bump, b.vault? x.vault = some v ∧
      rt.findProgramAddress [scheduleSeed1, deriveEventId a.eventId] = some (x.schedule, bump) ∧
      b'.schedule? x.schedule = some (a.schedule x.vault bump) := by
  obtain ⟨w, -, hst⟩ := step_eq_ok hrt h
  have hacc := hst.accepted
  rw [hc] at hacc
  cases hacc with
  | claim hcl => cases hcl
  | createSchedule vault _ _ _ address =>
    exact ⟨_, _, vault, address, Bank.value?_eq_schedule.mp hst.value?_written⟩

/-- What a schedule keeps of its creation, whatever is called after it. -/
theorem schedule_of_createSchedule (hrt : rt.Lawful) {x : CreateScheduleContext}
    {a : CreateScheduleArgs} (hc : c.instruction = .createSchedule x a)
    (h : step rt b c = .ok b') {calls : List Call} {s : Schedule}
    (hs : (run (step rt) b' calls).schedule? x.schedule = some s) :
    s.redemptions.length = a.userCount.toNat ∧ s.merkleRoot = a.merkleRoot.bytes ∧
      rt.createProgramAddress [scheduleSeed1, deriveEventId s.eventId, [s.nonce]] =
        some x.schedule := by
  obtain ⟨-, bump, -, hfind, hs₀⟩ := createSchedule_schedule? hrt hc h
  obtain ⟨s', hs', hext⟩ := extends_run hrt hs₀ calls
  obtain rfl := Option.some.inj (hs.symm.trans hs')
  refine ⟨?_, ?_, ?_⟩
  · rw [hext.length]
    simp [CreateScheduleArgs.schedule]
  · rw [hext.fixed]
    rfl
  · rw [hext.fixed]
    exact rt.create_of_find hfind

/-- The call creates a schedule that the schedule `s` at `k` may since have become. -/
def Originates (k : Pubkey) (s : Schedule) (_ : Bank) (c : Call) : Prop :=
  ∃ x a bump, c.instruction = .createSchedule x a ∧ x.schedule = k ∧
    (a.schedule x.vault bump).Extends s

/-- A schedule that was not there from the start has been created in the run. -/
theorem schedule_origin (hrt : rt.Lawful) (hnone : b.schedule? k = none) (calls : List Call)
    {s : Schedule} (hs : (run (step rt) b calls).schedule? k = some s) :
    Occurs (step rt) (Originates k s) b calls := by
  refine run_induction (P := fun calls b' => b' = run (step rt) b calls → ∀ s,
    b'.schedule? k = some s → Occurs (step rt) (Originates k s) b calls) b calls ?_ ?_ ?_ rfl s hs
  · intro _ s hs
    cases hnone.symm.trans hs
  · intro before c _ b' _ ih hok _ s hs
    rw [occurs_concat]
    cases hold : (run (step rt) b before).schedule? k with
    | some s₀ =>
      obtain ⟨s', hs', hstep⟩ := schedule_step hrt hok hold
      obtain rfl := Option.some.inj (hs.symm.trans hs')
      refine .inl ((ih rfl s₀ hold).mono ?_)
      rintro - c ⟨x, a, bump, hc, hk, hext⟩
      exact ⟨x, a, bump, hc, hk, hext.trans hstep.extends⟩
    | none =>
      obtain ⟨x, a, -, bump, hc, hk, -, -, -, -, -, rfl⟩ := schedule_created hrt hok hold hs
      exact .inr ⟨⟨b', hok⟩, x, a, bump, hc, hk, .refl _⟩
  · intro before c e ih _ _ s hs
    rw [occurs_concat]
    exact .inl (ih rfl s hs)

theorem VaultStep.fixed {v v' : Vault} (h : VaultStep b c k v v') :
    v'.objType = v.objType ∧ v'.signerNonce = v.signerNonce := by
  cases h <;> exact ⟨rfl, rfl⟩

/-- A vault stays through any run, of its type and with its nonce. -/
theorem vault_run (hrt : rt.Lawful) {v : Vault} (hv : b.vault? k = some v) (calls : List Call) :
    ∃ v', (run (step rt) b calls).vault? k = some v' ∧ v'.objType = v.objType ∧
      v'.signerNonce = v.signerNonce := by
  refine run_keeps (fun b : Bank => b.vault? k)
    (fun v v' => v'.objType = v.objType ∧ v'.signerNonce = v.signerNonce) ?_ ?_ ?_ hv calls
  · intro v
    exact ⟨rfl, rfl⟩
  · intro u v w huv hvw
    exact ⟨hvw.1.trans huv.1, hvw.2.trans huv.2⟩
  · intro b c b' v hok hv
    obtain ⟨v', hv', hstep⟩ := vault_step hrt hok hv
    exact ⟨v', hv', hstep.fixed⟩

/-! ## Well-formed accounts -/

/-- What the program's accounts have in common in every state that it reaches. -/
structure Bank.WellFormed (rt : Runtime) (b : Bank) : Prop where
  /-- A vault stores the canonical bump of its signer. -/
  signerNonce : ∀ k v, b.vault? k = some v →
    ∃ p, rt.findProgramAddress [signerSeed1, k.bytes] = some (p, v.signerNonce)
  /-- A schedule lies at the canonical address of its event. -/
  address : ∀ k s, b.schedule? k = some s →
    rt.findProgramAddress [scheduleSeed1, deriveEventId s.eventId] = some (k, s.nonce)
  merkleRoot : ∀ k s, b.schedule? k = some s → s.merkleRoot.length = 32
  vaultId : ∀ k s, b.schedule? k = some s → ∃ v, b.vault? s.vaultId = some v

theorem Bank.read_of_unused {α : Type} {l : Layout α} (h : ∀ k d, (b k).content ≠ .program d) :
    b.read l k = none := by
  unfold Bank.read
  split
  · rename_i d hd
    exact absurd hd (h k d)
  · rfl

theorem wellFormed_of_unused (h : ∀ k d, (b k).content ≠ .program d) : b.WellFormed rt := by
  constructor
  · intro k v hv
    cases (Bank.read_of_unused h).symm.trans hv
  all_goals
    intro k s hs
    cases (Bank.read_of_unused h).symm.trans hs

theorem wellFormed_step (hrt : rt.Lawful) (hb : b.WellFormed rt) (h : step rt b c = .ok b') :
    b'.WellFormed rt := by
  -- a schedule of the new state was there before, or has just been created
  have hschedule {k : Pubkey} {s : Schedule} (hs : b'.schedule? k = some s) :
      rt.findProgramAddress [scheduleSeed1, deriveEventId s.eventId] = some (k, s.nonce) ∧
        s.merkleRoot.length = 32 ∧ ∃ v, b.vault? s.vaultId = some v := by
    cases hold : b.schedule? k with
    | some s₀ =>
      obtain ⟨s', hs', hstep⟩ := schedule_step hrt h hold
      obtain rfl := Option.some.inj (hs.symm.trans hs')
      rw [hstep.extends.fixed]
      exact ⟨hb.address k s₀ hold, hb.merkleRoot k s₀ hold, hb.vaultId k s₀ hold⟩
    | none =>
      obtain ⟨x, a, v, bump, -, -, -, hv, -, -, hfind, rfl⟩ := schedule_created hrt h hold hs
      exact ⟨hfind, a.merkleRoot.length_bytes, v, hv⟩
  constructor
  · intro k v hv
    cases hold : b.vault? k with
    | some v₀ =>
      obtain ⟨v', hv', hstep⟩ := vault_step hrt h hold
      obtain rfl := Option.some.inj (hv.symm.trans hv')
      rw [hstep.fixed.2]
      exact hb.signerNonce k v₀ hold
    | none =>
      obtain ⟨x, vaultPath, p, nonce, -, -, -, -, hfind, rfl⟩ := vault_created hrt h hold hv
      exact ⟨p, hfind⟩
  · intro k s hs
    exact (hschedule hs).1
  · intro k s hs
    exact (hschedule hs).2.1
  · intro k s hs
    obtain ⟨v, hv⟩ := (hschedule hs).2.2
    obtain ⟨v', hv', -⟩ := vault_step hrt h hv
    exact ⟨v', hv'⟩

/-- Accounts stay well formed over any run. -/
theorem wellFormed_run (hrt : rt.Lawful) (hb : b.WellFormed rt) (calls : List Call) :
    (run (step rt) b calls).WellFormed rt := by
  apply run_invariant b calls hb
  intro s c s' _ hs hok
  exact wellFormed_step hrt hs hok

end Coin98Vault

import Coin98Vault.Program.Addresses

/-!
# What foreign calls leave alone

Calls that name other vaults and that strangers sign: the accounts of a vault, the assets of
its signer and the addresses it has not used yet stay as they are.
-/

namespace Coin98Vault

open Trace

/-- The vault and its schedules hold the same in both banks. -/
structure AgreeOn (vault : Pubkey) (b b' : Bank) : Prop where
  account : (b' vault).content = (b vault).content
  schedules : ∀ k s, s.vaultId = vault → b.schedule? k = some s ∨ b'.schedule? k = some s →
    (b' k).content = (b k).content

namespace AgreeOn

variable {vault : Pubkey} {b b' b'' : Bank}

theorem refl (vault : Pubkey) (b : Bank) : AgreeOn vault b b := ⟨rfl, fun _ _ _ _ => rfl⟩

theorem symm (h : AgreeOn vault b b') : AgreeOn vault b' b :=
  ⟨h.account.symm, fun k s hs hk => (h.schedules k s hs hk.symm).symm⟩

theorem trans (h : AgreeOn vault b b') (h' : AgreeOn vault b' b'') : AgreeOn vault b b'' := by
  refine ⟨h'.account.trans h.account, fun k s hs hk => ?_⟩
  rcases hk with hk | hk
  · have hfirst := h.schedules k s hs (.inl hk)
    have hmid : b'.schedule? k = some s := by rw [← hk]; exact Bank.read_congr hfirst
    rw [h'.schedules k s hs (.inl hmid), hfirst]
  · have hsecond := h'.schedules k s hs (.inr hk)
    have hmid : b'.schedule? k = some s := by rw [← hk]; exact (Bank.read_congr hsecond).symm
    rw [hsecond, h.schedules k s hs (.inr hmid)]

theorem vault? (h : AgreeOn vault b b') : b'.vault? vault = b.vault? vault :=
  Bank.read_congr h.account

/-- The same write on both sides keeps the agreement. -/
theorem setContent (h : AgreeOn vault b b') (k : Pubkey) (c : Content) :
    AgreeOn vault (b.setContent k c) (b'.setContent k c) := by
  have hother {x : Pubkey} (hx : x ≠ k) {b₀ : Bank} : (b₀.setContent k c x).content =
      (b₀ x).content := by rw [Bank.setContent_of_ne _ _ hx]
  constructor
  · by_cases hv : vault = k
    · subst hv; simp
    · rw [hother hv, hother hv, h.account]
  · intro x s hs hx
    by_cases hk : x = k
    · subst hk; simp
    · rw [hother hk, hother hk]
      apply h.schedules x s hs
      exact hx.imp (fun h => by rw [← h]; exact (Bank.read_congr (hother hk)).symm)
        (fun h => by rw [← h]; exact (Bank.read_congr (hother hk)).symm)

end AgreeOn

private theorem Bank.content_of_evolves_of_read {α : Type} {l : Layout α} {b b' : Bank}
    {k : Pubkey} {a : α} (hev : (b k).content.Evolves (b' k).content)
    (h : b.read l k = some a ∨ b'.read l k = some a) :
    (b' k).content = (b k).content := by
  unfold Bank.read at h
  generalize (b k).content = c at hev h
  generalize (b' k).content = c' at hev h
  cases hev with
  | refl => rfl
  | token => simp at h

/-- Transfers do not touch the accounts of a vault. -/
theorem Bank.Evolves.agreeOn {vault : Pubkey} {b b' : Bank} {v : Vault} (h : b.Evolves b')
    (hv : b.vault? vault = some v) : AgreeOn vault b b' :=
  ⟨Bank.content_of_evolves_of_read (h vault) (.inl hv),
    fun k _ _ hk => Bank.content_of_evolves_of_read (h k) hk⟩

section
variable {rt : Runtime} {b b' : Bank} {c : Call} {vault k p : Pubkey} {v : Vault}

/-- What a call writes belongs to the vault that it names. -/
theorem Accepted.elsewhere {tx : Tx} {i : Instruction} {val : Value}
    (h : Accepted rt tx b i (some (k, val))) (hi : i.vault ≠ vault)
    (hv : b.vault? vault = some v) :
    k ≠ vault ∧ (∀ s, b.schedule? k = some s → s.vaultId ≠ vault) ∧
      ∀ s, val = .schedule s → s.vaultId ≠ vault := by
  have hwallet {x : Pubkey} (hx : (b x).content = .wallet) :
      x ≠ vault ∧ ∀ s, b.schedule? x = some s → s.vaultId ≠ vault := by
    constructor
    · rintro rfl
      exact Bank.not_wallet_of_read hv hx
    · intro s hs
      exact absurd hx (Bank.not_wallet_of_read hs)
  have hvault {x : Pubkey} {u : Vault} (hx : b.vault? x = some u) :
      ∀ s, b.schedule? x = some s → s.vaultId ≠ vault := by
    intro s hs
    rw [Bank.schedule?_eq_none hx] at hs
    cases hs
  have hschedule {x : Pubkey} {s : Schedule} (hx : b.schedule? x = some s) : x ≠ vault := by
    rintro rfl
    rw [Bank.vault?_eq_none hx] at hv
    cases hv
  cases h with
  | createVault _ unused => exact ⟨hi, (hwallet unused).2, by simp⟩
  | setVault account => exact ⟨hi, hvault account, by simp⟩
  | createSchedule _ _ _ unused =>
    refine ⟨(hwallet unused).1, (hwallet unused).2, ?_⟩
    rintro s ⟨⟩
    exact hi
  | @setScheduleStatus x isActive u s _ schedule _ link =>
    refine ⟨hschedule schedule, ?_, ?_⟩
    · intro s' hs'
      obtain rfl := Option.some.inj (schedule.symm.trans hs')
      exact link ▸ hi
    · rintro s' ⟨⟩
      exact link ▸ hi
  | @claim i cl u s hcl admitted =>
    have hother : s.vaultId ≠ vault := by
      rw [admitted.link, ← Instruction.vault_of_claim? hcl]
      exact hi
    refine ⟨hschedule admitted.schedule, ?_, ?_⟩
    · intro s' hs'
      obtain rfl := Option.some.inj (admitted.schedule.symm.trans hs')
      exact hother
    · rintro s' ⟨⟩
      exact hother
  | transferOwnership account => exact ⟨hi, hvault account, by simp⟩
  | acceptOwnership account => exact ⟨hi, hvault account, by simp⟩

theorem agreeOn_step (hrt : rt.Lawful) (h : step rt b c = .ok b') (hi : c.instruction.vault ≠ vault)
    (hv : b.vault? vault = some v) : AgreeOn vault b b' := by
  obtain ⟨w, -, hst⟩ := step_eq_ok hrt h
  have hevolves {x : Pubkey} (hx : ∀ val, w = some (x, val) → False) :
      (b x).content.Evolves (b' x).content := hst.others x fun val => hx val
  constructor
  · refine Bank.content_of_evolves_of_read (hevolves fun val hw => ?_) (.inl hv)
    have hacc := hst.accepted
    rw [hw] at hacc
    exact (hacc.elsewhere hi hv).1 rfl
  · intro x s hs hx
    refine Bank.content_of_evolves_of_read (hevolves fun val hw => ?_) hx
    subst hw
    obtain ⟨-, hold, hnew⟩ := hst.accepted.elsewhere hi hv
    rcases hx with hx | hx
    · exact hold s hx hs
    · rw [← Bank.value?_eq_schedule, hst.value?_written, Option.some.injEq] at hx
      exact hnew s hx hs

private theorem wallet_step (hrt : rt.Lawful) (h : step rt b c = .ok b')
    (hk : (b k).content = .wallet) (hnew : ∀ space, c.instruction.created? ≠ some (k, space)) :
    (b' k).content = .wallet := by
  obtain ⟨w, -, hst⟩ := step_eq_ok hrt h
  by_cases hw : ∃ val, w = some (k, val)
  · obtain ⟨val, rfl⟩ := hw
    obtain ⟨d, -, hd, -⟩ := hst.stored k val rfl
    unfold Call.dataOf at hd
    rcases hc : c.instruction.created? with _ | ⟨x, space⟩ <;> simp only [hc] at hd
    · rw [Bank.data?_eq_some, hk] at hd
      cases hd
    · split at hd
      · rename_i hx
        exact absurd (hx ▸ hc) (hnew space)
      · rw [Bank.data?_eq_some, hk] at hd
        cases hd
  · have hnone : b.token? k = none := by simp [Bank.token?, hk]
    rw [Bank.content_of_evolves (hst.others k (not_exists.mp hw)) hnone, hk]

/-- Token accounts stay token accounts, and what is not a multisig does not become one. -/
theorem kinds_step (hrt : rt.Lawful) (h : step rt b c = .ok b') :
    (∀ t, b.token? k = some t → ∃ t', b'.token? k = some t' ∧ t.Evolves t') ∧
      ((b k).content ≠ .multisig → (b' k).content ≠ .multisig) := by
  obtain ⟨w, -, hst⟩ := step_eq_ok hrt h
  by_cases hw : ∃ val, w = some (k, val)
  · obtain ⟨val, rfl⟩ := hw
    obtain ⟨d, d', hd, -, hd'⟩ := hst.stored k val rfl
    constructor
    · intro t ht
      rw [hst.accepted.token?_of_dataOf hd] at ht
      cases ht
    · intro _
      rw [hd']
      simp
  · have hev := hst.others k (not_exists.mp hw)
    constructor
    · intro t ht
      exact Bank.token?_of_evolves hev ht
    · intro hne
      generalize (b k).content = content at hev hne
      generalize (b' k).content = content' at hev
      cases hev with
      | refl => exact hne
      | token => simp

/-! ## Runs -/

theorem agreeOn_run (hrt : rt.Lawful) (hv : b.vault? vault = some v) {calls : List Call}
    (hcalls : ∀ c ∈ calls, c.instruction.vault ≠ vault) :
    AgreeOn vault b (run (step rt) b calls) := by
  apply run_invariant b calls (AgreeOn.refl vault b)
  intro s c s' hc hs hok
  exact hs.trans (agreeOn_step hrt hok (hcalls c hc) (hs.vault?.trans hv))

theorem wallet_run (hrt : rt.Lawful) (hk : (b k).content = .wallet) {calls : List Call}
    (hnew : ∀ c ∈ calls, ∀ s s' space, step rt s c = .ok s' →
      c.instruction.created? ≠ some (k, space)) :
    (run (step rt) b calls k).content = .wallet := by
  apply run_invariant (P := fun s => (s k).content = .wallet) b calls hk
  intro s c s' hc hs hok
  exact wallet_step hrt hok hs fun space => hnew c hc s s' space hok

theorem kinds_run (hrt : rt.Lawful) (calls : List Call) :
    (∀ t, b.token? k = some t → ∃ t', (run (step rt) b calls).token? k = some t' ∧ t.Evolves t') ∧
      ((b k).content ≠ .multisig → (run (step rt) b calls k).content ≠ .multisig) := by
  constructor
  · intro t ht
    refine run_keeps (fun b : Bank => b.token? k) TokenAccount.Evolves .refl ?_ ?_ ht calls
    · intro t u v
      exact .trans
    · intro s c s' t hok
      exact (kinds_step hrt hok).1 t
  · intro hne
    apply run_invariant (P := fun s => (s k).content ≠ .multisig) b calls hne
    intro s c s' _ hs hok
    exact (kinds_step hrt hok).2 hs

/-- The key authorises none of the calls that succeed in the run. -/
def Idle (rt : Runtime) (b : Bank) (calls : List Call) (p : Pubkey) : Prop :=
  ∀ before c after s', calls = before ++ c :: after →
    step rt (run (step rt) b before) c = .ok s' → ¬ c.Authorises p

theorem keeps_run (hrt : rt.Lawful) (b : Bank) (calls : List Call) :
    Bank.Keeps (Idle rt b calls) b (run (step rt) b calls) := by
  apply run_induction (P := fun _ s => Bank.Keeps (Idle rt b calls) b s) b calls (.refl _ b)
  · intro before c after s' hcalls hs hok
    obtain ⟨w, -, hst⟩ := step_eq_ok hrt hok
    exact hs.trans (hst.keeps.mono fun p hp => hp before c after s' hcalls hok)
  · intro before c e hs _
    exact hs

/-- A key with a signature of its own authorises no call that it does not sign. -/
theorem idle_of_stranger (hrt : rt.Lawful) {calls : List Call} (hp : ¬ rt.IsDerived p)
    (hsigned : ∀ c ∈ calls, p ∉ c.signers) : Idle rt b calls p := by
  intro before c after s' hcalls hok hauth
  rcases hauth with hs | ⟨x, hx⟩
  · exact hsigned c (by simp [hcalls]) hs
  · obtain ⟨w, -, hst⟩ := step_eq_ok hrt hok
    obtain ⟨u, -, hu⟩ := hst.accepted.payer hx
    exact hp ⟨_, hu⟩

/-- A derived key authorises no call that pays from another key. -/
theorem idle_of_derived (hrt : rt.Lawful) {calls : List Call} {y : Bytes}
    (hy : rt.sha256 y = p) (hsigned : ∀ c ∈ calls, p ∉ c.signers)
    (hsha : CollisionFree rt.sha256 (y :: signerStrings rt vault b calls))
    (hne : ∀ c ∈ calls, ∀ x u q, c.instruction.payer? = some (x, q) →
      rt.derivation (signerSeeds x u) ≠ y) : Idle rt b calls p := by
  intro before c after s' hcalls hok hauth
  have hc : c ∈ calls := by simp [hcalls]
  rcases hauth with hs | ⟨x, hx⟩
  · exact hsigned c hc hs
  · obtain ⟨w, -, hst⟩ := step_eq_ok hrt hok
    obtain ⟨u, hu, hpu⟩ := hst.accepted.payer hx
    apply hne c hc x u p hx
    apply hsha
    · apply List.mem_cons_of_mem
      apply mem_signerStrings hcalls
      simp [hx, signerString, hu]
    · simp
    · rw [(rt.createProgramAddress_eq_some.mp hpu).2, hy]

/-- The keys on whose authority a call can draw: those that sign it, and the signers of the vault
that it names. -/
def Call.Brings (rt : Runtime) (c : Call) (k : Pubkey) : Prop :=
  k ∈ c.signers ∨
    ∃ bump, rt.createProgramAddress [signerSeed1, c.instruction.vault.bytes, [bump]] = some k

theorem idle_of_not_brings (hrt : rt.Lawful) {calls : List Call}
    (hp : ∀ c ∈ calls, ¬ c.Brings rt p) : Idle rt b calls p := by
  intro before c after s' hcalls hok hauth
  apply hp c (by simp [hcalls])
  rcases hauth with hs | ⟨x, hx⟩
  · exact .inl hs
  · obtain ⟨w, -, hst⟩ := step_eq_ok hrt hok
    obtain ⟨u, -, hpu⟩ := hst.accepted.payer hx
    refine .inr ⟨u.signerNonce, ?_⟩
    rw [Instruction.vault_of_payer? hx]
    exact hpu

/-- No call of a run creates an account at the hash of a string that none of them hashes. -/
theorem not_created (hrt : rt.Lawful) {calls : List Call} {y : Bytes} (hy : rt.sha256 y = k)
    (hsha : CollisionFree rt.sha256 (y :: calls.filterMap fun c => createdString rt c.instruction))
    (hne : ∀ c ∈ calls, createdString rt c.instruction ≠ some y) :
    ∀ c ∈ calls, ∀ s s' space, step rt s c = .ok s' →
      c.instruction.created? ≠ some (k, space) := by
  intro c hc s s' space hok hcr
  obtain ⟨x, hx, hk, -⟩ := created_address hrt hok hcr
  have hxy : x = y := by
    apply hsha
    · exact List.mem_cons_of_mem _ (List.mem_filterMap.mpr ⟨c, hc, hx⟩)
    · simp
    · rw [hk, hy]
  exact hne c hc (hxy ▸ hx)

/-! ## The same call later -/

/-- What is written on exit is written later too, if the account is still the same. -/
theorem exit_later {bank bank' f : Bank} {w : Option (Pubkey × Value)}
    (h : exit ⟨bank, w⟩ = .ok f) (hagree : AgreeOn vault bank bank')
    (hw : ∀ x val, w = some (x, val) → (bank' x).content = (bank x).content) :
    ∃ f', exit ⟨bank', w⟩ = .ok f' ∧ AgreeOn vault f f' := by
  cases w with
  | none =>
    obtain rfl := exit_none.mp h
    exact ⟨bank', exit_none.mpr rfl, hagree⟩
  | some kv =>
    obtain ⟨x, val⟩ := kv
    obtain ⟨d, d', hd, hwrite, rfl⟩ := exit_some.mp h
    have hd' : (bank' x).content = .program d := (hw x val rfl).trans hd
    exact ⟨_, exit_some.mpr ⟨d, d', hd', hwrite, rfl⟩, hagree.setContent x _⟩

end

end Coin98Vault

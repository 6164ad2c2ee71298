import Coin98Vault.Program.Addresses
import Coin98Vault.Program.Reference

/-!
# Size and rent of the accounts of the program

An account of the program keeps its size, and its lamports only grow.
-/

namespace Coin98Vault

open Trace

/-- The bytes of an account are those allocated for a vault or for a schedule, and their rent is
paid. -/
structure Bank.Allocated (rt : Runtime) (b : Bank) (k : Pubkey) (d : Bytes) : Prop where
  rent : (rt.minimumBalance d.length).toNat ≤ (b k).lamports
  kind : (∃ v, b.vault? k = some v ∧ d.length = 16 + Vault.size) ∨
    ∃ s userCount, b.schedule? k = some s ∧ s.redemptions.length = UInt16.toNat userCount ∧
      d.length = 16 + Schedule.size userCount

section
variable {rt : Runtime} {b b' : Bank} {c : Call} {k : Pubkey} {d : Bytes}

/-! ## Lamports -/

private theorem Transfers.lamports_le (hrt : rt.Lawful) {keys : Pubkey → Prop}
    (h : Transfers rt keys b b') (hk : (b k).content ≠ .wallet) :
    (b k).lamports ≤ (b' k).lamports := by
  induction h with
  | refl => exact le_rfl
  | @tail b₁ b₂ hbefore hlast ih =>
    obtain ⟨key, -, htransfer⟩ := hlast
    apply ih.trans
    cases htransfer with
    | lamports target amount hp =>
      obtain ⟨hwallet, hle, rfl⟩ := (hrt.system _ _ _ _ _).mp hp
      have hev := Transfers.evolves hrt hbefore k
      have hne : k ≠ key := by
        rintro rfl
        apply hk
        rw [hwallet] at hev
        cases hcontent : (b k).content <;> rw [hcontent] at hev <;> cases hev
      have hmove := b₁.moveLamports_lamports key target hle k
      rw [if_neg hne] at hmove
      omega
    | tokens source target amount hp => exact (hrt.token.lamports hp k).ge

private theorem lamports_step (hrt : rt.Lawful) (h : step rt b c = .ok b')
    (hk : (b k).content = .program d) : (b k).lamports ≤ (b' k).lamports := by
  obtain ⟨o, hh, hexit⟩ := step_eq_ok_iff.mp h
  obtain ⟨-, b₁, hmoved, hbank⟩ := handle_eq_ok hrt hh
  have hle : (b k).lamports ≤ (b₁ k).lamports := hmoved.lamports_le hrt (by simp [hk])
  have ho : (o.bank k).lamports = (b₁ k).lamports := by
    rw [hbank]
    cases c.instruction.created? with
    | none => rfl
    | some created => exact Bank.setContent_lamports _ _ _ _
  obtain ⟨bank, w⟩ := o
  cases w with
  | none =>
    rw [exit_none.mp hexit, ho]
    exact hle
  | some kv =>
    obtain ⟨d₁, d₂, -, -, rfl⟩ := exit_some.mp hexit
    rw [Bank.setContent_lamports, ho]
    exact hle

private theorem init_rent (hrt : rt.Lawful) {tx : Tx} {payer : Pubkey} {seeds : List Bytes}
    {space : Nat} {bump : UInt8} (h : init rt tx b payer k seeds space = .ok (b', bump)) :
    (rt.minimumBalance space).toNat ≤ (b' k).lamports := by
  obtain ⟨-, -, hpayer, -, -, b₁, hfund, rfl⟩ := (init_eq_ok hrt).mp h
  rw [Bank.setContent_lamports]
  unfold fund at hfund
  by_cases hempty : (b k).lamports = 0
  · have hfunds : initFunds rt b k space = rt.minimumBalance space := if_pos hempty
    rw [if_pos (.inl hempty), hfunds] at hfund
    obtain ⟨-, -, -, -, -, hle, rfl⟩ := (transferLamport_eq_ok hrt).mp hfund
    have hmove := b.moveLamports_lamports payer k hle k
    rw [if_pos rfl] at hmove
    by_cases hself : k = payer
    · -- an empty account that pays for itself pays for nothing
      rw [← hself, hempty] at hle
      omega
    · rw [if_neg hself] at hmove
      omega
  · have hne : payer ≠ k := hpayer.resolve_left hempty
    have hfunds : (initFunds rt b k space).toNat =
        max (rt.minimumBalance space).toNat 1 - (b k).lamports := by
      have hlt := (rt.minimumBalance space).toNat_lt
      rw [initFunds, if_neg hempty, UInt64.toNat_ofNat']
      exact Nat.mod_eq_of_lt (by omega)
    split at hfund
    · obtain ⟨-, -, -, -, -, hle, rfl⟩ := (transferLamport_eq_ok hrt).mp hfund
      have hmove := b.moveLamports_lamports payer k hle k
      rw [if_pos rfl, if_neg hne.symm] at hmove
      omega
    · rename_i hfunded
      obtain rfl := pure_eq_ok.mp hfund
      have hzero : ¬ 0 < initFunds rt b k space := fun hpos => hfunded (.inr hpos)
      rw [UInt64.lt_iff_toNat_lt, hfunds] at hzero
      simp only [UInt64.toNat_zero] at hzero
      omega

private theorem created_rent (hrt : rt.Lawful) (h : step rt b c = .ok b') {space : Nat}
    (hc : c.instruction.created? = some (k, space)) :
    (rt.minimumBalance space).toNat ≤ (b' k).lamports := by
  obtain ⟨o, hh, hexit⟩ := step_eq_ok_iff.mp h
  obtain ⟨tx, i⟩ := c
  cases i with
  | createVault x vaultPath =>
    obtain ⟨rfl, rfl⟩ : x.vault = k ∧ 16 + Vault.size = space := by
      simpa [Instruction.created?] using hc
    obtain ⟨-, -, -, b₁, bump, p, n, hinit, -, rfl⟩ := (createVault_eq_ok hrt).mp hh
    obtain ⟨d₁, d₂, -, -, rfl⟩ := exit_some.mp hexit
    rw [Bank.setContent_lamports]
    exact init_rent hrt hinit
  | createSchedule x a =>
    obtain ⟨rfl, rfl⟩ : x.schedule = k ∧ 16 + Schedule.size a.userCount = space := by
      simpa [Instruction.created?] using hc
    obtain ⟨v, -, -, -, -, -, b₁, bump, hinit, rfl⟩ := (createSchedule_eq_ok hrt).mp hh
    obtain ⟨d₁, d₂, -, -, rfl⟩ := exit_some.mp hexit
    rw [Bank.setContent_lamports]
    exact init_rent hrt hinit
  | _ => simp [Instruction.created?] at hc

/-! ## Sizes -/

private theorem size_step (hrt : rt.Lawful) (h : step rt b c = .ok b')
    (hk : (b k).content = .program d) :
    ∃ d', (b' k).content = .program d' ∧ d'.length = d.length := by
  obtain ⟨w, -, hst⟩ := step_eq_ok hrt h
  by_cases hw : ∃ val, w = some (k, val)
  · obtain ⟨val, rfl⟩ := hw
    obtain ⟨d₁, d₂, hd₁, hwrite, hd₂⟩ := hst.stored k val rfl
    refine ⟨d₂, hd₂, ?_⟩
    have hsame : d₁ = d := by
      unfold Call.dataOf at hd₁
      split at hd₁
      · rename_i x space hcreated
        have hne : k ≠ x := by
          rintro rfl
          have hwallet := (hst.accepted.created hcreated).1
          rw [hk] at hwallet
          cases hwallet
        rw [if_neg hne, Bank.data?_eq_some.mpr hk] at hd₁
        exact (Option.some.inj hd₁).symm
      · rw [Bank.data?_eq_some.mpr hk] at hd₁
        exact (Option.some.inj hd₁).symm
    rw [Value.length_of_write hwrite, hsame]
  · rw [not_exists] at hw
    have hcontent := Bank.content_of_evolves (hst.others k hw) (Bank.token?_of_program hk)
    exact ⟨d, hcontent.trans hk, rfl⟩

private theorem created_of_program (hrt : rt.Lawful) (h : step rt b c = .ok b')
    (hnew : (b' k).content = .program d) (hold : ∀ d, (b k).content ≠ .program d) :
    ∃ space, c.instruction.created? = some (k, space) ∧ d.length = space := by
  obtain ⟨w, -, hst⟩ := step_eq_ok hrt h
  by_cases hw : ∃ val, w = some (k, val)
  · obtain ⟨val, rfl⟩ := hw
    obtain ⟨d₁, d₂, hd₁, hwrite, hd₂⟩ := hst.stored k val rfl
    obtain rfl : d₂ = d := Content.program.inj (hd₂.symm.trans hnew)
    unfold Call.dataOf at hd₁
    split at hd₁
    · rename_i x space hcreated
      split at hd₁
      · rename_i hx
        subst hx
        obtain rfl := Option.some.inj hd₁
        refine ⟨space, hcreated, ?_⟩
        rw [Value.length_of_write hwrite, List.length_replicate]
      · exact absurd (Bank.data?_eq_some.mp hd₁) (hold d₁)
    · exact absurd (Bank.data?_eq_some.mp hd₁) (hold d₁)
  · rw [not_exists] at hw
    have hev := hst.others k hw
    rw [hnew] at hev
    cases hcontent : (b k).content <;> rw [hcontent] at hev <;> cases hev
    exact absurd hcontent (hold d)

private theorem allocated_step (hrt : rt.Lawful) (h : step rt b c = .ok b')
    (hb : ∀ k d, (b k).content = .program d → b.Allocated rt k d)
    (hk : (b' k).content = .program d) : b'.Allocated rt k d := by
  by_cases hold : ∃ d₀, (b k).content = .program d₀
  · obtain ⟨d₀, hd₀⟩ := hold
    obtain ⟨d₁, hd₁, hlen⟩ := size_step hrt h hd₀
    obtain rfl : d₁ = d := Content.program.inj (hd₁.symm.trans hk)
    obtain ⟨hrent, hkind⟩ := hb k d₀ hd₀
    constructor
    · rw [hlen]
      exact hrent.trans (lamports_step hrt h hd₀)
    · rw [hlen]
      rcases hkind with ⟨v, hv, hsize⟩ | ⟨s, n, hs, hbits, hsize⟩
      · obtain ⟨v', hv', -⟩ := vault_step hrt h hv
        exact .inl ⟨v', hv', hsize⟩
      · obtain ⟨s', hs', hstep⟩ := schedule_step hrt h hs
        exact .inr ⟨s', n, hs', hstep.extends.length.trans hbits, hsize⟩
  · rw [not_exists] at hold
    obtain ⟨space, hcreated, hlen⟩ := created_of_program hrt h hk hold
    constructor
    · rw [hlen]
      exact created_rent hrt h hcreated
    · rw [hlen]
      obtain ⟨w, -, hst⟩ := step_eq_ok hrt h
      have hacc := hst.accepted
      obtain ⟨-, val, rfl⟩ := hacc.created hcreated
      have hval := hst.value?_written
      obtain ⟨tx, i⟩ := c
      cases i with
      | createVault x vaultPath =>
        cases hacc with
        | claim hcl => cases hcl
        | createVault =>
          obtain rfl : 16 + Vault.size = space := by
            simpa [Instruction.created?] using hcreated
          exact .inl ⟨_, Bank.value?_eq_vault.mp hval, rfl⟩
      | createSchedule x a =>
        cases hacc with
        | claim hcl => cases hcl
        | createSchedule =>
          obtain rfl : 16 + Schedule.size a.userCount = space := by
            simpa [Instruction.created?] using hcreated
          refine .inr ⟨_, a.userCount, Bank.value?_eq_schedule.mp hval, ?_, rfl⟩
          simp [CreateScheduleArgs.schedule]
      | _ => simp [Instruction.created?] at hcreated

theorem allocated_run (hrt : rt.Lawful) (hb : ∀ k d, (b k).content = .program d →
    b.Allocated rt k d) (calls : List Call) :
    ∀ k d, (run (step rt) b calls k).content = .program d →
      (run (step rt) b calls).Allocated rt k d := by
  refine run_invariant (P := fun b => ∀ k d, (b k).content = .program d → b.Allocated rt k d) b
    calls hb ?_
  intro t c t' _ ht hok k d hk
  exact allocated_step hrt hok ht hk

private theorem kept_run (hrt : rt.Lawful) (hk : (b k).content = .program d) (calls : List Call) :
    ∃ d', (run (step rt) b calls k).content = .program d' ∧ d'.length = d.length ∧
      (b k).lamports ≤ (run (step rt) b calls k).lamports := by
  refine run_invariant (P := fun t : Bank => ∃ d', (t k).content = .program d' ∧
    d'.length = d.length ∧ (b k).lamports ≤ (t k).lamports) b calls ⟨d, hk, rfl, le_rfl⟩ ?_
  intro t c t' _ ht hok
  obtain ⟨d₁, hd₁, hlen, hle⟩ := ht
  obtain ⟨d₂, hd₂, hlen₂⟩ := size_step hrt hok hd₁
  exact ⟨d₂, hd₂, hlen₂.trans hlen, hle.trans (lamports_step hrt hok hd₁)⟩

theorem Bank.Allocated.vault_size (h : b.Allocated rt k d) {v : Vault} (hv : b.vault? k = some v) :
    d.length = 16 + Vault.size := by
  rcases h.kind with ⟨-, -, hsize⟩ | ⟨s, -, hs, -⟩
  · exact hsize
  · rw [Bank.vault?_eq_none hs] at hv
    cases hv

theorem Bank.Allocated.admins_le (h : b.Allocated rt k d) (hk : (b k).content = .program d)
    {v : Vault} (hv : b.vault? k = some v) : v.admins.length ≤ 16 := by
  have hread : Vault.layout.read d = some v := by
    simpa [Bank.vault?, Bank.read, hk] using hv
  have hfit := Layout.image_length_le hread
  rw [Vault.image_length, h.vault_size hv, Vault.size] at hfit
  omega

private theorem created_at (hrt : rt.Lawful) (h : step rt b c = .ok b') {seeds : List Bytes}
    (hc : c.instruction.createdSeeds? = some seeds) :
    ∃ k bump, rt.findProgramAddress seeds = some (k, bump) ∧ (b k).content = .wallet ∧
      ∃ d, (b' k).content = .program d := by
  obtain ⟨w, -, hst⟩ := step_eq_ok hrt h
  have hacc := hst.accepted
  have hstored := hst.stored
  obtain ⟨tx, i⟩ := c
  cases hacc with
  | createVault _ unused address =>
    obtain rfl := Option.some.inj hc
    obtain ⟨-, d, -, -, hd⟩ := hstored _ _ rfl
    exact ⟨_, _, address, unused, d, hd⟩
  | createSchedule _ _ _ unused address =>
    obtain rfl := Option.some.inj hc
    obtain ⟨-, d, -, -, hd⟩ := hstored _ _ rfl
    exact ⟨_, _, address, unused, d, hd⟩
  | claim hcl =>
    cases i <;> simp [Instruction.claim?, Instruction.createdSeeds?] at hcl hc
  | _ => cases hc

end

/-- An account of the program lasts: in every run it keeps its size, and its lamports only grow.
Where all accounts have been made by the program, each is a vault or a schedule of the size of its
kind and pays the rent of its bytes, so that a vault never holds more than sixteen admins. -/
theorem accounts_allocated {rt : Runtime} (hrt : rt.Lawful) (b : Bank) (calls : List Call) :
    (∀ k d, (b k).content = .program d →
      ∃ d', (run (step rt) b calls k).content = .program d' ∧ d'.length = d.length ∧
        (b k).lamports ≤ (run (step rt) b calls k).lamports) ∧
    ((∀ k d, (b k).content ≠ .program d) → ∀ k d,
      (run (step rt) b calls k).content = .program d →
        (run (step rt) b calls).Allocated rt k d ∧
        ∀ v, (run (step rt) b calls).vault? k = some v → v.admins.length ≤ 16) := by
  constructor
  · intro k d hk
    exact kept_run hrt hk calls
  · intro hunused k d hk
    have hempty : ∀ k d, (b k).content = .program d → b.Allocated rt k d :=
      fun k d hd => absurd hd (hunused k d)
    have hallocated := allocated_run hrt hempty calls k d hk
    exact ⟨hallocated, fun v hv => hallocated.admins_le hk hv⟩

open Reference in
theorem accounts_allocated_deployed :
    let b := run (step runtime) genesis [openVault, openSchedule]
    ∃ d, (b vault).content = .program d ∧ b.Allocated runtime vault d := by
  intro b
  have hdata : (b.data? vault).isSome = true := by decide +kernel
  obtain ⟨d, hd⟩ := Option.isSome_iff_exists.mp hdata
  rw [Bank.data?_eq_some] at hd
  obtain ⟨-, hall⟩ := accounts_allocated runtime_lawful genesis [openVault, openSchedule]
  exact ⟨d, hd, (hall genesis_unused vault d hd).1⟩

/-- After a creation no later call creates from the same seeds, whichever vault it names, and a
schedule keeps its vault and its event. -/
theorem created_once {rt : Runtime} (hrt : rt.Lawful) (b : Bank)
    {calls before middle after : List Call} {c c' : Call}
    (hcalls : calls = before ++ c :: middle ++ c' :: after)
    (hc : Succeeds (step rt) (run (step rt) b before) c) {seeds : List Bytes}
    (hseeds : c.instruction.createdSeeds? = some seeds)
    (hseeds' : c'.instruction.createdSeeds? = some seeds) :
    ¬ Succeeds (step rt) (run (step rt) b (before ++ c :: middle)) c' ∧
      ∀ x a, c.instruction = .createSchedule x a →
        ∃ s, (run (step rt) b calls).schedule? x.schedule = some s ∧ s.vaultId = x.vault ∧
          s.eventId = a.eventId := by
  have hrun : run (step rt) b (before ++ c :: middle) =
      run (step rt) (exec (step rt) (run (step rt) b before) c) middle := by
    rw [run_append, run_cons]
  constructor
  · rintro ⟨b', hok⟩
    obtain ⟨k, bump, hfind, -, d, hd⟩ := created_at hrt hc.step_eq hseeds
    obtain ⟨k', bump', hfind', hunused, -⟩ := created_at hrt hok hseeds'
    -- the same seeds lead to the same address, which is in use by now
    rw [hfind, Option.some.injEq, Prod.mk.injEq] at hfind'
    obtain ⟨rfl, -⟩ := hfind'
    obtain ⟨d', hd', -⟩ := kept_run hrt hd middle
    rw [hrun, hd'] at hunused
    cases hunused
  · intro x a hinstr
    obtain ⟨v, bump, -, -, hs⟩ := createSchedule_schedule? hrt hinstr hc.step_eq
    obtain ⟨s, hs', hext⟩ := extends_run hrt hs (middle ++ c' :: after)
    refine ⟨s, ?_, ?_, ?_⟩
    · rw [hcalls, List.append_assoc, run_append, List.cons_append, run_cons]
      exact hs'
    · rw [hext.fixed]
      rfl
    · rw [hext.fixed]
      rfl

open Reference in
theorem created_once_deployed :
    ¬ Succeeds (step runtime) (run (step runtime) genesis [openVault, openSchedule, redeemFirst])
      openSwapped := by
  have hok : Succeeds (step runtime) (run (step runtime) genesis [openVault]) openSchedule := by
    decide +kernel
  have hcalls : [openVault, openSchedule, redeemFirst, openSwapped] =
      [openVault] ++ openSchedule :: [redeemFirst] ++ openSwapped :: [] := rfl
  exact (created_once runtime_lawful genesis hcalls hok rfl rfl).1

end Coin98Vault

import Coin98Vault.Program.Isolation
import Coin98Vault.Program.Reference

/-!
# Vaults do not interfere, but for the event ids they share

The address of a schedule comes from its event id alone, so that a stranger can take it
first.  Apart from that, what the admins of a vault can do they can still do after any calls
of strangers on other vaults, and with the same result.
-/

namespace Coin98Vault

open Trace

/-- The six instructions by which owner and admins run a vault. -/
def Instruction.administers : Instruction → Bool
  | .setVault _ _ => true
  | .createSchedule _ _ => true
  | .setScheduleStatus _ _ => true
  | .withdrawSol _ _ => true
  | .withdrawToken _ _ => true
  | .transferOwnership _ _ => true
  | _ => false

/-- A call on another vault, signed by keys without any part in this one. -/
structure Foreign (vault : Pubkey) (v : Vault) (c : Call) : Prop where
  elsewhere : c.instruction.vault ≠ vault
  strangers : ∀ k ∈ c.signers, k ≠ v.owner ∧ k ≠ v.newOwner ∧ k ∉ v.admins

section
variable {rt : Runtime} (hrt : rt.Lawful) {tx : Tx} {b b' bank : Bank} {vault p k : Pubkey}
  {v : Vault} {w : Option (Pubkey × Value)}
include hrt

private theorem transferLamport_later {target : Pubkey} {amount : UInt64}
    {seeds : List (List Bytes)} (h : transferLamport rt tx b p target amount seeds = .ok bank)
    (hwallet : (b' p).content = .wallet) (hle : (b p).lamports ≤ (b' p).lamports) :
    ∃ bank', transferLamport rt tx b' p target amount seeds = .ok bank' ∧ b'.Evolves bank' := by
  obtain ⟨hseeds, hpw, htw, hsign, -, hamount, -⟩ := (transferLamport_eq_ok hrt).mp h
  refine ⟨_, (transferLamport_eq_ok hrt).mpr
    ⟨hseeds, hpw, htw, hsign, hwallet, hamount.trans hle, rfl⟩, ?_⟩
  intro x
  exact .of_eq (b'.moveLamports_content _ _ _ x)

private theorem transferToken_later {source target : Pubkey} {amount : UInt64}
    {seeds : List (List Bytes)} (h : transferToken rt tx b p source target amount seeds = .ok bank)
    (hsource : ∀ t, b.token? source = some t → ∃ t', b'.token? source = some t' ∧ t.Grows t')
    (htarget : ∀ t, b.token? target = some t → ∃ t', b'.token? target = some t' ∧ t.Evolves t')
    (hmulti : (b p).content ≠ .multisig → (b' p).content ≠ .multisig) :
    ∃ bank', transferToken rt tx b' p source target amount seeds = .ok bank' ∧
      b'.Evolves bank' := by
  obtain ⟨hseeds, hsw, htw, hsign, hp⟩ := transferToken_eq_ok.mp h
  obtain ⟨s, t, hs, ht, hmint, hdebit, hle, hss, hts, hno⟩ := hrt.token.requires hp
  obtain ⟨s', hs', hg, hge⟩ := hsource s hs
  obtain ⟨t', ht', hev⟩ := htarget t ht
  have hmint' : s'.mint = t'.mint := by rw [hg, hev.mint]; exact hmint
  have hdebit' : s'.CanDebit p amount.toNat := by rw [hg]; exact hdebit
  have hss' : s'.state = .initialized := by rw [hg]; exact hss
  obtain ⟨bank', hp'⟩ := hrt.token.accepts hs' ht' hmint' hdebit' (hle.trans hge) hss'
    (hev.state.trans hts) (hmulti hno)
  exact ⟨bank', transferToken_eq_ok.mpr ⟨hseeds, hsw, htw, hsign, hp'⟩,
    (Transfer.tokens source target amount hp').evolves hrt⟩

private theorem fund_evolves {payer : Pubkey} {space : Nat}
    (h : fund rt tx b payer k space = .ok bank) : ∀ x, (bank x).content = (b x).content := by
  intro x
  unfold fund at h
  split at h
  · obtain ⟨-, -, -, -, -, -, rfl⟩ := (transferLamport_eq_ok hrt).mp h
    exact b.moveLamports_content _ _ _ x
  · rw [pure_eq_ok.mp h]

omit hrt in
private theorem initFunds_le {space : Nat} (h : (b k).lamports ≤ (b' k).lamports) :
    (initFunds rt b' k space).toNat ≤ (initFunds rt b k space).toNat := by
  have hmin := (rt.minimumBalance space).toNat_lt
  have htoNat (n : Nat) : (UInt64.ofNat (max (rt.minimumBalance space).toNat 1 - n)).toNat =
      max (rt.minimumBalance space).toNat 1 - n := by
    rw [UInt64.toNat_ofNat']
    apply Nat.mod_eq_of_lt
    omega
  unfold initFunds
  split
  · split
    · exact le_rfl
    · omega
  · split
    · rw [htoNat]
      omega
    · rw [htoNat, htoNat]
      omega

private theorem fund_later {payer : Pubkey} {space : Nat}
    (h : fund rt tx b payer k space = .ok bank) (hsigned : payer ∈ tx.signers)
    (hpw : payer ∈ tx.writable) (hkw : k ∈ tx.writable)
    (hk : (b k).lamports ≤ (b' k).lamports) (hle : (b payer).lamports ≤ (b' payer).lamports)
    (hwallet : (b payer).content = .wallet → (b' payer).content = .wallet) :
    ∃ bank', fund rt tx b' payer k space = .ok bank' := by
  have hfunds : (initFunds rt b' k space).toNat ≤ (initFunds rt b k space).toNat := initFunds_le hk
  by_cases hc' : (b' k).lamports = 0 ∨ 0 < initFunds rt b' k space
  · have hc : (b k).lamports = 0 ∨ 0 < initFunds rt b k space := by
      rcases hc' with h0 | hpos
      · left
        omega
      · right
        rw [UInt64.lt_iff_toNat_lt] at hpos ⊢
        omega
    rw [fund, if_pos hc] at h
    obtain ⟨hseeds, -, -, -, hw, hamount, -⟩ := (transferLamport_eq_ok hrt).mp h
    refine ⟨b'.moveLamports payer k (initFunds rt b' k space).toNat, ?_⟩
    rw [fund, if_pos hc']
    exact (transferLamport_eq_ok hrt).mpr ⟨hseeds, hpw, hkw, .inl hsigned, hwallet hw,
      hfunds.trans (hamount.trans hle), rfl⟩
  · refine ⟨b', ?_⟩
    rw [fund, if_neg hc']
    rfl

private theorem init_later {payer : Pubkey} {seeds : List Bytes} {space : Nat} {bump : UInt8}
    (h : init rt tx b payer k seeds space = .ok (bank, bump))
    (hsigned : payer ∈ tx.signers) (hpw : payer ∈ tx.writable) (hne : payer ≠ k)
    (hk : (b k).lamports ≤ (b' k).lamports) (hle : (b payer).lamports ≤ (b' payer).lamports)
    (hwallet : (b payer).content = .wallet → (b' payer).content = .wallet)
    (hunused : (b k).content = .wallet → (b' k).content = .wallet) {u : Vault}
    (hv : b.vault? vault = some u) (hagree : AgreeOn vault b b') :
    ∃ bank', init rt tx b' payer k seeds space = .ok (bank', bump) ∧ AgreeOn vault bank bank' ∧
      (bank' k).content = (bank k).content := by
  obtain ⟨hfind, hkw, -, hkwallet, hspace, b₁, hfund, rfl⟩ := (init_eq_ok hrt).mp h
  obtain ⟨b₁', hfund'⟩ := fund_later hrt hfund hsigned hpw hkw hk hle hwallet
  refine ⟨_, (init_eq_ok hrt).mpr
    ⟨hfind, hkw, .inr hne, hunused hkwallet, hspace, b₁', hfund', rfl⟩, ?_, by simp⟩
  have hfirst : AgreeOn vault b b₁ :=
    Bank.Evolves.agreeOn (fun x => .of_eq (fund_evolves hrt hfund x)) hv
  have hsecond : AgreeOn vault b' b₁' :=
    Bank.Evolves.agreeOn (fun x => .of_eq (fund_evolves hrt hfund' x)) (hagree.vault?.trans hv)
  exact (hfirst.symm.trans (hagree.trans hsecond)).setContent k _

end

/-- The strings hashed for the addresses that matter: that of the account the call creates,
those of the signers, and those of the accounts that the foreign calls create. -/
def isolationStrings (rt : Runtime) (b : Bank) (act : Call) (calls : List Call) : List Bytes :=
  let vault := act.instruction.vault
  (createdString rt act.instruction).toList ++ (signerString rt b vault).toList ++
    signerStrings rt vault b calls ++ calls.filterMap fun c => createdString rt c.instruction

section
variable {rt : Runtime} {b f : Bank} (act : Call) {v : Vault} {calls : List Call}

/-- None of the strings collides with those of the foreign calls. -/
private theorem collisionFree_of_isolationStrings {y : Bytes}
    (hy : y ∈ isolationStrings rt b act calls)
    (hsha : CollisionFree rt.sha256 (isolationStrings rt b act calls)) :
    CollisionFree rt.sha256 (y :: signerStrings rt act.instruction.vault b calls) ∧
      CollisionFree rt.sha256 (y :: calls.filterMap fun c => createdString rt c.instruction) := by
  constructor
  · apply hsha.mono
    intro z hz
    rcases List.mem_cons.mp hz with rfl | hz
    · exact hy
    · simp [isolationStrings, hz]
  · apply hsha.mono
    intro z hz
    rcases List.mem_cons.mp hz with rfl | hz
    · exact hy
    · exact List.mem_append_right _ hz

private theorem schedule_address_later (hrt : rt.Lawful) {x : CreateScheduleContext}
    {a : CreateScheduleArgs} {bump : UInt8} (hact : act.instruction = .createSchedule x a)
    (haddress : rt.findProgramAddress [scheduleSeed1, deriveEventId a.eventId] =
      some (x.schedule, bump))
    (hsigners : ∀ c ∈ calls, ∀ k ∈ c.signers, ¬ rt.IsDerived k)
    (hsha : CollisionFree rt.sha256 (isolationStrings rt b act calls))
    (hevent : ∀ c ∈ calls, ∀ y a', c.instruction = .createSchedule y a' → a'.eventId ≠ a.eventId) :
    (b x.schedule).lamports ≤ (run (step rt) b calls x.schedule).lamports ∧
      ((b x.schedule).content = .wallet → (run (step rt) b calls x.schedule).content = .wallet) := by
  let y := rt.derivation ([scheduleSeed1, deriveEventId a.eventId] ++ [[bump]])
  have hy : rt.sha256 y = x.schedule :=
    (rt.createProgramAddress_eq_some.mp (rt.create_of_find haddress)).2
  have hstring : createdString rt act.instruction = some y := by
    rw [hact]
    simp [createdString, Instruction.createdSeeds?, haddress, y]
  obtain ⟨hpayers, hcreated⟩ :=
    collisionFree_of_isolationStrings act (y := y) (by simp [isolationStrings, hstring]) hsha
  constructor
  · apply (keeps_run hrt b calls).lamports
    refine idle_of_derived hrt hy ?_ hpayers ?_
    · intro c hc hs
      exact hsigners c hc _ hs (rt.isDerived_of_find haddress)
    · intro c _ z u q _
      exact derivation_ne rfl rfl (by decide)
  · intro hwallet
    apply wallet_run hrt hwallet
    apply not_created hrt hy hcreated
    intro c hc heq
    cases hi : c.instruction with
    | createVault z vaultPath =>
      simp only [createdString, Instruction.createdSeeds?, hi, Option.bind_some,
        Option.map_eq_some_iff] at heq
      obtain ⟨r, -, hr⟩ := heq
      exact derivation_ne rfl rfl (by decide) hr
    | createSchedule z a' =>
      simp only [createdString, Instruction.createdSeeds?, hi, Option.bind_some,
        Option.map_eq_some_iff] at heq
      obtain ⟨r, -, hr⟩ := heq
      exact hevent c hc z a' hi (scheduleSeeds_inj hr)
    | _ => simp [createdString, Instruction.createdSeeds?, hi] at heq

/-- Foreign calls draw nothing on the signer of a vault, and nothing is created at its address. -/
private theorem signer_later (hrt : rt.Lawful) {p : Pubkey}
    (hv : b.vault? act.instruction.vault = some v)
    (hp : rt.createProgramAddress (signerSeeds act.instruction.vault v) = some p)
    (hforeign : ∀ c ∈ calls, Foreign act.instruction.vault v c)
    (hsigners : ∀ c ∈ calls, ∀ k ∈ c.signers, ¬ rt.IsDerived k)
    (hsha : CollisionFree rt.sha256 (isolationStrings rt b act calls)) :
    Idle rt b calls p ∧
      ((b p).content = .wallet → (run (step rt) b calls p).content = .wallet) := by
  let y := rt.derivation (signerSeeds act.instruction.vault v)
  have hy : rt.sha256 y = p := (rt.createProgramAddress_eq_some.mp hp).2
  have hstring : y ∈ isolationStrings rt b act calls := by
    simp [isolationStrings, signerString, hv, y]
  obtain ⟨hpayers, hcreated⟩ := collisionFree_of_isolationStrings act hstring hsha
  constructor
  · refine idle_of_derived hrt hy ?_ hpayers ?_
    · intro c hc hs
      exact hsigners c hc _ hs ⟨_, hp⟩
    · intro c hc x u q hq heq
      apply (hforeign c hc).elsewhere
      rw [Instruction.vault_of_payer? hq]
      exact signerSeeds_inj heq
  · intro hwallet
    apply wallet_run hrt hwallet
    apply not_created hrt hy hcreated
    intro c _ heq
    cases hi : c.instruction <;>
      simp only [createdString, Instruction.createdSeeds?, hi, Option.bind_some,
        Option.bind_none, Option.map_eq_some_iff, reduceCtorEq] at heq
    all_goals
      obtain ⟨r, -, hr⟩ := heq
      exact derivation_ne rfl rfl (by decide) hr

end

/-- The call is handled in the later bank as well, and writes the same value. -/
def HandledLater (rt : Runtime) (later : Bank) (act : Call) (o : Outcome) : Prop :=
  ∃ bank, handle rt act.toTx later act.instruction = .ok ⟨bank, o.written⟩ ∧
    AgreeOn act.instruction.vault o.bank bank ∧
    ∀ x val, o.written = some (x, val) → (bank x).content = (o.bank x).content

section
variable {rt : Runtime} (hrt : rt.Lawful) {tx : Tx} {b : Bank} {o : Outcome} {v : Vault}
  {calls : List Call}
include hrt

theorem Foreign.agreeOn {vault : Pubkey} (hv : b.vault? vault = some v)
    (hforeign : ∀ c ∈ calls, Foreign vault v c) : AgreeOn vault b (run (step rt) b calls) := by
  apply agreeOn_run hrt hv
  intro c hc
  exact (hforeign c hc).elsewhere

private theorem createSchedule_later {x : CreateScheduleContext} {a : CreateScheduleArgs}
    (h : createSchedule rt tx b x a = .ok o) (hv : b.vault? x.vault = some v)
    (hforeign : ∀ c ∈ calls, Foreign x.vault v c) (hkeys : ∀ k ∈ tx.signers, ¬ rt.IsDerived k)
    (hsigners : ∀ c ∈ calls, ∀ k ∈ c.signers, ¬ rt.IsDerived k)
    (hsha : CollisionFree rt.sha256 (isolationStrings rt b ⟨tx, .createSchedule x a⟩ calls))
    (hevent : ∀ c ∈ calls, ∀ y a', c.instruction = .createSchedule y a' →
      a'.eventId ≠ a.eventId) :
    HandledLater rt (run (step rt) b calls) ⟨tx, .createSchedule x a⟩ o := by
  have hagree := Foreign.agreeOn hrt hv hforeign
  obtain ⟨u, hu, hs, hw, hadmin, hsys, b₁, bump, hinit, rfl⟩ := (createSchedule_eq_ok hrt).mp h
  obtain rfl : u = v := Option.some.inj (hu.symm.trans hv)
  obtain ⟨hfind, -⟩ := (init_eq_ok hrt).mp hinit
  have hadminKey : ¬ rt.IsDerived x.admin := hkeys x.admin hs
  obtain ⟨hlamports, hunused⟩ := schedule_address_later ⟨tx, .createSchedule x a⟩ hrt rfl hfind
    hsigners hsha hevent
  have hne : x.admin ≠ x.schedule := by
    intro he
    exact hadminKey (he ▸ rt.isDerived_of_find hfind)
  have hstranger : ∀ c ∈ calls, x.admin ∉ c.signers := by
    intro c hc hsigned
    obtain ⟨howner, -, hadmins⟩ := (hforeign c hc).strangers x.admin hsigned
    exact hadmin.elim howner hadmins
  have hpays := (keeps_run hrt b calls).lamports _ (idle_of_stranger hrt hadminKey hstranger)
  have hwallet (hadmin : (b x.admin).content = .wallet) :
      (run (step rt) b calls x.admin).content = .wallet := by
    apply wallet_run hrt hadmin
    intro c _ s s' space hstep hcr
    obtain ⟨-, -, -, hderived⟩ := created_address hrt hstep hcr
    exact hadminKey hderived
  obtain ⟨bank', hinit', hbank, hsame⟩ :=
    init_later hrt hinit hs hw hne hlamports hpays hwallet hunused hv hagree
  refine ⟨bank', (createSchedule_eq_ok hrt).mpr
    ⟨u, hagree.vault?.trans hv, hs, hw, hadmin, hsys, bank', bump, hinit', rfl⟩, hbank, ?_⟩
  rintro _ _ ⟨⟩
  exact hsame

private theorem withdrawSol_later {x : WithdrawSolContext} {amount : UInt64}
    (h : withdrawSol rt tx b x amount = .ok o) (hv : b.vault? x.vault = some v)
    (hforeign : ∀ c ∈ calls, Foreign x.vault v c)
    (hsigners : ∀ c ∈ calls, ∀ k ∈ c.signers, ¬ rt.IsDerived k)
    (hsha : CollisionFree rt.sha256 (isolationStrings rt b ⟨tx, .withdrawSol x amount⟩ calls)) :
    HandledLater rt (run (step rt) b calls) ⟨tx, .withdrawSol x amount⟩ o := by
  have hagree := Foreign.agreeOn hrt hv hforeign
  have hv' : (run (step rt) b calls).vault? x.vault = some v := hagree.vault?.trans hv
  obtain ⟨u, b₁, hu, hs, hw, hpw, hr, hsys, hseeds, hadmin, hpay, rfl⟩ := withdrawSol_eq_ok.mp h
  obtain rfl : u = v := Option.some.inj (hu.symm.trans hv)
  obtain ⟨hidle, hwallet⟩ := signer_later ⟨tx, .withdrawSol x amount⟩ hrt hv hseeds hforeign
    hsigners hsha
  have hmoved : Transfers rt (fun _ => True) b b₁ :=
    transferLamport_transfers (fun _ _ => trivial) hpay
  obtain ⟨-, -, -, -, hwal, -⟩ := (transferLamport_eq_ok hrt).mp hpay
  obtain ⟨bank', hpay', hev'⟩ := transferLamport_later hrt hpay (hwallet hwal)
    ((keeps_run hrt b calls).lamports _ hidle)
  refine ⟨bank', withdrawSol_eq_ok.mpr
    ⟨u, bank', hv', hs, hw, hpw, hr, hsys, hseeds, hadmin, hpay', rfl⟩, ?_, by simp⟩
  exact ((hmoved.evolves hrt).agreeOn hv).symm.trans (hagree.trans (hev'.agreeOn hv'))

private theorem withdrawToken_later {x : WithdrawTokenContext} {amount : UInt64}
    (h : withdrawToken rt tx b x amount = .ok o) (hv : b.vault? x.vault = some v)
    (hforeign : ∀ c ∈ calls, Foreign x.vault v c)
    (hsigners : ∀ c ∈ calls, ∀ k ∈ c.signers, ¬ rt.IsDerived k)
    (hsha : CollisionFree rt.sha256 (isolationStrings rt b ⟨tx, .withdrawToken x amount⟩ calls))
    (hsender : ∀ t, b.token? x.sender = some t → ∀ k, t.Authorizes k → k ≠ x.vaultSigner →
      ∀ c ∈ calls, ¬ c.Brings rt k) :
    HandledLater rt (run (step rt) b calls) ⟨tx, .withdrawToken x amount⟩ o := by
  have hagree := Foreign.agreeOn hrt hv hforeign
  have hv' : (run (step rt) b calls).vault? x.vault = some v := hagree.vault?.trans hv
  obtain ⟨u, b₁, hu, hs, hw, hsw, hr, htok, hseeds, hadmin, hpay, rfl⟩ := withdrawToken_eq_ok.mp h
  obtain rfl : u = v := Option.some.inj (hu.symm.trans hv)
  obtain ⟨hidle, -⟩ := signer_later ⟨tx, .withdrawToken x amount⟩ hrt hv hseeds hforeign
    hsigners hsha
  have hmoved : Transfers rt (fun _ => True) b b₁ :=
    transferToken_transfers (fun _ _ => trivial) hpay
  have hsource : ∀ t, b.token? x.sender = some t →
      ∃ t', (run (step rt) b calls).token? x.sender = some t' ∧ t.Grows t' := by
    intro t ht
    apply (keeps_run hrt b calls).tokens x.sender t ht
    intro k hk
    by_cases hsigner : k = x.vaultSigner
    · exact hsigner ▸ hidle
    · exact idle_of_not_brings hrt (hsender t ht k hk hsigner)
  obtain ⟨bank', hpay', hev'⟩ := transferToken_later hrt hpay hsource (kinds_run hrt calls).1
    (kinds_run hrt calls).2
  refine ⟨bank', withdrawToken_eq_ok.mpr
    ⟨u, bank', hv', hs, hw, hsw, hr, htok, hseeds, hadmin, hpay', rfl⟩, ?_, by simp⟩
  exact ((hmoved.evolves hrt).agreeOn hv).symm.trans (hagree.trans (hev'.agreeOn hv'))

end

/-- After any foreign calls a call by which owner or admins run their vault still succeeds, with
the same result for the vault and its schedules, as long as nobody has taken the event id of
the schedule it creates, and none of the foreign signatures can debit the account whose tokens it
withdraws. -/
theorem isolation {rt : Runtime} (hrt : rt.Lawful) {b f : Bank} {act : Call} {v : Vault}
    (hv : b.vault? act.instruction.vault = some v) (hact : act.instruction.administers = true)
    (hok : step rt b act = .ok f) {calls : List Call}
    (hforeign : ∀ c ∈ calls, Foreign act.instruction.vault v c)
    (hsigners : ∀ c ∈ act :: calls, ∀ k ∈ c.signers, ¬ rt.IsDerived k)
    (hsha : CollisionFree rt.sha256 (isolationStrings rt b act calls))
    (hevent : ∀ x a, act.instruction = .createSchedule x a →
      ∀ c ∈ calls, ∀ y a', c.instruction = .createSchedule y a' → a'.eventId ≠ a.eventId)
    (hsender : ∀ x n, act.instruction = .withdrawToken x n →
      ∀ t, b.token? x.sender = some t → ∀ k, t.Authorizes k → k ≠ x.vaultSigner →
        ∀ c ∈ calls, ¬ c.Brings rt k) :
    ∃ f', step rt (run (step rt) b calls) act = .ok f' ∧ AgreeOn act.instruction.vault f f' := by
  have hagree := Foreign.agreeOn hrt hv hforeign
  have hcallsigners : ∀ c ∈ calls, ∀ k ∈ c.signers, ¬ rt.IsDerived k := by
    intro c hc
    exact hsigners c (List.mem_cons_of_mem _ hc)
  have hkeys : ∀ k ∈ act.signers, ¬ rt.IsDerived k := hsigners act List.mem_cons_self
  obtain ⟨o, hh, hexit⟩ := step_eq_ok_iff.mp hok
  -- it is enough to run the handler again and to write the same value
  suffices hlater : HandledLater rt (run (step rt) b calls) act o by
    obtain ⟨bank', hhandle, hbank, hw⟩ := hlater
    obtain ⟨f', hf', hff⟩ := exit_later hexit hbank hw
    exact ⟨f', step_eq_ok_iff.mpr ⟨_, hhandle, hf'⟩, hff⟩
  obtain ⟨tx, i⟩ := act
  cases i with
  | setVault x admins =>
    obtain ⟨u, hu, hs, hw, ho, rfl⟩ := setVault_eq_ok.mp hh
    refine ⟨_, setVault_eq_ok.mpr ⟨u, hagree.vault?.trans hu, hs, hw, ho, rfl⟩, hagree, ?_⟩
    rintro _ _ ⟨⟩
    exact hagree.account
  | transferOwnership x newOwner =>
    obtain ⟨u, hu, hs, hw, ho, rfl⟩ := transferOwnership_eq_ok.mp hh
    refine ⟨_, transferOwnership_eq_ok.mpr ⟨u, hagree.vault?.trans hu, hs, hw, ho, rfl⟩, hagree, ?_⟩
    rintro _ _ ⟨⟩
    exact hagree.account
  | setScheduleStatus x isActive =>
    obtain ⟨u, s, hu, hsch, hs, hw, hsw, hk, hlink, ha, rfl⟩ := setScheduleStatus_eq_ok.mp hh
    have hcontent := hagree.schedules x.schedule s hlink (.inl hsch)
    have hsch' : (run (step rt) b calls).schedule? x.schedule = some s :=
      (Bank.read_congr hcontent).trans hsch
    refine ⟨_, setScheduleStatus_eq_ok.mpr
      ⟨u, s, hagree.vault?.trans hu, hsch', hs, hw, hsw, hk, hlink, ha, rfl⟩, hagree, ?_⟩
    rintro _ _ ⟨⟩
    exact hcontent
  | createSchedule x a =>
    exact createSchedule_later hrt hh hv hforeign hkeys hcallsigners hsha (hevent x a rfl)
  | withdrawSol x amount =>
    exact withdrawSol_later hrt hh hv hforeign hcallsigners hsha
  | withdrawToken x amount =>
    exact withdrawToken_later hrt hh hv hforeign hcallsigners hsha (hsender x amount rfl)
  | _ => simp [Instruction.administers] at hact

open Reference in
private theorem foreign_of_otherUser {c : Call} (h : c.signers = [otherUser])
    (hvault : c.instruction.vault = otherVault) :
    Foreign vault ⟨.vault, 255, owner, systemProgramId, []⟩ c := by
  constructor
  · rw [hvault]
    decide +kernel
  · rw [h]
    decide +kernel

open Reference in
theorem isolation_twoVaults :
    ∃ f f', step runtime twoVaults openSchedule = .ok f ∧
      step runtime (run (step runtime) twoVaults [openOtherSchedule otherSchedule 8]) openSchedule =
        .ok f' ∧
      AgreeOn vault f f' := by
  have hok : Succeeds (step runtime) twoVaults openSchedule := by decide +kernel
  have hsigners : ∀ c ∈ [openSchedule, openOtherSchedule otherSchedule 8], ∀ k ∈ c.signers,
      ¬ runtime.IsDerived k := underived_signers (by decide +kernel)
  have hevent : ∀ x a, openSchedule.instruction = .createSchedule x a →
      ∀ c ∈ [openOtherSchedule otherSchedule 8], ∀ y a', c.instruction = .createSchedule y a' →
        a'.eventId ≠ a.eventId := by
    rintro x a ⟨⟩ c hc y a' hc'
    obtain rfl := List.mem_singleton.mp hc
    obtain ⟨-, rfl⟩ := Instruction.createSchedule.inj hc'
    decide
  have hforeign : ∀ c ∈ [openOtherSchedule otherSchedule 8],
      Foreign vault ⟨.vault, 255, owner, systemProgramId, []⟩ c := by
    rw [List.forall_mem_singleton]
    exact foreign_of_otherUser rfl rfl
  obtain ⟨f', hf', hagree⟩ := isolation runtime_lawful (by decide +kernel) rfl hok.step_eq hforeign
    hsigners (by decide +kernel) hevent nofun
  exact ⟨_, f', hok.step_eq, hf', hagree⟩

/-- A call of an admin that runs at once, but not after the given foreign calls. -/
structure Broken (rt : Runtime) (b : Bank) (act : Call) (v : Vault) (calls : List Call) : Prop where
  vault : b.vault? act.instruction.vault = some v
  administers : act.instruction.administers = true
  before : Succeeds (step rt) b act
  foreign : ∀ c ∈ calls, Foreign act.instruction.vault v c
  underived : ∀ c ∈ act :: calls, ∀ k ∈ c.signers, ¬ rt.IsDerived k
  after : ¬ Succeeds (step rt) (run (step rt) b calls) act

open Reference in
/-- A stranger takes the event id of a schedule, or drains an account that the vault could only
debit as a delegate. -/
theorem isolation_broken :
    Broken runtime twoVaults openSchedule ⟨.vault, 255, owner, systemProgramId, []⟩
        [openOtherSchedule schedule eventId] ∧
      Broken runtime twoVaults withdrawLent ⟨.vault, 255, owner, systemProgramId, []⟩
        [openOtherSchedule otherSchedule 8, redeemOther] := by
  constructor
  · refine ⟨by decide +kernel, rfl, by decide +kernel, ?_, underived_signers (by decide +kernel),
      by decide +kernel⟩
    intro c hc
    obtain rfl := List.mem_singleton.mp hc
    exact foreign_of_otherUser rfl rfl
  · refine ⟨by decide +kernel, rfl, by decide +kernel, ?_, underived_signers (by decide +kernel),
      by decide +kernel⟩
    intro c hc
    simp only [List.mem_cons, List.not_mem_nil, or_false] at hc
    rcases hc with rfl | rfl
    · exact foreign_of_otherUser rfl rfl
    · exact foreign_of_otherUser rfl rfl

end Coin98Vault

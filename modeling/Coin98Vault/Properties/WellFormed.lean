import Coin98Vault.Program.Lifecycle
import Coin98Vault.Program.Reference

/-!
# Well-formed accounts in every reachable state

What an instruction may rely on when it reads a schedule or a vault: its lengths, its links and
the addresses that it is accepted with.
-/

namespace Coin98Vault

open Trace

/-! ## What the contexts ask of the transaction -/

def RedeemTokenContext.Ready (x : RedeemTokenContext) (tx : Tx) : Prop :=
  x.schedule ∈ tx.writable ∧ x.vaultToken0 ∈ tx.writable ∧ x.user ∈ tx.signers ∧
    x.userToken0 ∈ tx.writable ∧ x.tokenProgram = tokenProgramId ∧
    x.systemProgram = systemProgramId

private theorem length_le_of_panic {rt : Runtime} {index : UInt16} {data : Bytes}
    {proofs : List Hash} {s : Schedule} (hroot : s.merkleRoot.length = 32)
    (h : verifyLeaf rt index data proofs s = .error .panic) :
    s.redemptions.length ≤ index.toNat := by
  by_contra hlt
  have hbit : s.redemptions[index.toNat]? = some s.redemptions[index.toNat] :=
    List.getElem?_eq_getElem (by omega)
  simp only [verifyLeaf, dif_pos hroot, hbit, orFail, require, bind, Except.bind] at h
  split_ifs at h <;> cases h

/-! ## What holds of every account -/

/-- The address of a vault's signer, as anyone derives it. -/
def Runtime.IsSignerOf (rt : Runtime) (k p : Pubkey) : Prop :=
  ∃ bump, rt.findProgramAddress [signerSeed1, k.bytes] = some (p, bump)

/-- The contexts take the schedule with its own vault and with no other. -/
structure Schedule.AcceptedWithVault (rt : Runtime) (b : Bank) (k : Pubkey) (s : Schedule) :
    Prop where
  setSchedule : ∀ (x : SetScheduleContext) tx, x.schedule = k → x.Ready tx →
    ((∃ r, x.tryAccounts rt tx b = .ok r) ↔ x.vault = s.vaultId)
  redeemTokenMulti : ∀ (x : RedeemTokenMultiContext) tx, x.schedule = k → x.Ready tx →
    rt.IsSignerOf x.vault x.vaultSigner →
    ((∃ r, RedeemTokenMultiContext.tryAccounts x rt tx b = .ok r) ↔ x.vault = s.vaultId)
  redeemToken : ∀ (x : RedeemTokenContext) tx, x.schedule = k → x.Ready tx →
    rt.IsSignerOf x.vault x.vaultSigner → x.vaultToken0 = s.receivingTokenAccount →
    ((∃ r, RedeemTokenContext.tryAccounts x rt tx b = .ok r) ↔ x.vault = s.vaultId)

/-- The contexts take the vault with the signer `p` and with no other. -/
structure Bank.AcceptsSigner (rt : Runtime) (b : Bank) (k p : Pubkey) : Prop where
  withdrawSol : ∀ (x : WithdrawSolContext) tx, x.vault = k → x.Ready tx →
    ((∃ v, x.tryAccounts rt tx b = .ok v) ↔ x.vaultSigner = p)
  withdrawToken : ∀ (x : WithdrawTokenContext) tx, x.vault = k → x.Ready tx →
    ((∃ v, x.tryAccounts rt tx b = .ok v) ↔ x.vaultSigner = p)
  redeemTokenMulti : ∀ (x : RedeemTokenMultiContext) tx s, x.vault = k → x.Ready tx →
    b.schedule? x.schedule = some s → s.vaultId = k →
    ((∃ r, RedeemTokenMultiContext.tryAccounts x rt tx b = .ok r) ↔ x.vaultSigner = p)
  redeemToken : ∀ (x : RedeemTokenContext) tx s, x.vault = k → x.Ready tx →
    b.schedule? x.schedule = some s → s.vaultId = k → x.vaultToken0 = s.receivingTokenAccount →
    ((∃ r, RedeemTokenContext.tryAccounts x rt tx b = .ok r) ↔ x.vaultSigner = p)

/-- A call that creates the schedule at `k` for `n` users. -/
def CreatesFor (k : Pubkey) (n : Nat) (_ : Bank) (c : Call) : Prop :=
  ∃ x a, c.instruction = .createSchedule x a ∧ x.schedule = k ∧ a.userCount.toNat = n

/-- A schedule of the state after a run. -/
structure Schedule.Sound (rt : Runtime) (b : Bank) (calls : List Call) (k : Pubkey)
    (s : Schedule) : Prop where
  merkleRoot : s.merkleRoot.length = 32
  /-- The conversion of the root never panics, so a panic is an index past the bits. -/
  verifyProof : ∀ index timestamp user receivingAmount sendingAmount proofs,
    Coin98Vault.verifyProof rt index timestamp user receivingAmount sendingAmount proofs s =
      .error .panic → s.redemptions.length ≤ index.toNat
  verifyProofMulti : ∀ index timestamp user mint receivingAmount sendingAmount proofs,
    Coin98Vault.verifyProofMulti rt index timestamp user mint receivingAmount sendingAmount proofs
      s = .error .panic → s.redemptions.length ≤ index.toNat
  /-- The bits are those of its creation, which lies in the run. -/
  userCount : ∀ n, Occurs (step rt) (CreatesFor k n) b calls ↔ n = s.redemptions.length
  objType : s.objType = .distribution ∨ s.objType = .distributionMulti
  vaultId : ∃ v, (run (step rt) b calls).vault? s.vaultId = some v
  address : rt.findProgramAddress [scheduleSeed1, deriveEventId s.eventId] = some (k, s.nonce)
  accepted : s.AcceptedWithVault rt (run (step rt) b calls) k

section
variable {rt : Runtime} {b : Bank} {k p q : Pubkey}

private theorem Runtime.IsSignerOf.eq_iff (hp : rt.IsSignerOf k p) : rt.IsSignerOf k q ↔ q = p := by
  constructor
  · intro hq
    obtain ⟨bump, hp⟩ := hp
    obtain ⟨bump', hq⟩ := hq
    rw [hp, Option.some.injEq, Prod.mk.injEq] at hq
    exact hq.1.symm
  · intro h
    rwa [h]

/-- With the canonical bump in the vault, its seeds derive its signer. -/
private theorem Bank.WellFormed.signer_iff (hb : b.WellFormed rt) {v : Vault}
    (hv : b.vault? k = some v) :
    rt.createProgramAddress (signerSeeds k v) = some q ↔ rt.IsSignerOf k q := by
  obtain ⟨p, hfind⟩ := hb.signerNonce k v hv
  have hp : rt.createProgramAddress (signerSeeds k v) = some p := rt.create_of_find hfind
  rw [Runtime.IsSignerOf.eq_iff ⟨_, hfind⟩, hp, Option.some.injEq]
  exact eq_comm

private theorem Bank.WellFormed.setSchedule_iff (hb : b.WellFormed rt) {x : SetScheduleContext}
    {tx : Tx} {s : Schedule} (hready : x.Ready tx) (hs : b.schedule? x.schedule = some s) :
    (∃ r, x.tryAccounts rt tx b = .ok r) ↔ x.vault = s.vaultId := by
  constructor
  · rintro ⟨⟨v, s'⟩, hok⟩
    obtain ⟨-, -, hs', -, hlink⟩ := setScheduleAccounts_eq_ok.mp hok
    rw [Option.some.inj (hs.symm.trans hs'), hlink]
  · intro hvault
    obtain ⟨v, hv⟩ := hb.vaultId _ s hs
    have haddress := rt.create_of_find (hb.address _ s hs)
    refine ⟨(v, s), setScheduleAccounts_eq_ok.mpr ⟨hready, ?_, hs, haddress, hvault.symm⟩⟩
    rw [hvault, hv]

private theorem Bank.WellFormed.withdrawSol_iff (hb : b.WellFormed rt) {x : WithdrawSolContext}
    {tx : Tx} {v : Vault} (hready : x.Ready tx) (hv : b.vault? x.vault = some v) :
    (∃ v, x.tryAccounts rt tx b = .ok v) ↔ rt.IsSignerOf x.vault x.vaultSigner := by
  constructor
  · rintro ⟨v', hok⟩
    obtain ⟨-, hv', hseeds⟩ := withdrawSolAccounts_eq_ok.mp hok
    exact (hb.signer_iff hv').mp hseeds
  · intro hsigner
    exact ⟨v, withdrawSolAccounts_eq_ok.mpr ⟨hready, hv, (hb.signer_iff hv).mpr hsigner⟩⟩

private theorem Bank.WellFormed.withdrawToken_iff (hb : b.WellFormed rt) {x : WithdrawTokenContext}
    {tx : Tx} {v : Vault} (hready : x.Ready tx) (hv : b.vault? x.vault = some v) :
    (∃ v, x.tryAccounts rt tx b = .ok v) ↔ rt.IsSignerOf x.vault x.vaultSigner := by
  constructor
  · rintro ⟨v', hok⟩
    obtain ⟨-, hv', hseeds⟩ := withdrawTokenAccounts_eq_ok.mp hok
    exact (hb.signer_iff hv').mp hseeds
  · intro hsigner
    exact ⟨v, withdrawTokenAccounts_eq_ok.mpr ⟨hready, hv, (hb.signer_iff hv).mpr hsigner⟩⟩

private theorem Bank.WellFormed.redeemTokenMulti_ok (hb : b.WellFormed rt)
    {x : RedeemTokenMultiContext} {tx : Tx} {s : Schedule} (hready : x.Ready tx)
    (hs : b.schedule? x.schedule = some s)
    (hvault : x.vault = s.vaultId) (hsigner : rt.IsSignerOf x.vault x.vaultSigner) :
    ∃ v, RedeemTokenMultiContext.tryAccounts x rt tx b = .ok (v, s) := by
  obtain ⟨v, hv⟩ := hb.vaultId _ s hs
  rw [← hvault] at hv
  obtain ⟨hsw, h0, hu, h1, ht, hsys⟩ := hready
  have haddress := rt.create_of_find (hb.address _ s hs)
  have hseeds := (hb.signer_iff hv).mpr hsigner
  exact ⟨v, redeemAccounts_eq_ok.mpr
    ⟨hv, hs, hsw, haddress, hvault.symm, hseeds, h0, hu, h1, ht, hsys⟩⟩

private theorem Bank.WellFormed.of_redeemTokenMulti (hb : b.WellFormed rt)
    {x : RedeemTokenMultiContext} {tx : Tx} {s s' : Schedule} {v : Vault}
    (hs : b.schedule? x.schedule = some s)
    (hok : RedeemTokenMultiContext.tryAccounts x rt tx b = .ok (v, s')) :
    s' = s ∧ x.vault = s.vaultId ∧ rt.IsSignerOf x.vault x.vaultSigner := by
  obtain ⟨hv, hs', -, -, hlink, hseeds, -⟩ := redeemAccounts_eq_ok.mp hok
  obtain rfl := Option.some.inj (hs.symm.trans hs')
  exact ⟨rfl, hlink.symm, (hb.signer_iff hv).mp hseeds⟩

private theorem Bank.WellFormed.redeemTokenMulti_iff (hb : b.WellFormed rt)
    {x : RedeemTokenMultiContext} {tx : Tx} {s : Schedule} (hready : x.Ready tx)
    (hs : b.schedule? x.schedule = some s) :
    (∃ r, RedeemTokenMultiContext.tryAccounts x rt tx b = .ok r) ↔
      x.vault = s.vaultId ∧ rt.IsSignerOf x.vault x.vaultSigner := by
  constructor
  · rintro ⟨⟨v, s'⟩, hok⟩
    exact (hb.of_redeemTokenMulti hs hok).2
  · rintro ⟨hvault, hsigner⟩
    obtain ⟨v, hok⟩ := hb.redeemTokenMulti_ok hready hs hvault hsigner
    exact ⟨(v, s), hok⟩

private theorem Bank.WellFormed.redeemToken_iff (hb : b.WellFormed rt) {x : RedeemTokenContext}
    {tx : Tx} {s : Schedule} (hready : x.Ready tx) (hs : b.schedule? x.schedule = some s)
    (hpin : x.vaultToken0 = s.receivingTokenAccount) :
    (∃ r, RedeemTokenContext.tryAccounts x rt tx b = .ok r) ↔
      x.vault = s.vaultId ∧ rt.IsSignerOf x.vault x.vaultSigner := by
  constructor
  · rintro ⟨⟨v, s'⟩, hok⟩
    exact (hb.of_redeemTokenMulti hs (redeemTokenAccounts_eq_ok.mp hok).1).2
  · rintro ⟨hvault, hsigner⟩
    obtain ⟨v, hok⟩ := hb.redeemTokenMulti_ok hready hs hvault hsigner
    exact ⟨(v, s), redeemTokenAccounts_eq_ok.mpr ⟨hok, hpin⟩⟩

private theorem Bank.WellFormed.acceptedWithVault (hb : b.WellFormed rt) {s : Schedule}
    (hs : b.schedule? k = some s) : s.AcceptedWithVault rt b k := by
  constructor
  · intro x tx hk hready
    subst hk
    exact hb.setSchedule_iff hready hs
  · intro x tx hk hready hsigner
    subst hk
    rw [hb.redeemTokenMulti_iff hready hs, and_iff_left hsigner]
  · intro x tx hk hready hsigner hpin
    subst hk
    rw [hb.redeemToken_iff hready hs hpin, and_iff_left hsigner]

private theorem Bank.WellFormed.acceptsSigner (hb : b.WellFormed rt) {v : Vault}
    (hv : b.vault? k = some v) (hp : rt.IsSignerOf k p) : b.AcceptsSigner rt k p := by
  constructor
  · intro x tx hk hready
    subst hk
    rw [hb.withdrawSol_iff hready hv, hp.eq_iff]
  · intro x tx hk hready
    subst hk
    rw [hb.withdrawToken_iff hready hv, hp.eq_iff]
  · intro x tx s hk hready hs hlink
    subst hk
    rw [hb.redeemTokenMulti_iff hready hs, and_iff_right hlink.symm, hp.eq_iff]
  · intro x tx s hk hready hs hlink hpin
    subst hk
    rw [hb.redeemToken_iff hready hs hpin, and_iff_right hlink.symm, hp.eq_iff]

/-- A schedule has been created in the run, for as many users as it has bits. -/
private theorem createsFor_iff (hrt : rt.Lawful) (hnone : b.schedule? k = none) {calls : List Call}
    {s : Schedule} (hs : (run (step rt) b calls).schedule? k = some s) (n : Nat) :
    Occurs (step rt) (CreatesFor k n) b calls ↔ n = s.redemptions.length := by
  constructor
  · rintro ⟨before, c, after, rfl, hok, x, a, hc, rfl, rfl⟩
    rw [run_append, run_cons] at hs
    exact (schedule_of_createSchedule hrt hc hok.step_eq hs).1.symm
  · intro hn
    apply (schedule_origin hrt hnone calls hs).mono
    rintro - c ⟨x, a, bump, hc, hk, hext⟩
    refine ⟨x, a, hc, hk, ?_⟩
    rw [hn, hext.length]
    exact List.length_replicate.symm

private theorem objType_of_originates {s : Schedule} {c : Call} (h : Originates k s b c) :
    s.objType = .distribution ∨ s.objType = .distributionMulti := by
  obtain ⟨x, a, bump, -, -, hext⟩ := h
  have htype : s.objType = if a.useMultiToken then .distributionMulti else .distribution := by
    rw [hext.fixed]
    rfl
  rw [htype]
  cases a.useMultiToken with
  | false => exact .inl rfl
  | true => exact .inr rfl

private theorem schedule_sound (hrt : rt.Lawful) (hempty : ∀ k d, (b k).content ≠ .program d)
    {calls : List Call} {s : Schedule} (hs : (run (step rt) b calls).schedule? k = some s) :
    s.Sound rt b calls k := by
  have hb := wellFormed_run hrt (wellFormed_of_unused hempty) calls
  have hnone : b.schedule? k = none := Bank.read_of_unused hempty
  have hroot := hb.merkleRoot k s hs
  obtain ⟨_, _, _, -, -, horigin⟩ := schedule_origin hrt hnone calls hs
  exact {
    merkleRoot := hroot
    verifyProof := fun _ _ _ _ _ _ h => length_le_of_panic hroot h
    verifyProofMulti := fun _ _ _ _ _ _ _ h => length_le_of_panic hroot h
    userCount := createsFor_iff hrt hnone hs
    objType := objType_of_originates horigin
    vaultId := hb.vaultId k s hs
    address := hb.address k s hs
    accepted := hb.acceptedWithVault hs }

end

/-- After any run from a bank without accounts of the program: every schedule is sound, its
address is that of its event, and a vault is accepted with one signer over the whole run. -/
theorem accounts_wellFormed {rt : Runtime} (hrt : rt.Lawful) {b : Bank}
    (hempty : ∀ k d, (b k).content ≠ .program d) (calls : List Call) :
    (∀ k s, (run (step rt) b calls).schedule? k = some s → s.Sound rt b calls k) ∧
    (∀ k k' s s', (run (step rt) b calls).schedule? k = some s →
      (run (step rt) b calls).schedule? k' = some s' → s.eventId = s'.eventId → k = k') ∧
    (∀ k v, (run (step rt) b calls).vault? k = some v →
      ∃ p, rt.findProgramAddress [signerSeed1, k.bytes] = some (p, v.signerNonce) ∧
        ∀ before after u, calls = before ++ after →
          (run (step rt) b before).vault? k = some u →
          u.signerNonce = v.signerNonce ∧ (run (step rt) b before).AcceptsSigner rt k p) := by
  have hwf := wellFormed_run hrt (wellFormed_of_unused hempty)
  refine ⟨?_, ?_, ?_⟩
  · intro k s hs
    exact schedule_sound hrt hempty hs
  · intro k k' s s' hs hs' hevent
    have hk := (hwf calls).address k s hs
    have hk' := (hwf calls).address k' s' hs'
    rw [hevent, hk', Option.some.injEq, Prod.mk.injEq] at hk
    exact hk.1.symm
  · intro k v hv
    obtain ⟨p, hp⟩ := (hwf calls).signerNonce k v hv
    refine ⟨p, hp, ?_⟩
    intro before after u hcalls hu
    refine ⟨?_, (hwf before).acceptsSigner hu ⟨_, hp⟩⟩
    obtain ⟨v', hv', -, hnonce⟩ := vault_run hrt hu after
    rw [← run_append, ← hcalls, hv] at hv'
    rw [← hnonce, Option.some.inj hv']

open Reference in
theorem accounts_wellFormed_deployed :
    let calls := [openVault, openSchedule]
    (∃ s, Schedule.Sound runtime genesis calls schedule s) ∧
      (∀ k s, (run (step runtime) genesis calls).schedule? k = some s → s.eventId = eventId →
        k = schedule) ∧
      ∃ p, runtime.IsSignerOf vault p ∧
        (run (step runtime) genesis [openVault]).AcceptsSigner runtime vault p ∧
        (run (step runtime) genesis calls).AcceptsSigner runtime vault p := by
  intro calls
  obtain ⟨hsound, hunique, hsigner⟩ := accounts_wellFormed runtime_lawful genesis_unused calls
  have hevent : ((run (step runtime) genesis calls).schedule? schedule).map Schedule.eventId =
      some eventId := by
    decide +kernel
  obtain ⟨s, hs, hse⟩ := Option.map_eq_some_iff.mp hevent
  have hopen : ((run (step runtime) genesis [openVault]).vault? vault).isSome := by
    decide +kernel
  have hdeployed : ((run (step runtime) genesis calls).vault? vault).isSome := by
    decide +kernel
  obtain ⟨u, hu⟩ := Option.isSome_iff_exists.mp hopen
  obtain ⟨v, hv⟩ := Option.isSome_iff_exists.mp hdeployed
  obtain ⟨p, hp, haccept⟩ := hsigner vault v hv
  refine ⟨⟨s, hsound schedule s hs⟩, ?_, p, ⟨_, hp⟩, ?_, ?_⟩
  · intro k s' hs' he
    exact hunique k schedule s' s hs' hs (he.trans hse.symm)
  · exact (haccept [openVault] [openSchedule] u rfl hu).2
  · exact (haccept calls [] v rfl hv).2

end Coin98Vault

import Coin98Vault.Program.Isolation
import Coin98Vault.Properties.ClientReads
import Coin98Vault.Properties.ClientRequests
import Coin98Vault.Properties.Payout
import Coin98Vault.Properties.WellFormed

/-!
# When the client's actions succeed

The actions of the vault service from the state that they are sent in: when the program accepts
the transaction, and what is there afterwards.
-/

namespace Coin98Vault.Client

open Trace

/-! ## Sending -/

section
variable {rt : Runtime} {packages : Packages} {b b' : Bank}

theorem toOption_eq_some {ε α : Type} {x : Except ε α} {a : α} :
    x.toOption = some a ↔ x = .ok a := by
  cases x <;> simp [Except.toOption]

/-- A request that fits is sent as the call that it stands for. -/
theorem Request.send_eq (hp : packages.Lawful rt) {r : Request} (hfits : r.Fits) (payer : Pubkey)
    (unixTimestamp : Int64) :
    (r.build packages rt.programId).bind (deliver rt b payer unixTimestamp) =
      (step rt b (r.call rt payer unixTimestamp)).toOption := by
  obtain ⟨ix, hbuild, hcall⟩ := Request.build_call hp hfits payer unixTimestamp
  rw [hbuild, Option.bind_some, deliver, hcall]
  rfl

theorem Request.send_eq_some (hp : packages.Lawful rt) {r : Request} (hfits : r.Fits)
    {payer : Pubkey} {unixTimestamp : Int64} :
    (r.build packages rt.programId).bind (deliver rt b payer unixTimestamp) = some b' ↔
      step rt b (r.call rt payer unixTimestamp) = .ok b' := by
  rw [Request.send_eq hp hfits, toOption_eq_some]

/-! ## Withdrawals -/

private theorem withdrawSol_step (hrt : rt.Lawful) {payer vault p recipient : Pubkey}
    {amount : UInt64} {unixTimestamp : Int64} :
    step rt b ((Request.withdrawSol payer vault p recipient amount).call rt payer unixTimestamp) =
        .ok b' ↔
      ∃ v, b.vault? vault = some v ∧ rt.createProgramAddress (signerSeeds vault v) = some p ∧
        v.IsAdmin payer ∧ (b p).content = .wallet ∧ amount.toNat ≤ (b p).lamports ∧
        rt.CanWrite [payer, p, recipient] ∧ b' = b.moveLamports p recipient amount.toNat := by
  have hwritable := Request.call_canWrite rt payer
    (.withdrawSol payer vault p recipient amount) unixTimestamp
  rw [step_eq_ok_iff]
  constructor
  · intro h
    obtain ⟨o, hh, hexit⟩ := h
    obtain ⟨v, b₁, hv, -, hpayer, hp, hrecipient, -, hseeds, hadmin, hpay, rfl⟩ :=
      withdrawSol_eq_ok.mp hh
    obtain ⟨-, -, -, -, hwallet, hle, rfl⟩ := (transferLamport_eq_ok hrt).mp hpay
    refine ⟨v, hv, hseeds, hadmin, hwallet, hle, hwritable.mp ?_, exit_none.mp hexit⟩
    simp only [Request.writes, List.forall_mem_cons]
    exact ⟨hpayer, hp, hrecipient, List.forall_mem_nil _⟩
  · intro h
    obtain ⟨v, hv, hseeds, hadmin, hwallet, hle, hkeys, rfl⟩ := h
    have hgranted := hwritable.mpr hkeys
    simp only [Request.writes, List.forall_mem_cons] at hgranted
    obtain ⟨hpayer, hp, hrecipient, -⟩ := hgranted
    have hpay : transferLamport rt ((Request.withdrawSol payer vault p recipient amount).call rt payer
        unixTimestamp).toTx b p recipient amount [signerSeeds vault v] =
          .ok (b.moveLamports p recipient amount.toNat) :=
      (transferLamport_eq_ok hrt).mpr ⟨by simp [hseeds], hp, hrecipient,
        .inr ⟨_, List.mem_singleton_self _, hseeds⟩, hwallet, hle, rfl⟩
    exact ⟨_, withdrawSol_eq_ok.mpr ⟨v, _, hv, by simp [Request.call, Request.signer], hpayer, hp,
      hrecipient, rfl, hseeds, hadmin, hpay, rfl⟩, exit_none.mpr rfl⟩

private theorem withdrawToken_step {payer vault p sender recipient : Pubkey} {amount : UInt64}
    {unixTimestamp : Int64} :
    step rt b ((Request.withdrawToken payer vault p sender recipient amount).call rt payer
        unixTimestamp) = .ok b' ↔
      ∃ v, b.vault? vault = some v ∧ rt.createProgramAddress (signerSeeds vault v) = some p ∧
        v.IsAdmin payer ∧ rt.CanWrite [payer, sender, recipient] ∧
        rt.process b (tokenTransfer p sender recipient amount) = some b' := by
  have hwritable := Request.call_canWrite rt payer
    (.withdrawToken payer vault p sender recipient amount) unixTimestamp
  rw [step_eq_ok_iff]
  constructor
  · intro h
    obtain ⟨o, hh, hexit⟩ := h
    obtain ⟨v, b₁, hv, -, hpayer, hsender, hrecipient, -, hseeds, hadmin, hpay, rfl⟩ :=
      withdrawToken_eq_ok.mp hh
    obtain ⟨-, -, -, -, hprocess⟩ := transferToken_eq_ok.mp hpay
    obtain rfl := exit_none.mp hexit
    refine ⟨v, hv, hseeds, hadmin, hwritable.mp ?_, hprocess⟩
    simp only [Request.writes, List.forall_mem_cons]
    exact ⟨hpayer, hsender, hrecipient, List.forall_mem_nil _⟩
  · intro h
    obtain ⟨v, hv, hseeds, hadmin, hkeys, hprocess⟩ := h
    have hgranted := hwritable.mpr hkeys
    simp only [Request.writes, List.forall_mem_cons] at hgranted
    obtain ⟨hpayer, hsender, hrecipient, -⟩ := hgranted
    have hpay : transferToken rt ((Request.withdrawToken payer vault p sender recipient
        amount).call rt payer unixTimestamp).toTx b p sender recipient amount [signerSeeds vault v] =
          .ok b' :=
      transferToken_eq_ok.mpr ⟨by simp [hseeds], hsender, hrecipient,
        .inr ⟨_, List.mem_singleton_self _, hseeds⟩, hprocess⟩
    exact ⟨_, withdrawToken_eq_ok.mpr ⟨v, _, hv, by simp [Request.call, Request.signer], hpayer,
      hsender, hrecipient, rfl, hseeds, hadmin, hpay, rfl⟩, exit_none.mpr rfl⟩

private theorem getVaultAccountInfo_signer (hp : packages.Lawful rt) {connection : Connection}
    (hc : connection.Lawful rt) (hb : b.WellFormed rt) {vault p : Pubkey} {v : Vault}
    (hv : b.vault? vault = some v)
    (hseeds : rt.createProgramAddress (signerSeeds vault v) = some p) :
    VaultService.getVaultAccountInfo rt packages connection b vault = some (vaultInfo v p) := by
  obtain ⟨d, hd⟩ := Bank.data_of_vault? hv
  obtain ⟨⟨q, hq, hinfo⟩, -⟩ := reads_value hp hc hb hd (Bank.value?_eq_vault.mpr hv)
  obtain rfl := Option.some.inj (hseeds.symm.trans hq)
  exact hinfo

private theorem withdrawSol_sent (hrt : rt.Lawful) (hp : packages.Lawful rt)
    {connection : Connection} (hc : connection.Lawful rt) (hb : b.WellFormed rt)
    {payer vault recipient : Pubkey}
    {amount : UInt64} {unixTimestamp : Int64} :
    (VaultService.withdrawSol rt packages connection b payer vault recipient amount
        rt.programId).bind (deliver rt b payer unixTimestamp) = some b' ↔
      ∃ v p, b.vault? vault = some v ∧ rt.createProgramAddress (signerSeeds vault v) = some p ∧
        v.IsAdmin payer ∧ (b p).content = .wallet ∧ amount.toNat ≤ (b p).lamports ∧
        rt.CanWrite [payer, p, recipient] ∧ b' = b.moveLamports p recipient amount.toNat := by
  have hsend (p : Pubkey) := @Request.send_eq_some rt packages b b' hp
    (.withdrawSol payer vault p recipient amount) trivial payer unixTimestamp
  constructor
  · intro h
    obtain ⟨ix, hix, hsent⟩ := Option.bind_eq_some_iff.mp h
    obtain ⟨info, -, hix⟩ := Option.bind_eq_some_iff.mp hix
    obtain ⟨p, -, hix⟩ := Option.bind_eq_some_iff.mp hix
    have hstep := (hsend p).mp (Option.bind_eq_some_iff.mpr ⟨ix, hix, hsent⟩)
    obtain ⟨v, hrest⟩ := (withdrawSol_step hrt).mp hstep
    exact ⟨v, p, hrest⟩
  · intro h
    obtain ⟨v, p, hv, hseeds, hrest⟩ := h
    have hstep := (hsend p).mpr ((withdrawSol_step hrt).mpr ⟨v, hv, hseeds, hrest⟩)
    simp only [VaultService.withdrawSol, getVaultAccountInfo_signer hp hc hb hv hseeds,
      vaultInfo_signer, Option.bind_eq_bind, Option.bind_some]
    exact hstep

private theorem withdrawToken_sent (hp : packages.Lawful rt) {connection : Connection}
    (hc : connection.Lawful rt) (hb : b.WellFormed rt) {payer vault sender recipient : Pubkey}
    {amount : UInt64} {unixTimestamp : Int64} :
    (VaultService.withdrawToken rt packages connection b payer vault sender recipient amount
        rt.programId).bind (deliver rt b payer unixTimestamp) = some b' ↔
      ∃ v p, b.vault? vault = some v ∧ rt.createProgramAddress (signerSeeds vault v) = some p ∧
        v.IsAdmin payer ∧ rt.CanWrite [payer, sender, recipient] ∧
        rt.process b (tokenTransfer p sender recipient amount) = some b' := by
  have hsend (p : Pubkey) := @Request.send_eq_some rt packages b b' hp
    (.withdrawToken payer vault p sender recipient amount) trivial payer unixTimestamp
  constructor
  · intro h
    obtain ⟨ix, hix, hsent⟩ := Option.bind_eq_some_iff.mp h
    obtain ⟨info, -, hix⟩ := Option.bind_eq_some_iff.mp hix
    obtain ⟨p, -, hix⟩ := Option.bind_eq_some_iff.mp hix
    have hstep := (hsend p).mp (Option.bind_eq_some_iff.mpr ⟨ix, hix, hsent⟩)
    obtain ⟨v, hrest⟩ := withdrawToken_step.mp hstep
    exact ⟨v, p, hrest⟩
  · intro h
    obtain ⟨v, p, hv, hseeds, hrest⟩ := h
    have hstep := (hsend p).mpr (withdrawToken_step.mpr ⟨v, hv, hseeds, hrest⟩)
    simp only [VaultService.withdrawToken, getVaultAccountInfo_signer hp hc hb hv hseeds,
      vaultInfo_signer, Option.bind_eq_bind, Option.bind_some]
    exact hstep

/-- The same for a vault that is known, with its signer. -/
theorem withdrawSol_accepted (hrt : rt.Lawful) (hp : packages.Lawful rt) {connection : Connection}
    (hc : connection.Lawful rt) (hb : b.WellFormed rt) {payer vault p recipient : Pubkey} {v : Vault}
    (hv : b.vault? vault = some v) (hseeds : rt.createProgramAddress (signerSeeds vault v) = some p)
    (hwallet : (b p).content = .wallet) {amount : UInt64} {unixTimestamp : Int64} :
    (VaultService.withdrawSol rt packages connection b payer vault recipient amount
        rt.programId).bind (deliver rt b payer unixTimestamp) = some b' ↔
      v.IsAdmin payer ∧ amount.toNat ≤ (b p).lamports ∧ rt.CanWrite [payer, p, recipient] ∧
        b' = b.moveLamports p recipient amount.toNat := by
  rw [withdrawSol_sent hrt hp hc hb]
  constructor
  · intro h
    obtain ⟨u, q, hu, hq, hadmin, -, hle, hrest⟩ := h
    obtain rfl := Option.some.inj (hv.symm.trans hu)
    obtain rfl := Option.some.inj (hseeds.symm.trans hq)
    exact ⟨hadmin, hle, hrest⟩
  · intro h
    obtain ⟨hadmin, hle, hrest⟩ := h
    exact ⟨v, p, hv, hseeds, hadmin, hwallet, hle, hrest⟩

theorem withdrawToken_accepted (hp : packages.Lawful rt) {connection : Connection}
    (hc : connection.Lawful rt) (hb : b.WellFormed rt) {payer vault p sender recipient : Pubkey}
    {v : Vault} (hv : b.vault? vault = some v)
    (hseeds : rt.createProgramAddress (signerSeeds vault v) = some p) {amount : UInt64}
    {unixTimestamp : Int64} :
    (VaultService.withdrawToken rt packages connection b payer vault sender recipient amount
        rt.programId).bind (deliver rt b payer unixTimestamp) = some b' ↔
      v.IsAdmin payer ∧ rt.CanWrite [payer, sender, recipient] ∧
        rt.process b (tokenTransfer p sender recipient amount) = some b' := by
  rw [withdrawToken_sent hp hc hb]
  constructor
  · intro h
    obtain ⟨u, q, hu, hq, hrest⟩ := h
    obtain rfl := Option.some.inj (hv.symm.trans hu)
    obtain rfl := Option.some.inj (hseeds.symm.trans hq)
    exact hrest
  · intro h
    exact ⟨v, p, hv, hseeds, h⟩

/-- The signer of a vault stays a wallet: nothing is created at its address. -/
theorem signer_wallet (hrt : rt.Lawful) {b₀ : Bank} {calls : List Call} {vault p : Pubkey}
    {v : Vault} (hseeds : rt.createProgramAddress (signerSeeds vault v) = some p)
    (hwallet : (b₀ p).content = .wallet)
    (hsha : CollisionFree rt.sha256 (rt.derivation (signerSeeds vault v) ::
      calls.filterMap fun c => createdString rt c.instruction)) :
    (run (step rt) b₀ calls p).content = .wallet := by
  apply wallet_run hrt hwallet
  apply not_created hrt (rt.createProgramAddress_eq_some.mp hseeds).2 hsha
  intro c _ hc
  obtain ⟨seeds, hcreated, hfind⟩ := Option.bind_eq_some_iff.mp hc
  obtain ⟨r, -, hstring⟩ := Option.map_eq_some_iff.mp hfind
  have hfamily {first second : Bytes} (hseeds : seeds = [first, second])
      (hlen : first.length = 8) (hne : first ≠ signerSeed1) : False := by
    subst hseeds
    exact derivation_ne hlen rfl hne hstring
  cases hi : c.instruction with
  | createVault x vaultPath =>
    rw [hi] at hcreated
    exact hfamily (Option.some.inj hcreated).symm rfl (by decide)
  | createSchedule x a =>
    rw [hi] at hcreated
    exact hfamily (Option.some.inj hcreated).symm rfl (by decide)
  | _ =>
    rw [hi] at hcreated
    cases hcreated

end

/-- After any run from a bank without accounts of the program, the program accepts a withdrawal that
the client builds if and only if an owner or admin in office has signed it, the amount is there
(lamports of the signer, or tokens of an account that the signer can debit), and no key that it
writes is reserved.  It moves just that amount. -/
theorem withdrawal_succeeds_iff {rt : Runtime} (hrt : rt.Lawful) {packages : Packages}
    (hp : packages.Lawful rt) {connection : Connection} (hc : connection.Lawful rt) {b₀ : Bank}
    (hempty : ∀ k d, (b₀ k).content ≠ .program d) (calls : List Call) {vault p : Pubkey} {v : Vault}
    (hv : (run (step rt) b₀ calls).vault? vault = some v)
    (hseeds : rt.createProgramAddress (signerSeeds vault v) = some p)
    (hwallet : (b₀ p).content = .wallet)
    (hsha : CollisionFree rt.sha256 (rt.derivation (signerSeeds vault v) ::
      calls.filterMap fun c => createdString rt c.instruction))
    (payer recipient : Pubkey) (amount : UInt64) (unixTimestamp : Int64) :
    let b := run (step rt) b₀ calls
    let sol := (VaultService.withdrawSol rt packages connection b payer vault recipient amount
      rt.programId).bind (deliver rt b payer unixTimestamp)
    let token := fun sender => (VaultService.withdrawToken rt packages connection b payer vault
      sender recipient amount rt.programId).bind (deliver rt b payer unixTimestamp)
    ((∃ b', sol = some b') ↔ v.IsAdmin payer ∧ amount.toNat ≤ (b p).lamports ∧
      rt.CanWrite [payer, p, recipient]) ∧
    (∀ b', sol = some b' → b.TokensMoved (fun _ => 0) (fun _ => 0) b' ∧
      b.LamportsMoved (amountAt p amount.toNat) (amountAt recipient amount.toNat) b') ∧
    ∀ sender s r, b.token? sender = some s → b.token? recipient = some r → s.mint = r.mint →
      s.state = .initialized → r.state = .initialized → s.CanDebit p amount.toNat →
      ((∃ b', token sender = some b') ↔ v.IsAdmin payer ∧ amount.toNat ≤ s.amount ∧
        rt.CanWrite [payer, sender, recipient]) ∧
      ∀ b', token sender = some b' →
        b.TokensMoved (amountAt sender amount.toNat) (amountAt recipient amount.toNat) b' ∧
        b.LamportsMoved (fun _ => 0) (fun _ => 0) b' := by
  intro b sol token
  have hb : b.WellFormed rt := wellFormed_run hrt (wellFormed_of_unused hempty) calls
  have hnow : (b p).content = .wallet := signer_wallet hrt hseeds hwallet hsha
  have hsol (b' : Bank) : sol = some b' ↔ v.IsAdmin payer ∧ amount.toNat ≤ (b p).lamports ∧
      rt.CanWrite [payer, p, recipient] ∧ b' = b.moveLamports p recipient amount.toNat :=
    withdrawSol_accepted hrt hp hc hb hv hseeds hnow
  have htoken (sender : Pubkey) (b' : Bank) : token sender = some b' ↔ v.IsAdmin payer ∧
      rt.CanWrite [payer, sender, recipient] ∧
      rt.process b (tokenTransfer p sender recipient amount) = some b' :=
    withdrawToken_accepted hp hc hb hv hseeds
  refine ⟨?_, ?_, ?_⟩
  · constructor
    · intro h
      obtain ⟨b', hb'⟩ := h
      obtain ⟨hadmin, hle, hkeys, -⟩ := (hsol b').mp hb'
      exact ⟨hadmin, hle, hkeys⟩
    · intro h
      obtain ⟨hadmin, hle, hkeys⟩ := h
      exact ⟨_, (hsol _).mpr ⟨hadmin, hle, hkeys, rfl⟩⟩
  · intro b' h
    obtain ⟨-, hle, -, rfl⟩ := (hsol b').mp h
    exact ⟨.of_content fun k => b.moveLamports_content _ _ _ k,
      fun k => b.moveLamports_lamports _ _ hle k⟩
  · intro sender s r hs hr hmint hsstate hrstate hdebit
    refine ⟨?_, ?_⟩
    · constructor
      · intro h
        obtain ⟨b', hb'⟩ := h
        obtain ⟨hadmin, hkeys, hprocess⟩ := (htoken sender b').mp hb'
        obtain ⟨s', -, hs', -, -, -, hle, -⟩ := hrt.token.requires hprocess
        obtain rfl := Option.some.inj (hs.symm.trans hs')
        exact ⟨hadmin, hle, hkeys⟩
      · intro h
        obtain ⟨hadmin, hle, hkeys⟩ := h
        have hmulti : (b p).content ≠ .multisig := by simp [hnow]
        obtain ⟨b', hprocess⟩ :=
          hrt.token.accepts hs hr hmint hdebit hle hsstate hrstate hmulti
        exact ⟨b', (htoken sender b').mpr ⟨hadmin, hkeys, hprocess⟩⟩
    · intro b' h
      obtain ⟨-, -, hprocess⟩ := (htoken sender b').mp h
      refine ⟨?_, fun k => hrt.token.lamports hprocess k⟩
      intro k t ht
      obtain ⟨t', ht', hmoved, hmint', howner, hstate, hdelegate, -⟩ :=
        hrt.token.moves hprocess ht
      exact ⟨t', ht', ⟨hmint', howner, hstate, hdelegate⟩, hmoved⟩

open Reference in
theorem withdrawal_succeeds_iff_deployed :
    let calls := [openVault, openSchedule]
    let b := run (step runtime) genesis calls
    ∃ b', (VaultService.withdrawSol runtime packages connection b owner vault user 5
      runtime.programId).bind (deliver runtime b owner 6) = some b' := by
  intro calls b
  have hvault : ((run (step runtime) genesis calls).vault? vault).map Vault.owner = some owner := by
    decide +kernel
  obtain ⟨v, hv, howner⟩ := Option.map_eq_some_iff.mp hvault
  have hnonce : v.signerNonce = 255 := by
    have h : ((run (step runtime) genesis calls).vault? vault).map Vault.signerNonce =
        some 255 := by
      decide +kernel
    rw [hv] at h
    exact Option.some.inj h
  have hseeds : runtime.createProgramAddress (signerSeeds vault v) = some vaultSigner := by
    rw [signerSeeds, hnonce]
    decide +kernel
  have hsha : CollisionFree runtime.sha256 (runtime.derivation (signerSeeds vault v) ::
      calls.filterMap fun c => createdString runtime c.instruction) := by
    rw [signerSeeds, hnonce]
    decide +kernel
  refine (withdrawal_succeeds_iff runtime_lawful packages_lawful connection_lawful genesis_unused
    calls hv hseeds (by decide +kernel) hsha owner user 5 6).1.mpr
    ⟨.inl howner.symm, ?_, ?_⟩ <;> decide +kernel

end Coin98Vault.Client

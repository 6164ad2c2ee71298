import Mathlib.Algebra.Order.BigOperators.Group.Multiset
import Coin98Vault.Program.Custody
import Coin98Vault.Properties.Conservation
import Coin98Vault.Properties.Distribution
import Coin98Vault.Properties.Settlement

/-!
# A funded vault stays solvent

What a vault holds of an asset goes down by payouts only: those of the records of a schedule, and
those of withdrawals and other schedules.
-/

namespace Coin98Vault

open Trace Ledger Coin98Vault.Distribution

def Instruction.redeemed? (i : Instruction) : Option Pubkey :=
  i.claim?.map fun cl => cl.accounts.schedule

/-- What a record, when it is paid, takes from an asset of the vault. -/
def CreateScheduleArgs.draw (a : CreateScheduleArgs) (currency : Asset → Option Currency)
    (r : Record) (asset : Asset) : Nat :=
  match asset with
  | .lamports _ =>
    if r.mint?.getD a.receivingTokenMint = systemProgramId then r.receivingAmount.toNat else 0
  | .tokens k =>
    if r.mint?.getD a.receivingTokenMint = systemProgramId then 0
    else match r.mint? with
      | none => if k = a.receivingTokenAccount then r.receivingAmount.toNat else 0
      | some mint =>
        if currency (.tokens k) = some (.tokens mint) then r.receivingAmount.toNat else 0

/-- What the vault pays in a run other than for records of the schedule. -/
def otherPayouts (rt : Runtime) (vault schedule : Pubkey) (b : Bank) (calls : List Call) :
    List (Move Asset) :=
  log (step rt)
    (Call.payoutsIn fun i => i.vault = vault ∧ i.redeemed? ≠ some schedule) b calls

section
variable {rt : Runtime} {b b' : Bank} {c : Call} {a : CreateScheduleArgs} {s : Schedule}
  {vault k p : Pubkey} {bump : UInt8} {asset : Asset}

private theorem Claim.debit_le_draw (hrt : rt.Lawful) {cl : Claim} {tx : Tx} {o : Outcome}
    (h : cl.Runs rt tx b o) (hs : b.schedule? cl.accounts.schedule = some s)
    (hext : (a.schedule vault bump).Extends s) :
    (cl.payMove s).debit asset ≤ a.draw b.currency (cl.record s.timestamp) asset := by
  obtain ⟨v, s', b₁, b₂, hadm, hfee, hpay, -⟩ := h
  obtain rfl := Option.some.inj (hs.symm.trans hadm.schedule)
  have hmint : s.receivingTokenMint = a.receivingTokenMint := by
    rw [hext.fixed]
    rfl
  have haccount : s.receivingTokenAccount = a.receivingTokenAccount := by
    rw [hext.fixed]
    rfl
  have hpaid : cl.mint.getD a.receivingTokenMint = cl.paidMint s := by
    rw [← hmint]
    rfl
  unfold CreateScheduleArgs.draw
  simp only [Claim.record_mint?, Claim.record_receivingAmount, hpaid]
  rcases Claim.payOut_eq_ok.mp hpay with ⟨hsys, -⟩ | ⟨hsys, hunpack, ht⟩
  · have hmove : cl.payMove s = ⟨.lamports cl.accounts.vaultSigner, .lamports cl.accounts.user,
        cl.args.receivingAmount.toNat⟩ := if_pos hsys
    rw [hmove]
    unfold Move.debit
    cases asset with
    | lamports x =>
      simp only [if_pos hsys]
      split <;> omega
    | tokens x => simp
  · have hmove : cl.payMove s = ⟨.tokens cl.accounts.vaultToken0, .tokens cl.accounts.userToken0,
        cl.args.receivingAmount.toNat⟩ := if_neg hsys
    rw [hmove]
    unfold Move.debit
    cases asset with
    | lamports x => simp
    | tokens x =>
      simp only [if_neg hsys, Asset.tokens.injEq]
      by_cases hx : x = cl.accounts.vaultToken0
      · subst hx
        rw [if_pos rfl]
        cases hm : cl.mint with
        | none =>
          dsimp only
          rw [if_pos ((hadm.pinned hm).trans haccount)]
        | some mint =>
          obtain ⟨t₀, t₁, ht₀, -, hmint₀, -⟩ := hunpack mint hm
          obtain ⟨-, -, -, -, hprocess⟩ := transferToken_eq_ok.mp ht
          obtain ⟨t, -, ht', -⟩ := hrt.token.requires hprocess
          obtain rfl := Option.some.inj (ht₀.symm.trans (unpackTokenAccount_of_token? ht'))
          have hcurrency : b.currency (.tokens cl.accounts.vaultToken0) = some (.tokens mint) := by
            rw [← (payFee_pays hrt hfee).currencies]
            simp [Bank.currency, ht', hmint₀]
          dsimp only
          rw [if_pos hcurrency]
      · rw [if_neg hx]
        exact Nat.zero_le _

private theorem payouts_step (hrt : rt.Lawful) (h : step rt b c = .ok b')
    (hs : b.schedule? k = some s) (hext : (a.schedule vault bump).Extends s) (asset : Asset) :
    debits (c.payoutsIn (fun i => i.vault = vault) b) asset ≤
      debits (c.payoutsIn (fun i => i.vault = vault ∧ i.redeemed? ≠ some k) b) asset +
        (((c.events k b).filterMap Event.paid?).map fun r => a.draw b.currency r asset).sum := by
  by_cases hk : c.instruction.redeemed? = some k
  · obtain ⟨cl, hcl, hschedule⟩ := Option.map_eq_some_iff.mp hk
    obtain ⟨o, hh, -⟩ := step_eq_ok_iff.mp h
    have hs' : b.schedule? cl.accounts.schedule = some s := by
      rw [hschedule]
      exact hs
    have hdraw : (cl.payMove s).debit asset ≤ a.draw b.currency (cl.record s.timestamp) asset :=
      Claim.debit_le_draw hrt ((handle_claim_eq_ok hcl).mp hh) hs' hext
    have hpaid : (c.events k b).filterMap Event.paid? = [cl.record s.timestamp] := by
      rw [Call.events_of_claim? hcl hschedule hs]
      rfl
    have hpayouts := (Instruction.moves_of_claim? rt hcl hs').2
    rw [hpaid, List.map_singleton, List.sum_singleton]
    unfold Call.payoutsIn
    rw [hpayouts]
    split
    · rw [debits_cons, debits_nil]
      omega
    · exact Nat.zero_le _
  · have hsame : c.payoutsIn (fun i => i.vault = vault ∧ i.redeemed? ≠ some k) b =
        c.payoutsIn (fun i => i.vault = vault) b := by
      simp only [Call.payoutsIn, and_iff_left hk]
    rw [hsame]
    exact Nat.le_add_right _ _

private theorem payouts_run (hrt : rt.Lawful) (hs : b.schedule? k = some (a.schedule vault bump))
    (calls : List Call) (asset : Asset) :
    debits (log (step rt) (Call.payoutsIn fun i => i.vault = vault) b calls) asset ≤
      debits (otherPayouts rt vault k b calls) asset +
        ((paidRecords rt k b calls).map fun r => a.draw b.currency r asset).sum := by
  refine @run_induction _ _ _ (step rt) (fun calls _ =>
    debits (log (step rt) (Call.payoutsIn fun i => i.vault = vault) b calls) asset ≤
      debits (otherPayouts rt vault k b calls) asset +
        ((paidRecords rt k b calls).map fun r => a.draw b.currency r asset).sum) b calls ?_ ?_ ?_
  · exact Nat.zero_le _
  · intro before c after b' hcalls hbefore hok
    obtain ⟨s, hs', hext⟩ := extends_run hrt hs before
    have hstep := payouts_step hrt hok hs' hext asset
    rw [(run_pays hrt b before).currencies] at hstep
    unfold otherPayouts paidRecords at hbefore ⊢
    simp only [log_concat_ok hok, debits_append, List.filterMap_append, List.map_append,
      List.sum_append]
    omega
  · intro before c e hbefore herr
    unfold otherPayouts paidRecords at hbefore ⊢
    simp only [log_concat_error herr]
    exact hbefore

/-- At any time the vault holds what the schedule still owes, but for what it had not been funded
with and for what others have taken. -/
private theorem solvent_run (hrt : rt.Lawful) {b₀ : Bank} {create : Call}
    {x : CreateScheduleContext} (hcall : create.instruction = .createSchedule x a)
    (hcreate : step rt b₀ create = .ok b)
    {v : Vault} (hv : b.vault? x.vault = some v)
    (hp : rt.createProgramAddress (signerSeeds x.vault v) = some p) {asset : Asset}
    (hasset : b.Holds p asset) {calls : List Call} (hsigned : ∀ c ∈ calls, p ∉ c.signers)
    {records : Multiset Record} (honly : a.ProvesOnly rt x.schedule calls records)
    (hsha : CollisionFree rt.sha256 (signerStrings rt x.vault b calls))
    (hs : (run (step rt) b calls).schedule? x.schedule = some s) :
    let draw := fun r : Record => a.draw b.currency r asset
    b.balance asset + ((records.filter s.Outstanding).map draw).sum ≤
      (run (step rt) b calls).balance asset +
        debits (otherPayouts rt x.vault x.schedule b calls) asset +
        ((a.promisedOf records).map draw).sum := by
  intro draw
  obtain ⟨d, hd, -, s', hs', -, hrep⟩ := represents_run hrt hcall hcreate honly
  obtain rfl := Option.some.inj (hs.symm.trans hs')
  obtain ⟨v₀, bump, -, -, hs₀⟩ := createSchedule_schedule? hrt hcall hcreate
  have hout := (outflow_run hrt hv hp hsigned hsha hasset).2
  have hpayouts : _ ≤ _ + ((paidRecords rt x.schedule b calls).map draw).sum :=
    payouts_run hrt hs₀ calls asset
  have hworth := (sound_replay hd).worth_le draw
  rw [paidRecords_sum hd, hrep.outstanding] at hworth
  omega

private theorem Claim.Fits.draw_source {cl : Claim} {tx : Tx} {v : Vault} (h : cl.Fits rt tx b v s)
    (hext : (a.schedule vault bump).Extends s) :
    a.draw b.currency (cl.record s.timestamp) (cl.payMove s).source =
      cl.args.receivingAmount.toNat := by
  have hmint : s.receivingTokenMint = a.receivingTokenMint := by
    rw [hext.fixed]
    rfl
  have haccount : s.receivingTokenAccount = a.receivingTokenAccount := by
    rw [hext.fixed]
    rfl
  have hpaid : cl.mint.getD a.receivingTokenMint = cl.paidMint s := by
    rw [← hmint]
    rfl
  unfold CreateScheduleArgs.draw Claim.payMove
  simp only [Claim.record_mint?, Claim.record_receivingAmount, hpaid]
  by_cases hsys : cl.paidMint s = systemProgramId
  · simp only [if_pos hsys]
  · simp only [if_neg hsys]
    cases hm : cl.mint with
    | none =>
      dsimp only
      rw [if_pos ((h.pinned hm).trans haccount)]
    | some mint =>
      obtain ⟨mint', hmint', ⟨u, hu, humint, -⟩, -⟩ := h.tokens hsys
      obtain rfl := hmint' mint hm
      have hcurrency : b.currency (.tokens cl.accounts.vaultToken0) = some (.tokens mint) := by
        simp [Bank.currency, hu, humint]
      dsimp only
      rw [if_pos hcurrency]

private theorem Claim.Fits.fee_spares {cl : Claim} {tx : Tx} {v : Vault} (h : cl.Fits rt tx b v s)
    (hasset : b.Holds p asset) (hp : p ∉ tx.signers) : debits (cl.feeMoves s) asset = 0 := by
  apply debits_eq_zero
  intro m hm hsource
  obtain ⟨u, t, hu, ht, howner⟩ := feeMoves_source h hm
  rw [hsource] at hu
  subst hu
  obtain ⟨t', ht', honly, -⟩ := hasset
  obtain rfl := Option.some.inj (ht.symm.trans ht')
  apply hp
  rw [← honly, howner]
  exact h.user

/-- A claim on an open record of a schedule that has been funded is covered but for its fee. -/
theorem funded_covers (hrt : rt.Lawful) {b₀ : Bank} {create : Call} {x : CreateScheduleContext}
    (hcall : create.instruction = .createSchedule x a) (hcreate : step rt b₀ create = .ok b)
    {v : Vault} (hv : b.vault? x.vault = some v)
    (hp : rt.createProgramAddress (signerSeeds x.vault v) = some p) {calls : List Call}
    (hsigned : ∀ c ∈ calls, p ∉ c.signers) {records : Multiset Record}
    (honly : a.ProvesOnly rt x.schedule calls records)
    (hsha : CollisionFree rt.sha256 (signerStrings rt x.vault b calls))
    (hs : (run (step rt) b calls).schedule? x.schedule = some s) {cl : Claim} {tx : Tx} {u : Vault}
    (hfits : cl.Fits rt tx (run (step rt) b calls) u s) (hrecord : cl.record s.timestamp ∈ records)
    (hopen : s.redemptions[cl.args.index.toNat]? = some false) (hclaimant : p ∉ tx.signers)
    (hfee : Covers (run (step rt) b calls).balance (cl.feeMoves s))
    (hasset : b.Holds p (cl.payMove s).source)
    (hfunded : ((a.promisedOf records).map fun r => a.draw b.currency r (cl.payMove s).source).sum +
      debits (otherPayouts rt x.vault x.schedule b calls) (cl.payMove s).source ≤
        b.balance (cl.payMove s).source) :
    Covers (run (step rt) b calls).balance (cl.moves s) := by
  obtain ⟨v₀, bump, -, -, hs₀⟩ := createSchedule_schedule? hrt hcall hcreate
  obtain ⟨s', hs', hext⟩ := extends_run hrt hs₀ calls
  obtain rfl := Option.some.inj (hs.symm.trans hs')
  -- the record is outstanding, and with it all it draws
  have hsolvent := solvent_run hrt hcall hcreate hv hp hasset hsigned honly hsha hs
  have hdraw := hfits.draw_source hext
  rw [(run_pays hrt b calls).currencies] at hdraw
  have hmem : cl.record s.timestamp ∈ records.filter s.Outstanding := by
    rw [Multiset.mem_filter]
    refine ⟨hrecord, ?_⟩
    unfold Schedule.Outstanding
    rw [Claim.record_index]
    exact hopen
  have hle := Multiset.le_sum_of_mem (Multiset.mem_map_of_mem
    (fun r : Record => a.draw b.currency r (cl.payMove s).source) hmem)
  dsimp only at hsolvent hle
  rw [hdraw] at hle
  have hholds := (outflow_run hrt hv hp hsigned hsha hasset).1
  have hspares := hfits.fee_spares hholds hclaimant
  intro k
  rw [Claim.moves, debits_append, debits_cons, debits_nil]
  have hamount : (cl.payMove s).amount = cl.args.receivingAmount.toNat := by
    unfold Claim.payMove
    split <;> rfl
  by_cases hk : k = (cl.payMove s).source
  · rw [hk, hspares, Move.debit, if_pos rfl, hamount]
    omega
  · rw [Move.debit, if_neg hk]
    exact hfee k

end

/-- Over any run from the creation of a schedule on, and for each asset that only the vault's signer
can spend: the balance, with what was paid out otherwise and what was promised at the start, is at
least the balance at the start with what the schedule still owes. -/
theorem schedule_solvent {rt : Runtime} (hrt : rt.Lawful) {b₀ b : Bank} {create : Call}
    {x : CreateScheduleContext} {a : CreateScheduleArgs}
    (hcall : create.instruction = .createSchedule x a) (hcreate : step rt b₀ create = .ok b)
    (t : Merkle.Tree Record) (hroot : a.merkleRoot = t.root (redemptionScheme rt)) {v : Vault}
    {p : Pubkey} (hv : b.vault? x.vault = some v)
    (hp : rt.createProgramAddress (signerSeeds x.vault v) = some p) (calls : List Call)
    (hsigned : ∀ c ∈ calls, p ∉ c.signers)
    (hkeccak : CollisionFree rt.keccak
      (t.inputs (redemptionScheme rt) ++ attemptInputs rt x.schedule a.timestamp calls))
    (hsha : CollisionFree rt.sha256 (signerStrings rt x.vault b calls)) :
    ∃ s, (run (step rt) b calls).schedule? x.schedule = some s ∧
      ∀ asset, b.Holds p asset →
        let draw := fun r : Record => a.draw b.currency r asset
        b.balance asset + (((t.leaves : Multiset Record).filter s.Outstanding).map draw).sum ≤
          (run (step rt) b calls).balance asset +
            debits (otherPayouts rt x.vault x.schedule b calls) asset +
            ((a.promised t).map draw).sum := by
  obtain ⟨v₀, bump, -, -, hs₀⟩ := createSchedule_schedule? hrt hcall hcreate
  obtain ⟨s, hs, -⟩ := extends_run hrt hs₀ calls
  refine ⟨s, hs, ?_⟩
  intro asset hasset
  exact solvent_run hrt hcall hcreate hv hp hasset hsigned (provesOnly_leaves hroot hkeccak) hsha hs

open Reference in
theorem schedule_solvent_deployed :
    ∃ s, (run (step runtime) deployed [redeemFirst]).schedule? schedule = some s ∧
      50 + (((records.leaves : Multiset Record).filter s.Outstanding).map fun r =>
        scheduleArgs.draw deployed.currency r (.tokens vaultToken)).sum ≤
      (run (step runtime) deployed [redeemFirst]).balance (.tokens vaultToken) + 7 := by
  obtain ⟨s, hs, hsolvent⟩ := schedule_solvent (p := vaultSigner) runtime_lawful
    (show openSchedule.instruction = _ from rfl) openSchedule_ok records rfl deployed_vault?
    (by decide +kernel) [redeemFirst] (by decide +kernel) (by decide +kernel) (by decide +kernel)
  refine ⟨s, hs, ?_⟩
  have h := hsolvent (.tokens vaultToken)
    ⟨⟨mint, vaultSigner, 50, none, .initialized, none, 0, none⟩, by decide +kernel, rfl, .inl rfl⟩
  have hbefore : deployed.balance (.tokens vaultToken) = 50 := by decide +kernel
  have hothers : debits (otherPayouts runtime vault schedule deployed [redeemFirst])
      (.tokens vaultToken) = 0 := by decide +kernel
  have hpromised : ((scheduleArgs.promised records).map fun r =>
      scheduleArgs.draw deployed.currency r (.tokens vaultToken)).sum = 7 := by decide +kernel
  dsimp only at h
  rw [hbefore, hothers, hpromised] at h
  exact h

/-- If the vault was funded with all that the schedule promised and all that others take, then after
any run a due claim on an open record of the active schedule succeeds, where its accounts fit and
its fee is covered. -/
theorem funded_schedule_pays {rt : Runtime} (hrt : rt.Lawful) {b₀ b : Bank} {create : Call}
    {x : CreateScheduleContext} {a : CreateScheduleArgs}
    (hcall : create.instruction = .createSchedule x a) (hcreate : step rt b₀ create = .ok b)
    {t : Merkle.Tree Record} (hroot : a.merkleRoot = t.root (redemptionScheme rt)) {v : Vault}
    {p : Pubkey} (hv : b.vault? x.vault = some v)
    (hp : rt.createProgramAddress (signerSeeds x.vault v) = some p) {calls : List Call}
    (hsigned : ∀ c ∈ calls, p ∉ c.signers)
    (hkeccak : CollisionFree rt.keccak
      (t.inputs (redemptionScheme rt) ++ attemptInputs rt x.schedule a.timestamp calls))
    (hsha : CollisionFree rt.sha256 (signerStrings rt x.vault b calls))
    {cl : Claim} {tx : Tx} {u : Vault} {s : Schedule}
    (hs : (run (step rt) b calls).schedule? x.schedule = some s) (hactive : s.isActive = true)
    (hdue : cl.Due rt tx (run (step rt) b calls) u s t x.schedule)
    (hopen : s.redemptions[cl.args.index.toNat]? = some false) (hclaimant : p ∉ tx.signers)
    (hfee : Covers (run (step rt) b calls).balance (cl.feeMoves s))
    (hasset : b.Holds p (cl.payMove s).source)
    (hfunded : ((a.promised t).map fun r => a.draw b.currency r (cl.payMove s).source).sum +
      debits (otherPayouts rt x.vault x.schedule b calls) (cl.payMove s).source ≤
        b.balance (cl.payMove s).source) :
    Succeeds (step rt) (run (step rt) b calls) ⟨tx, cl.instruction⟩ := by
  obtain ⟨-, hmerkle, hseeds⟩ := schedule_of_createSchedule hrt hcall hcreate hs
  rw [hroot] at hmerkle
  obtain ⟨position, hat, -⟩ := hdue.proves
  have hcovers : Covers (run (step rt) b calls).balance (cl.moves s) :=
    funded_covers hrt hcall hcreate hv hp hsigned (provesOnly_leaves hroot hkeccak) hsha hs
      hdue.toFits (Merkle.Tree.mem_leaves_of_leafAt hat) hopen hclaimant hfee hasset hfunded
  have hself : store Schedule.layout (run (step rt) b calls) x.schedule (s.marked s.redemptions) =
      .ok (run (step rt) b calls) := store_self hs
  obtain ⟨b₂, -, hstep⟩ := hdue.step hrt hmerkle hactive hs hseeds rfl hself hopen hcovers
  rw [Bank.withBalances_balance] at hstep
  exact ⟨_, hstep⟩

open Reference in
theorem funded_schedule_pays_deployed :
    Succeeds (step runtime) deployed ⟨redeemFirst.toTx, firstClaim.instruction⟩ := by
  have hrun : (run (step runtime) deployed []).schedule? schedule =
      some (scheduleArgs.schedule vault 255) := deployed_schedule?
  have hsigned : ∀ c ∈ ([] : List Call), vaultSigner ∉ c.signers := by simp
  exact funded_schedule_pays (p := vaultSigner) runtime_lawful
    (show openSchedule.instruction = _ from rfl) openSchedule_ok rfl deployed_vault?
    (by decide +kernel) hsigned (by decide +kernel) (by decide +kernel) hrun rfl firstClaim_due
    (by decide +kernel) (by decide +kernel) (by decide +kernel)
    ⟨⟨mint, vaultSigner, 50, none, .initialized, none, 0, none⟩, by decide +kernel, rfl, .inl rfl⟩
    (by decide +kernel)

end Coin98Vault

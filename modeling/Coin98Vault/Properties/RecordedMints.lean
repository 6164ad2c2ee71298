import Coin98Vault.Program.Isolation
import Coin98Vault.Properties.Payout

/-!
# The mints that redemptions move

A schedule records two mints and two token accounts, and nothing compares a mint with its
account.  The mints of a redemption are the recorded ones just when those accounts have them.
-/

namespace Coin98Vault

open Trace

/-- A token account of the mint. -/
def Bank.HasMint (b : Bank) (k mint : Pubkey) : Prop :=
  (b.token? k).map TokenAccount.mint = some mint

instance (b : Bank) (k mint : Pubkey) : Decidable (b.HasMint k mint) := by
  unfold Bank.HasMint; infer_instance

/-- The tokens of a redemption are of the mints recorded for it, on both sides of a transfer. -/
structure Claim.MovesRecorded (cl : Claim) (b : Bank) (s : Schedule) : Prop where
  payout : 0 < cl.tokens s → b.HasMint cl.accounts.vaultToken0 (cl.paidMint s) ∧
    b.HasMint cl.accounts.userToken0 (cl.paidMint s)
  fee : 0 < s.fee cl.args.sendingAmount → ∃ userToken1,
    cl.accounts.remainingAccounts[1]? = some userToken1 ∧
      b.HasMint userToken1 s.sendingTokenMint ∧ b.HasMint s.sendingTokenAccount s.sendingTokenMint

/-- The accounts that the redemption takes from the schedule are of the mints recorded there. -/
structure Claim.NamesRecorded (cl : Claim) (b : Bank) (s : Schedule) : Prop where
  receiving : cl.mint = none → 0 < cl.tokens s →
    b.HasMint s.receivingTokenAccount s.receivingTokenMint
  sending : 0 < s.fee cl.args.sendingAmount → b.HasMint s.sendingTokenAccount s.sendingTokenMint

/-- Both accounts of a schedule are of the mints recorded there, where it makes use of them. -/
structure Schedule.NamesRecorded (s : Schedule) (b : Bank) : Prop where
  receiving : s.objType = .distribution → s.receivingTokenMint ≠ systemProgramId →
    b.HasMint s.receivingTokenAccount s.receivingTokenMint
  sending : s.sendingTokenMint ≠ systemProgramId →
    b.HasMint s.sendingTokenAccount s.sendingTokenMint

/-- A schedule that the call creates names accounts of its mints. -/
def Call.NamesRecorded (b : Bank) (c : Call) : Prop :=
  ∀ x a bump, c.instruction = .createSchedule x a → (a.schedule x.vault bump).NamesRecorded b

def Bank.NamesRecorded (b : Bank) : Prop :=
  ∀ k s, b.schedule? k = some s → s.NamesRecorded b

section
variable {rt : Runtime} {b b' : Bank} {k mint : Pubkey}

private theorem Bank.hasMint_of_token? {t : TokenAccount} (h : b.token? k = some t) :
    b.HasMint k mint ↔ t.mint = mint := by
  rw [Bank.HasMint, h, Option.map_some, Option.some.injEq]

private theorem Bank.hasMint_of_evolves (h : (b k).content.Evolves (b' k).content) :
    b'.HasMint k mint ↔ b.HasMint k mint := by
  unfold Bank.HasMint Bank.token?
  generalize (b k).content = content at h
  generalize (b' k).content = content' at h
  cases h with
  | refl => rfl
  | token h =>
    simp only [Option.map_some, Option.some.injEq]
    rw [h.mint]

private theorem hasMint_step (hrt : rt.Lawful) {c : Call} (h : step rt b c = .ok b')
    (hm : b.HasMint k mint) : b'.HasMint k mint := by
  obtain ⟨t, ht, hmint⟩ := Option.map_eq_some_iff.mp hm
  obtain ⟨t', ht', hev⟩ := (kinds_step hrt h).1 t ht
  exact (Bank.hasMint_of_token? ht').mpr (hev.mint.trans hmint)

/-! ## One redemption -/

private theorem transferToken_mint (hrt : rt.Lawful) {tx : Tx} {owner source target : Pubkey}
    {amount : UInt64} {seeds : List (List Bytes)}
    (h : transferToken rt tx b owner source target amount seeds = .ok b') :
    b.HasMint source mint ↔ b.HasMint target mint := by
  obtain ⟨-, -, -, -, hp⟩ := transferToken_eq_ok.mp h
  obtain ⟨s, t, hs, ht, hmint, -⟩ := hrt.token.requires hp
  rw [Bank.hasMint_of_token? hs, Bank.hasMint_of_token? ht, hmint]

private theorem payFee_evolves (hrt : rt.Lawful) {tx : Tx} {s : Schedule} {user : Pubkey}
    {accounts : List Pubkey} {n : UInt64} (h : payFee rt tx b s user accounts n = .ok b') :
    b.Evolves b' := by
  rcases payFee_eq_ok.mp h with ⟨-, rfl⟩ | ⟨-, -, u, -, ht⟩
  · exact .refl _
  · obtain ⟨-, -, -, -, hp⟩ := transferToken_eq_ok.mp ht
    exact (Transfer.tokens u s.sendingTokenAccount n hp).evolves hrt

private theorem payFee_mint (hrt : rt.Lawful) {tx : Tx} {s : Schedule} {user : Pubkey}
    {accounts : List Pubkey} {n : UInt64} (h : payFee rt tx b s user accounts n = .ok b')
    (hpos : 0 < s.fee n) (mint : Pubkey) :
    ∃ userToken1, accounts[1]? = some userToken1 ∧
      (b.HasMint userToken1 mint ↔ b.HasMint s.sendingTokenAccount mint) := by
  rcases payFee_eq_ok.mp h with ⟨hzero, -⟩ | ⟨-, -, u, hu, ht⟩
  · omega
  · exact ⟨u, hu, transferToken_mint hrt ht⟩

private theorem Claim.payOut_mint (hrt : rt.Lawful) {cl : Claim} {tx : Tx} {v : Vault}
    {s : Schedule} (h : cl.payOut rt tx b v s = .ok b') (hpos : 0 < cl.tokens s) (mint : Pubkey) :
    (b.HasMint cl.accounts.vaultToken0 mint ↔ b.HasMint cl.accounts.userToken0 mint) ∧
      (cl.mint = some mint → b.HasMint cl.accounts.vaultToken0 mint) := by
  rcases Claim.payOut_eq_ok.mp h with ⟨hsys, -⟩ | ⟨-, hchecked, ht⟩
  · rw [Claim.tokens, if_pos hsys] at hpos
    omega
  · refine ⟨transferToken_mint hrt ht, ?_⟩
    intro hmint
    obtain ⟨t₀, -, hunpack, -, hm, -⟩ := hchecked mint hmint
    obtain ⟨-, -, -, -, hp⟩ := transferToken_eq_ok.mp ht
    obtain ⟨t, -, htok, -⟩ := hrt.token.requires hp
    -- what has been unpacked is the account that the token program reads
    rw [unpackTokenAccount_of_token? htok, Option.some.injEq] at hunpack
    rw [Bank.hasMint_of_token? htok, hunpack, hm]

private theorem movesRecorded_iff (hrt : rt.Lawful) {cl : Claim} {tx : Tx} {v : Vault}
    {s : Schedule} {b₁ b₂ : Bank} (hadm : cl.Admitted rt tx b v s)
    (hfee : payFee rt tx b s cl.accounts.user cl.accounts.remainingAccounts cl.args.sendingAmount =
      .ok b₁) (hpay : cl.payOut rt tx b₁ v s = .ok b₂) :
    cl.MovesRecorded b s ↔ cl.NamesRecorded b s := by
  -- the fee does not change what the accounts of the payout are
  have hsame (k mint : Pubkey) : b₁.HasMint k mint ↔ b.HasMint k mint :=
    Bank.hasMint_of_evolves (payFee_evolves hrt hfee k)
  have hpinned (hnone : cl.mint = none) :
      cl.accounts.vaultToken0 = s.receivingTokenAccount ∧ cl.paidMint s = s.receivingTokenMint := by
    refine ⟨hadm.pinned hnone, ?_⟩
    rw [Claim.paidMint, hnone, Option.getD_none]
  constructor
  · intro hmoves
    constructor
    · intro hnone htokens
      have hpaid := (hmoves.payout htokens).1
      rwa [(hpinned hnone).1, (hpinned hnone).2] at hpaid
    · intro hpos
      obtain ⟨-, -, -, hrecorded⟩ := hmoves.fee hpos
      exact hrecorded
  · intro hnames
    constructor
    · intro htokens
      obtain ⟨hboth, hnamed⟩ := Claim.payOut_mint hrt hpay htokens (cl.paidMint s)
      rw [hsame, hsame] at hboth
      rw [hsame] at hnamed
      have hpaid : b.HasMint cl.accounts.vaultToken0 (cl.paidMint s) := by
        cases hmint : cl.mint with
        | none =>
          rw [(hpinned hmint).1, (hpinned hmint).2]
          exact hnames.receiving hmint htokens
        | some mint =>
          apply hnamed
          rw [Claim.paidMint, hmint, Option.getD_some]
      exact ⟨hpaid, hboth.mp hpaid⟩
    · intro hpos
      obtain ⟨u, hu, hboth⟩ := payFee_mint hrt hfee hpos s.sendingTokenMint
      have hrecorded := hnames.sending hpos
      exact ⟨u, hu, hboth.mpr hrecorded, hrecorded⟩

/-! ## Runs -/

theorem Schedule.NamesRecorded.extends {s s' : Schedule} (h : s.NamesRecorded b)
    (hext : s.Extends s') : s'.NamesRecorded b := by
  rw [hext.fixed]
  exact ⟨h.receiving, h.sending⟩

theorem Schedule.NamesRecorded.step (hrt : rt.Lawful) {c : Call} {s : Schedule}
    (h : s.NamesRecorded b) (hok : step rt b c = .ok b') : s.NamesRecorded b' where
  receiving htype hmint := hasMint_step hrt hok (h.receiving htype hmint)
  sending hmint := hasMint_step hrt hok (h.sending hmint)

/-- A redemption takes the accounts of its schedule. -/
theorem Schedule.NamesRecorded.claim {cl : Claim} {s : Schedule} (h : s.NamesRecorded b)
    (htype : s.objType = cl.objType) : cl.NamesRecorded b s := by
  constructor
  · intro hnone htokens
    have hmint : s.receivingTokenMint ≠ systemProgramId := by
      intro hsys
      rw [Claim.tokens, Claim.paidMint, hnone, Option.getD_none, if_pos hsys] at htokens
      omega
    apply h.receiving _ hmint
    rw [htype, Claim.objType, hnone]
    rfl
  · intro hpos
    exact h.sending (Schedule.charges_iff.mpr hpos).1

/-- Where only such schedules are created, all schedules name accounts of their mints. -/
private theorem namesRecorded_step (hrt : rt.Lawful) {c : Call} (hb : b.NamesRecorded)
    (hc : c.NamesRecorded b) (h : step rt b c = .ok b') : b'.NamesRecorded := by
  intro k s hs
  cases hold : b.schedule? k with
  | some s₀ =>
    obtain ⟨s', hs', hstep⟩ := schedule_step hrt h hold
    obtain rfl := Option.some.inj (hs.symm.trans hs')
    exact ((hb k s₀ hold).extends hstep.extends).step hrt h
  | none =>
    obtain ⟨x, a, -, bump, hinstr, -, -, -, -, -, -, rfl⟩ := schedule_created hrt h hold hs
    exact (hc x a bump hinstr).step hrt h

private theorem namesRecorded_run (hrt : rt.Lawful) (hb : b.NamesRecorded) (calls : List Call)
    (hcalls : ∀ before c after, calls = before ++ c :: after →
      Succeeds (step rt) (run (step rt) b before) c → c.NamesRecorded (run (step rt) b before)) :
    (run (step rt) b calls).NamesRecorded := by
  refine run_induction (P := fun _ b' => b'.NamesRecorded) b calls hb ?_ ?_
  · intro before c after b' heq hbefore hok
    exact namesRecorded_step hrt hbefore (hcalls before c after heq ⟨b', hok⟩) hok
  · intro before c e hbefore _
    exact hbefore

end

/-- A redemption moves tokens of the recorded mints just when the accounts recorded with them
are of these mints.  In a run whose schedules are all created so, every redemption does. -/
theorem redemption_mints {rt : Runtime} (hrt : rt.Lawful) :
    (∀ b b' c cl, c.instruction.claim? = some cl → step rt b c = .ok b' →
      ∃ s, b.schedule? cl.accounts.schedule = some s ∧
        b.TokensMoved (fun k => cl.feeFrom s k + amountAt cl.accounts.vaultToken0 (cl.tokens s) k)
          (fun k => cl.feeTo s k + amountAt cl.accounts.userToken0 (cl.tokens s) k) b' ∧
        (cl.MovesRecorded b s ↔ cl.NamesRecorded b s)) ∧
    ∀ b calls, (∀ k d, (b k).content ≠ .program d) →
      (∀ before c after, calls = before ++ c :: after →
        Succeeds (step rt) (run (step rt) b before) c →
        c.NamesRecorded (run (step rt) b before)) →
      ∀ before c after cl, calls = before ++ c :: after →
        Succeeds (step rt) (run (step rt) b before) c → c.instruction.claim? = some cl →
        ∃ s, (run (step rt) b before).schedule? cl.accounts.schedule = some s ∧
          cl.MovesRecorded (run (step rt) b before) s := by
  constructor
  · intro b b' c cl hcl h
    obtain ⟨v, s, b₁, hadm, hfee, ⟨b₂, hpay⟩, htokens, -, -⟩ := redemption_moves hrt hcl h
    exact ⟨s, hadm.schedule, htokens, movesRecorded_iff hrt hadm hfee hpay⟩
  · intro b calls hempty hcalls before c after cl heq hok hcl
    obtain ⟨v, s, b₁, hadm, hfee, ⟨b₂, hpay⟩, -⟩ := redemption_moves hrt hcl hok.step_eq
    have hunused : b.NamesRecorded := by
      intro k s hs
      cases (Bank.read_of_unused hempty).symm.trans hs
    have hbefore : (run (step rt) b before).NamesRecorded := by
      apply namesRecorded_run hrt hunused
      intro before' c' after' heq' hok'
      apply hcalls before' c' (after' ++ c :: after) _ hok'
      rw [heq, heq', List.append_assoc, List.cons_append]
    refine ⟨s, hadm.schedule, (movesRecorded_iff hrt hadm hfee hpay).mpr ?_⟩
    exact (hbefore _ s hadm.schedule).claim hadm.type

open Reference in
private theorem openSchedule_namesRecorded :
    openSchedule.NamesRecorded (run (step runtime) genesis [openVault]) := by
  intro x a bump hinstr
  cases hinstr
  constructor
  · intro _ _
    show (run (step runtime) genesis [openVault]).HasMint vaultToken mint
    decide +kernel
  · intro _
    show (run (step runtime) genesis [openVault]).HasMint vaultFee feeMint
    decide +kernel

open Reference in
theorem redemption_mints_deployed :
    let b := run (step runtime) genesis [openVault, openSchedule]
    ∃ s, b.schedule? schedule = some s ∧ firstClaim.MovesRecorded b s ∧
      firstClaim.NamesRecorded b s := by
  intro b
  obtain ⟨hone, hrun⟩ := redemption_mints runtime_lawful
  have hok : Succeeds (step runtime) b redeemFirst := by decide +kernel
  have hcalls : ∀ before c after, [openVault, openSchedule, redeemFirst] = before ++ c :: after →
      Succeeds (step runtime) (run (step runtime) genesis before) c →
      c.NamesRecorded (run (step runtime) genesis before) := by
    apply forall_split_cons
    · intro _ x a bump hinstr
      cases hinstr
    · apply forall_split_cons
      · exact fun _ => openSchedule_namesRecorded
      · apply forall_split_cons
        · intro _ x a bump hinstr
          cases hinstr
        · intro before c after hnil
          simp at hnil
  obtain ⟨s, hs, hmoves⟩ := hrun genesis _ genesis_unused hcalls [openVault, openSchedule]
    redeemFirst [] firstClaim rfl hok rfl
  obtain ⟨s', hs', -, hiff⟩ := hone b _ redeemFirst firstClaim rfl hok.step_eq
  obtain rfl : s = s' := Option.some.inj (hs.symm.trans hs')
  exact ⟨s, hs, hmoves, hiff.mp hmoves⟩

open Reference in
/-- The schedule records for the account that pays the mint of fees, and the other way round.  The
redemption goes through, and moves the tokens that the accounts are of. -/
theorem redemption_mints_swapped :
    let b := run (step runtime) genesis [openVault, openSwapped]
    Succeeds (step runtime) b redeemFirst ∧ redeemFirst.instruction.claim? = some firstClaim ∧
      ∃ s, b.schedule? schedule = some s ∧
        0 < firstClaim.tokens s ∧ s.receivingTokenMint = feeMint ∧
        b.HasMint firstClaim.accounts.vaultToken0 mint ∧
        0 < s.fee firstClaim.args.sendingAmount ∧ s.sendingTokenMint = mint ∧
        b.HasMint s.sendingTokenAccount feeMint ∧ ¬ firstClaim.MovesRecorded b s := by
  intro b
  have hok : Succeeds (step runtime) b redeemFirst := by decide +kernel
  have hfields : (b.schedule? schedule).map (fun s => (s.receivingTokenMint, s.sendingTokenMint,
      s.sendingTokenAccount)) = some (feeMint, mint, vaultFee) := by
    decide +kernel
  obtain ⟨s, hs, hf⟩ := Option.map_eq_some_iff.mp hfields
  simp only [Prod.mk.injEq] at hf
  obtain ⟨hreceiving, hsending, haccount⟩ := hf
  have htokens : 0 < firstClaim.tokens s := by
    rw [Claim.tokens, Claim.paidMint, show firstClaim.mint = none from rfl, Option.getD_none,
      hreceiving]
    decide +kernel
  have hfee : 0 < s.fee firstClaim.args.sendingAmount := by
    rw [Schedule.fee, hsending]
    decide +kernel
  have hpays : b.HasMint firstClaim.accounts.vaultToken0 mint := by decide +kernel
  have hcollects : b.HasMint vaultFee feeMint := by decide +kernel
  have hdiffers : ¬ b.HasMint firstClaim.accounts.vaultToken0 feeMint := by decide +kernel
  refine ⟨hok, rfl, s, hs, htokens, hreceiving, hpays, hfee, hsending, ?_, ?_⟩
  · rw [haccount]
    exact hcollects
  · intro hmoves
    apply hdiffers
    have hpaid := (hmoves.payout htokens).1
    rwa [Claim.paidMint, show firstClaim.mint = none from rfl, Option.getD_none, hreceiving]
      at hpaid

end Coin98Vault

import Coin98Vault.Program.Lifecycle
import Coin98Vault.Program.Reference

/-!
# What a redemption moves

The balances after a redemption, for every choice of accounts: they may coincide with one
another in any way.
-/

namespace Coin98Vault

/-- Every token account is debited and credited by the given amounts. -/
def Bank.TokensMoved (debit credit : Pubkey → Nat) (b b' : Bank) : Prop :=
  ∀ k t, b.token? k = some t → ∃ t', b'.token? k = some t' ∧ t.Evolves t' ∧
    t'.amount + debit k = t.amount + credit k

def Bank.LamportsMoved (debit credit : Pubkey → Nat) (b b' : Bank) : Prop :=
  ∀ k, (b' k).lamports + debit k = (b k).lamports + credit k

/-- An amount at one key. -/
def amountAt (x : Pubkey) (n : Nat) (k : Pubkey) : Nat := if k = x then n else 0

theorem Bank.TokensMoved.trans {d c d' c' : Pubkey → Nat} {b b' b'' : Bank}
    (h : b.TokensMoved d c b') (h' : b'.TokensMoved d' c' b'') :
    b.TokensMoved (fun k => d k + d' k) (fun k => c k + c' k) b'' := by
  intro k t ht
  obtain ⟨t', ht', hev, hm⟩ := h k t ht
  obtain ⟨t'', ht'', hev', hm'⟩ := h' k t' ht'
  exact ⟨t'', ht'', hev.trans hev', by dsimp only; omega⟩

theorem Bank.LamportsMoved.trans {d c d' c' : Pubkey → Nat} {b b' b'' : Bank}
    (h : b.LamportsMoved d c b') (h' : b'.LamportsMoved d' c' b'') :
    b.LamportsMoved (fun k => d k + d' k) (fun k => c k + c' k) b'' := by
  intro k
  have hfirst := h k
  have hsecond := h' k
  dsimp only
  omega

theorem Bank.TokensMoved.of_content {b b' : Bank} (h : ∀ k, (b' k).content = (b k).content) :
    b.TokensMoved (fun _ => 0) (fun _ => 0) b' :=
  fun k t ht => ⟨t, by rw [Bank.token?_congr (h k), ht], .refl t, rfl⟩

section
variable {rt : Runtime} (hrt : rt.Lawful) {b b' : Bank}
include hrt

private theorem transferToken_moves {tx : Tx} {owner source target : Pubkey} {amount : UInt64}
    {seeds : List (List Bytes)}
    (h : transferToken rt tx b owner source target amount seeds = .ok b') :
    b.TokensMoved (amountAt source amount.toNat) (amountAt target amount.toNat) b' ∧
      b.LamportsMoved (fun _ => 0) (fun _ => 0) b' := by
  obtain ⟨-, -, -, -, hp⟩ := transferToken_eq_ok.mp h
  refine ⟨fun k t ht => ?_, fun k => hrt.token.lamports hp k⟩
  obtain ⟨t', ht', hm, hmint, howner, hstate, hdel, -⟩ := hrt.token.moves hp ht
  exact ⟨t', ht', ⟨hmint, howner, hstate, hdel⟩, hm⟩

private theorem transferLamport_moves {tx : Tx} {owner recipient : Pubkey} {amount : UInt64}
    {seeds : List (List Bytes)}
    (h : transferLamport rt tx b owner recipient amount seeds = .ok b') :
    b.TokensMoved (fun _ => 0) (fun _ => 0) b' ∧
      b.LamportsMoved (amountAt owner amount.toNat) (amountAt recipient amount.toNat) b' := by
  obtain ⟨-, -, -, -, -, hle, rfl⟩ := (transferLamport_eq_ok hrt).mp h
  exact ⟨.of_content fun k => b.moveLamports_content _ _ _ k,
    fun k => b.moveLamports_lamports _ _ hle k⟩

end

/-- The fee leaves the second remaining account, whichever it is. -/
def Claim.feeFrom (cl : Claim) (s : Schedule) (k : Pubkey) : Nat :=
  if cl.accounts.remainingAccounts[1]? = some k then s.fee cl.args.sendingAmount else 0

def Claim.feeTo (cl : Claim) (s : Schedule) : Pubkey → Nat :=
  amountAt s.sendingTokenAccount (s.fee cl.args.sendingAmount)

/-- The tokens paid out, if it is tokens that are paid. -/
def Claim.tokens (cl : Claim) (s : Schedule) : Nat :=
  if cl.paidMint s = systemProgramId then 0 else cl.args.receivingAmount.toNat

def Claim.lamports (cl : Claim) (s : Schedule) : Nat :=
  if cl.paidMint s = systemProgramId then cl.args.receivingAmount.toNat else 0

/-- The accounts that a redemption has to write. -/
def Claim.writes (cl : Claim) (s : Schedule) : List Pubkey :=
  [cl.accounts.schedule, cl.accounts.vaultToken0, cl.accounts.userToken0] ++
  (if 0 < s.fee cl.args.sendingAmount then
    s.sendingTokenAccount :: cl.accounts.remainingAccounts[1]?.toList
  else []) ++
  if cl.paidMint s = systemProgramId then [cl.accounts.vaultSigner, cl.accounts.user] else []

theorem Claim.forall_writes {cl : Claim} {s : Schedule} {P : Pubkey → Prop} :
    (∀ k ∈ cl.writes s, P k) ↔
      (P cl.accounts.schedule ∧ P cl.accounts.vaultToken0 ∧ P cl.accounts.userToken0) ∧
      (0 < s.fee cl.args.sendingAmount → P s.sendingTokenAccount ∧
        ∀ u, cl.accounts.remainingAccounts[1]? = some u → P u) ∧
      (cl.paidMint s = systemProgramId → P cl.accounts.vaultSigner ∧ P cl.accounts.user) := by
  unfold Claim.writes
  simp only [List.forall_mem_append, List.forall_mem_cons, List.not_mem_nil, false_implies,
    implies_true, and_true, and_assoc]
  refine and_congr_right fun _ => and_congr_right fun _ => and_congr_right fun _ => ?_
  apply and_congr
  · split <;> simp [*]
  · split <;> simp [*]

section
variable {rt : Runtime} (hrt : rt.Lawful) {b b' : Bank} {cl : Claim} {s : Schedule}

private theorem amountAt_zero (x : Pubkey) : amountAt x 0 = fun _ => 0 := by
  funext k
  simp [amountAt]

include hrt

private theorem payFee_moves {tx : Tx} (h : payFee rt tx b s cl.accounts.user
    cl.accounts.remainingAccounts cl.args.sendingAmount = .ok b') :
    b.TokensMoved (cl.feeFrom s) (cl.feeTo s) b' ∧
      b.LamportsMoved (fun _ => 0) (fun _ => 0) b' := by
  rcases payFee_eq_ok.mp h with ⟨hzero, rfl⟩ | ⟨hpos, -, u, hu, ht⟩
  · have hfrom : cl.feeFrom s = fun _ => 0 := by
      funext k
      simp [Claim.feeFrom, hzero]
    rw [hfrom, Claim.feeTo, hzero, amountAt_zero]
    exact ⟨.of_content fun _ => rfl, fun _ => rfl⟩
  · have hfrom : cl.feeFrom s = amountAt u cl.args.sendingAmount.toNat := by
      funext k
      simp only [Claim.feeFrom, amountAt, hu, Option.some.injEq, Schedule.fee_eq hpos]
      by_cases hk : k = u
      · simp [hk]
      · simp [hk, Ne.symm hk]
    rw [hfrom, Claim.feeTo, Schedule.fee_eq hpos]
    exact transferToken_moves hrt ht

private theorem Claim.payOut_moves {tx : Tx} {v : Vault} (h : cl.payOut rt tx b v s = .ok b') :
    b.TokensMoved (amountAt cl.accounts.vaultToken0 (cl.tokens s))
      (amountAt cl.accounts.userToken0 (cl.tokens s)) b' ∧
      b.LamportsMoved (amountAt cl.accounts.vaultSigner (cl.lamports s))
        (amountAt cl.accounts.user (cl.lamports s)) b' := by
  unfold Claim.tokens Claim.lamports
  rcases Claim.payOut_eq_ok.mp h with ⟨hsys, ht⟩ | ⟨hsys, -, ht⟩
  · simp only [if_pos hsys, amountAt_zero]
    exact transferLamport_moves hrt ht
  · simp only [if_neg hsys, amountAt_zero]
    exact transferToken_moves hrt ht

/-- A redemption whose transfers run could write all that it has to. -/
theorem Claim.Admitted.writes {tx : Tx} {v : Vault} {b₁ b₂ : Bank} (h : cl.Admitted rt tx b v s)
    (hfee : payFee rt tx b s cl.accounts.user cl.accounts.remainingAccounts cl.args.sendingAmount =
      .ok b₁) (hpay : cl.payOut rt tx b₁ v s = .ok b₂) : ∀ k ∈ cl.writes s, k ∈ tx.writable := by
  refine Claim.forall_writes.mpr
    ⟨⟨h.scheduleWritable, h.vaultToken0Writable, h.userToken0Writable⟩, ?_, ?_⟩
  · intro hpos
    rcases payFee_eq_ok.mp hfee with ⟨hzero, -⟩ | ⟨-, -, u, hu, ht⟩
    · omega
    · obtain ⟨-, hsource, htarget, -⟩ := transferToken_eq_ok.mp ht
      refine ⟨htarget, ?_⟩
      intro x hx
      rw [hu, Option.some.injEq] at hx
      exact hx ▸ hsource
  · intro hsys
    rcases Claim.payOut_eq_ok.mp hpay with ⟨-, ht⟩ | ⟨hne, -⟩
    · obtain ⟨-, hsource, htarget, -⟩ := (transferLamport_eq_ok hrt).mp ht
      exact ⟨hsource, htarget⟩
    · exact absurd hsys hne

private theorem payFee_source {tx : Tx} (h : payFee rt tx b s cl.accounts.user
    cl.accounts.remainingAccounts cl.args.sendingAmount = .ok b')
    (hpos : 0 < s.fee cl.args.sendingAmount) :
    ∃ u t, cl.accounts.remainingAccounts[1]? = some u ∧ b.token? u = some t ∧
      t.Authorizes cl.accounts.user ∧ s.fee cl.args.sendingAmount ≤ t.amount := by
  rcases payFee_eq_ok.mp h with ⟨hzero, -⟩ | ⟨-, -, u, hu, ht⟩
  · omega
  · obtain ⟨-, -, -, -, hp⟩ := transferToken_eq_ok.mp ht
    obtain ⟨t, -, ht, -, -, hdebit, hle, -⟩ := hrt.token.requires hp
    exact ⟨u, t, hu, ht, hdebit.authorizes, by rwa [Schedule.fee_eq hpos]⟩

end

theorem Bank.TokensMoved.setContent {d c : Pubkey → Nat} {b b' : Bank} {k : Pubkey}
    {content : Content} (h : b.TokensMoved d c b') (hk : b.token? k = none) :
    b.TokensMoved d c (b'.setContent k content) := by
  intro x t ht
  obtain ⟨t', ht', hrest⟩ := h x t ht
  exact ⟨t', (b'.setContent_token? content (Bank.ne_of_token? ht hk)).trans ht', hrest⟩

section
variable {rt : Runtime} (hrt : rt.Lawful) {b b' : Bank} {c : Call} {cl : Claim}
include hrt

/-- What a successful redemption was checked for, and the money it moved. -/
theorem redemption_moves (hcl : c.instruction.claim? = some cl) (h : step rt b c = .ok b') :
    ∃ v s b₁, cl.Admitted rt c.toTx b v s ∧
      payFee rt c.toTx b s cl.accounts.user cl.accounts.remainingAccounts cl.args.sendingAmount =
        .ok b₁ ∧
      (∃ b₂, cl.payOut rt c.toTx b₁ v s = .ok b₂) ∧
      b.TokensMoved (fun k => cl.feeFrom s k + amountAt cl.accounts.vaultToken0 (cl.tokens s) k)
        (fun k => cl.feeTo s k + amountAt cl.accounts.userToken0 (cl.tokens s) k) b' ∧
      b.LamportsMoved (amountAt cl.accounts.vaultSigner (cl.lamports s))
        (amountAt cl.accounts.user (cl.lamports s)) b' ∧
      b'.schedule? cl.accounts.schedule = some (s.redeem cl.args.index) := by
  obtain ⟨o, hh, hexit⟩ := step_eq_ok_iff.mp h
  obtain ⟨v, s, b₁, b₂, hadm, hfee, hpay, rfl⟩ := (handle_claim_eq_ok hcl).mp hh
  obtain ⟨htok₁, hlam₁⟩ := payFee_moves hrt hfee
  obtain ⟨htok₂, hlam₂⟩ := Claim.payOut_moves hrt hpay
  have hlam := hlam₁.trans hlam₂
  obtain ⟨d, d', hd, hw, rfl⟩ := exit_some.mp hexit
  have hnone := Bank.token?_of_read hadm.schedule
  refine ⟨v, s, b₁, hadm, hfee, ⟨b₂, hpay⟩, (htok₁.trans htok₂).setContent hnone, ?_, ?_⟩
  · intro k
    have hk := hlam k
    rw [Bank.setContent_lamports]
    dsimp only at hk
    omega
  · exact Bank.value?_eq_schedule.mp
      (Value.value?_of_write hw (Bank.setContent_content_self _ _ _))

/-- A claim that is admitted and whose transfers run succeeds: the bit is always written. -/
theorem redemption_succeeds (hcl : c.instruction.claim? = some cl) {v : Vault} {s : Schedule}
    (hadm : cl.Admitted rt c.toTx b v s) {b₁ b₂ : Bank}
    (hfee : payFee rt c.toTx b s cl.accounts.user cl.accounts.remainingAccounts
      cl.args.sendingAmount = .ok b₁) (hpay : cl.payOut rt c.toTx b₁ v s = .ok b₂) :
    ∃ b', step rt b c = .ok b' := by
  have hh : handle rt c.toTx b c.instruction =
      .ok ⟨b₂, some (cl.accounts.schedule, .schedule (s.redeem cl.args.index))⟩ :=
    (handle_claim_eq_ok hcl).mpr ⟨v, s, b₁, b₂, hadm, hfee, hpay, rfl⟩
  obtain ⟨-, b₃, hmoved, hb₃⟩ := handle_eq_ok hrt hh
  rw [Instruction.created?_of_claim? hcl] at hb₃
  obtain rfl : b₂ = b₃ := hb₃
  -- transfers have left the schedule as it was, and its new value is as long as the old one
  have hread : b₂.schedule? cl.accounts.schedule = some s :=
    (Bank.read_of_evolves (hmoved.evolves hrt _)).trans hadm.schedule
  have hlen : (s.redemptions.set cl.args.index.toNat true).length = s.redemptions.length :=
    List.length_set
  obtain ⟨b', hb'⟩ := store_marked hread hlen
  obtain ⟨d, d', hd, hw, rfl⟩ := store_eq_ok.mp hb'
  exact ⟨_, step_eq_ok_iff.mpr ⟨_, hh, exit_some.mpr ⟨d, d', hd, hw, rfl⟩⟩⟩

end

/-- What a redemption does to the bank: every token account is debited and credited by the fee
and by the payout as often as it is passed for them, lamports move only in a native payout,
and of all other data only one bit of the schedule changes.  A fee is not paid from the account
that collects it unless the user is an authority of that account. -/
theorem redemption_effects {rt : Runtime} (hrt : rt.Lawful) {b b' : Bank} {c : Call} {cl : Claim}
    (hcl : c.instruction.claim? = some cl) (h : step rt b c = .ok b') :
    ∃ v s, b.vault? cl.accounts.vault = some v ∧
      rt.createProgramAddress (signerSeeds cl.accounts.vault v) = some cl.accounts.vaultSigner ∧
      b.schedule? cl.accounts.schedule = some s ∧
      b.TokensMoved (fun k => cl.feeFrom s k + amountAt cl.accounts.vaultToken0 (cl.tokens s) k)
        (fun k => cl.feeTo s k + amountAt cl.accounts.userToken0 (cl.tokens s) k) b' ∧
      b.LamportsMoved (amountAt cl.accounts.vaultSigner (cl.lamports s))
        (amountAt cl.accounts.user (cl.lamports s)) b' ∧
      b'.schedule? cl.accounts.schedule = some (s.redeem cl.args.index) ∧
      (∀ k, k ≠ cl.accounts.schedule → b.token? k = none → (b' k).content = (b k).content) ∧
      (∀ k, k ≠ cl.accounts.schedule → b'.value? k = b.value? k) ∧
      (0 < s.fee cl.args.sendingAmount →
        (∀ t, b.token? s.sendingTokenAccount = some t → ¬ t.Authorizes cl.accounts.user) →
        ∃ u t, cl.accounts.remainingAccounts[1]? = some u ∧ u ≠ s.sendingTokenAccount ∧
          b.token? u = some t ∧ t.Authorizes cl.accounts.user ∧
          s.fee cl.args.sendingAmount ≤ t.amount ∧
          cl.feeFrom s s.sendingTokenAccount = 0) := by
  obtain ⟨v, s, b₁, hadm, hfee, -, htok, hlam, hnew⟩ := redemption_moves hrt hcl h
  obtain ⟨w, ⟨bank, hh⟩, hst⟩ := step_eq_ok hrt h
  obtain ⟨v', s', b₁', b₂', hadm', -, -, ho⟩ := (handle_claim_eq_ok hcl).mp hh
  obtain rfl : s = s' := Option.some.inj (hadm.schedule.symm.trans hadm'.schedule)
  obtain rfl : w = some (cl.accounts.schedule, Value.schedule (s.redeem cl.args.index)) :=
    congrArg Outcome.written ho
  have hothers {k : Pubkey} (hk : k ≠ cl.accounts.schedule) :
      (b k).content.Evolves (b' k).content := by
    apply hst.others k
    rintro val hval
    exact hk (Prod.mk.inj (Option.some.inj hval)).1.symm
  refine ⟨v, s, hadm.vault, hadm.vaultSigner, hadm.schedule, htok, hlam, hnew, ?_, ?_, ?_⟩
  · intro k hk ht
    exact Bank.content_of_evolves (hothers hk) ht
  · intro k hk
    exact Bank.value?_of_evolves (hothers hk)
  · intro hpos hauth
    obtain ⟨u, t, hu, ht, ha, hle⟩ := payFee_source hrt hfee hpos
    have hne : u ≠ s.sendingTokenAccount := by
      rintro rfl
      exact hauth t ht ha
    refine ⟨u, t, hu, hne, ht, ha, hle, ?_⟩
    rw [Claim.feeFrom, hu, if_neg fun he => hne (Option.some.inj he)]

open Reference in
theorem redemption_effects_deployed :
    ∃ b' s, deployed.schedule? schedule = some s ∧ b'.schedule? schedule = some (s.redeem 0) ∧
      deployed.TokensMoved
        (fun k => firstClaim.feeFrom s k + amountAt vaultToken (firstClaim.tokens s) k)
        (fun k => firstClaim.feeTo s k + amountAt userToken (firstClaim.tokens s) k) b' := by
  have hok : Trace.Succeeds (step runtime) deployed redeemFirst := by decide +kernel
  obtain ⟨v, s, -, -, hs, htok, -, hs', -⟩ :=
    redemption_effects runtime_lawful firstClaim.claim?_instruction hok.step_eq
  exact ⟨_, s, hs, hs', htok⟩

end Coin98Vault

import Coin98Vault.Program.Settlement

/-!
# The moves behind a step

What a successful call pays, as moves of the ledger of the bank: the signers pay for rent and
fees, the signer of a vault for withdrawals and redemptions.
-/

namespace Coin98Vault

open Ledger

def Asset.account : Asset → Pubkey
  | tokens k => k
  | lamports k => k

/-- What a balance is counted in. -/
inductive Currency where
  | lamports
  | tokens (mint : Pubkey)
  deriving DecidableEq

/-- The currency of a balance; an account that holds no tokens has none. -/
def Bank.currency (b : Bank) : Asset → Option Currency
  | .tokens k => (b.token? k).map fun t => .tokens t.mint
  | .lamports _ => some .lamports

/-- The rent of an account that `init` creates. -/
def rentMove (rt : Runtime) (b : Bank) (payer k : Pubkey) (space : Nat) : Move Asset :=
  ⟨.lamports payer, .lamports k, (initFunds rt b k space).toNat⟩

/-- What a claim moves, when the schedule it names is one. -/
def Bank.ofClaim (b : Bank) (moves : Claim → Schedule → List (Move Asset)) (i : Instruction) :
    List (Move Asset) :=
  match i.claim? with
  | some cl => ((b.schedule? cl.accounts.schedule).map (moves cl)).getD []
  | none => []

namespace Instruction

/-- What the signers of a call pay. -/
def dues (rt : Runtime) (b : Bank) : Instruction → List (Move Asset)
  | createVault x _ => [rentMove rt b x.owner x.vault (16 + Vault.size)]
  | createSchedule x a => [rentMove rt b x.admin x.schedule (16 + Schedule.size a.userCount)]
  | i => b.ofClaim Claim.feeMoves i

/-- What the signer of a vault pays. -/
def payouts (b : Bank) : Instruction → List (Move Asset)
  | withdrawSol x amount => [⟨.lamports x.vaultSigner, .lamports x.recipient, amount.toNat⟩]
  | withdrawToken x amount => [⟨.tokens x.sender, .tokens x.recipient, amount.toNat⟩]
  | i => b.ofClaim (fun cl s => [cl.payMove s]) i

def moves (rt : Runtime) (b : Bank) (i : Instruction) : List (Move Asset) :=
  i.dues rt b ++ i.payouts b

end Instruction

/-- The moves lead from the balances of one bank to those of the other.  They run between the
accounts listed, each within one currency, and no other account changes. -/
structure Bank.Pays (accounts : List Pubkey) (moves : List (Move Asset)) (b b' : Bank) : Prop where
  funded : Funded b.balance moves
  settled : b'.balance = settle moves b.balance
  currencies : b'.currency = b.currency
  currency : ∀ m ∈ moves, ∃ c, b.currency m.source = some c ∧ b.currency m.target = some c
  between : ∀ m ∈ moves, m.source.account ∈ accounts ∧ m.target.account ∈ accounts
  frame : ∀ k, k ∉ accounts → b' k = b k

namespace Bank.Pays

variable {accounts accounts' : List Pubkey} {moves moves' : List (Move Asset)} {b b' b'' : Bank}

theorem refl (accounts : List Pubkey) (b : Bank) : Bank.Pays accounts [] b b where
  funded := trivial
  settled := rfl
  currencies := rfl
  currency := by simp
  between := by simp
  frame _ _ := rfl

theorem mono (h : Bank.Pays accounts moves b b') (hsub : accounts ⊆ accounts') :
    Bank.Pays accounts' moves b b' where
  funded := h.funded
  settled := h.settled
  currencies := h.currencies
  currency := h.currency
  between m hm := (h.between m hm).imp (@hsub _) (@hsub _)
  frame k hk := h.frame k fun hmem => hk (hsub hmem)

theorem trans (h : Bank.Pays accounts moves b b') (h' : Bank.Pays accounts moves' b' b'') :
    Bank.Pays accounts (moves ++ moves') b b'' where
  funded := funded_append.mpr ⟨h.funded, h.settled ▸ h'.funded⟩
  settled := by rw [h'.settled, h.settled, settle_append]
  currencies := h'.currencies.trans h.currencies
  currency m hm := by
    rcases List.mem_append.mp hm with hm | hm
    · exact h.currency m hm
    · rw [← h.currencies]
      exact h'.currency m hm
  between m hm := by
    rcases List.mem_append.mp hm with hm | hm
    · exact h.between m hm
    · exact h'.between m hm
  frame k hk := (h'.frame k hk).trans (h.frame k hk)

end Bank.Pays

section
variable {rt : Runtime} {tx : Tx} {b b' : Bank}

/-- What lies in the data of the program is no balance. -/
theorem Bank.Pays.setContent {moves : List (Move Asset)} (h : Bank.Pays tx.writable moves b b')
    {k : Pubkey} (hk : b'.token? k = none) (hw : k ∈ tx.writable) (d : Bytes) :
    Bank.Pays tx.writable moves b (b'.setContent k (.program d)) := by
  have htoken (x : Pubkey) : (b'.setContent k (.program d)).token? x = b'.token? x := by
    by_cases hx : x = k
    · subst hx
      rw [hk, Bank.token?_of_program (Bank.setContent_content_self _ _ _)]
    · exact Bank.setContent_token? _ _ hx
  refine ⟨h.funded, ?_, ?_, h.currency, h.between, ?_⟩
  · rw [← h.settled]
    funext a
    cases a with
    | tokens x => simp only [Bank.balance, htoken]
    | lamports x => simp only [Bank.balance, Bank.setContent_lamports]
  · rw [← h.currencies]
    funext a
    cases a with
    | tokens x => simp only [Bank.currency, htoken]
    | lamports x => rfl
  · intro x hx
    have hne : x ≠ k := by
      rintro rfl
      exact hx hw
    rw [Bank.setContent_of_ne _ _ hne]
    exact h.frame x hx

/-! ## Transfers -/

variable (hrt : rt.Lawful)
include hrt

private theorem transferLamport_pays {owner recipient : Pubkey} {amount : UInt64}
    {seeds : List (List Bytes)}
    (h : transferLamport rt tx b owner recipient amount seeds = .ok b') :
    Bank.Pays tx.writable [⟨.lamports owner, .lamports recipient, amount.toNat⟩] b b' := by
  obtain ⟨-, hwo, hwr, -, -, hle, rfl⟩ := (transferLamport_eq_ok hrt).mp h
  have htoken (x : Pubkey) :
      (b.moveLamports owner recipient amount.toNat).token? x = b.token? x :=
    Bank.token?_congr (Bank.moveLamports_content _ _ _ _ x)
  have hle' : amount.toNat ≤ b.balance (.lamports owner) := hle
  refine ⟨⟨hle', trivial⟩, ?_, ?_, ?_, ?_, ?_⟩
  · funext a
    cases a with
    | tokens x =>
      simp [Bank.balance, htoken, Move.apply, Move.debit, Move.credit]
    | lamports x =>
      have hx := b.moveLamports_lamports owner recipient hle x
      have hmove := Move.apply_add (m := (⟨.lamports owner, .lamports recipient, amount.toNat⟩ :
        Move Asset)) hle' (.lamports x)
      simp only [Move.debit, Move.credit, Asset.lamports.injEq, Bank.balance] at hmove
      simp only [settle_cons, settle_nil, Bank.balance]
      omega
  · funext a
    cases a with
    | tokens x => simp only [Bank.currency, htoken]
    | lamports x => rfl
  · simp [Bank.currency]
  · simp [Asset.account, hwo, hwr]
  · intro x hx
    have hxo : x ≠ owner := by
      rintro rfl
      exact hx hwo
    have hxr : x ≠ recipient := by
      rintro rfl
      exact hx hwr
    simp [Bank.moveLamports, Bank.set, hxo, hxr]

private theorem process_mint {owner source target : Pubkey} {amount : UInt64}
    (h : rt.process b (tokenTransfer owner source target amount) = some b') (k : Pubkey) :
    (b'.token? k).map TokenAccount.mint = (b.token? k).map TokenAccount.mint := by
  have hev := Transfer.evolves hrt (.tokens source target amount h) k
  unfold Bank.token?
  generalize (b k).content = content at hev
  generalize (b' k).content = content' at hev
  cases hev with
  | refl => rfl
  | token hev => simp [hev.mint]

private theorem transferToken_pays {owner source target : Pubkey} {amount : UInt64}
    {seeds : List (List Bytes)}
    (h : transferToken rt tx b owner source target amount seeds = .ok b') :
    Bank.Pays tx.writable [⟨.tokens source, .tokens target, amount.toNat⟩] b b' := by
  obtain ⟨-, hws, hwt, -, hp⟩ := transferToken_eq_ok.mp h
  obtain ⟨s, t, hs, ht, hmint, -, hle, -⟩ := hrt.token.requires hp
  have hle' : amount.toNat ≤ b.balance (.tokens source) := by
    simpa [Bank.balance, hs] using hle
  refine ⟨⟨hle', trivial⟩, ?_, ?_, ?_, ?_, ?_⟩
  · funext a
    have hmove := Move.apply_add (m := (⟨.tokens source, .tokens target, amount.toNat⟩ :
      Move Asset)) hle' a
    cases a with
    | tokens x =>
      cases hx : b.token? x with
      | some u =>
        obtain ⟨u', hu', hamount, -⟩ := hrt.token.moves hp hx
        simp only [Move.debit, Move.credit, Asset.tokens.injEq] at hmove
        simp only [Bank.balance, hx, hu', Option.map_some, Option.getD_some, settle_cons,
          settle_nil] at hmove ⊢
        omega
      | none =>
        have hxs : x ≠ source := fun he => by simp [he, hs] at hx
        have hxt : x ≠ target := fun he => by simp [he, ht] at hx
        have hframe := hrt.token.frame hp hxs hxt
        rw [settle_untouched (by simp [Ne.symm hxs, Ne.symm hxt])]
        simp only [Bank.balance, Bank.token?, hframe]
    | lamports x =>
      rw [settle_untouched (by simp)]
      exact hrt.token.lamports hp x
  · funext a
    cases a with
    | tokens x =>
      have hx := process_mint hrt hp x
      simpa [Bank.currency, Option.map_map, Function.comp_def] using
        congrArg (Option.map Currency.tokens) hx
    | lamports x => rfl
  · simp [Bank.currency, hs, ht, hmint]
  · simp [Asset.account, hws, hwt]
  · intro x hx
    have hxs : x ≠ source := by
      rintro rfl
      exact hx hws
    have hxt : x ≠ target := by
      rintro rfl
      exact hx hwt
    exact hrt.token.frame hp hxs hxt

/-! ## The steps of an instruction -/

private theorem fund_pays {payer k : Pubkey} {space : Nat} (hpayer : payer ∈ tx.writable)
    (hk : k ∈ tx.writable) (h : fund rt tx b payer k space = .ok b') :
    Bank.Pays tx.writable [rentMove rt b payer k space] b b' := by
  unfold fund at h
  split at h
  · exact transferLamport_pays hrt h
  · rename_i hfunded
    obtain rfl := pure_eq_ok.mp h
    have hzero : (initFunds rt b k space).toNat = 0 := by
      by_contra hne
      exact hfunded (.inr (UInt64.lt_iff_toNat_lt.mpr (Nat.pos_of_ne_zero hne)))
    -- the account holds its rent already, and nothing moves
    refine ⟨?_, ?_, rfl, ?_, ?_, fun _ _ => rfl⟩
    · simp [rentMove, hzero]
    · funext a
      simp [rentMove, hzero, Move.apply, Move.debit, Move.credit]
    · simp [rentMove, Bank.currency]
    · simp [rentMove, Asset.account, hpayer, hk]

private theorem init_pays {payer k : Pubkey} {seeds : List Bytes} {space : Nat} {bump : UInt8}
    (hpayer : payer ∈ tx.writable) (h : init rt tx b payer k seeds space = .ok (b', bump)) :
    Bank.Pays tx.writable [rentMove rt b payer k space] b b' := by
  obtain ⟨-, hk, -, hwallet, -, b₁, hfund, rfl⟩ := (init_eq_ok hrt).mp h
  have hpays := fund_pays hrt hpayer hk hfund
  refine hpays.setContent ?_ hk _
  have hnone : b.currency (.tokens k) = none := by
    simp [Bank.currency, Bank.token?, hwallet]
  rw [← hpays.currencies] at hnone
  exact Option.map_eq_none_iff.mp hnone

theorem payFee_pays {cl : Claim} {s : Schedule} (h : payFee rt tx b s cl.accounts.user
    cl.accounts.remainingAccounts cl.args.sendingAmount = .ok b') :
    Bank.Pays tx.writable (cl.feeMoves s) b b' := by
  rcases payFee_eq_ok.mp h with ⟨hzero, rfl⟩ | ⟨hpos, -, u, hu, ht⟩
  · have hmoves : cl.feeMoves s = [] := by
      unfold Claim.feeMoves
      split <;> simp [hzero]
    rw [hmoves]
    exact .refl tx.writable b'
  · have hmoves : cl.feeMoves s =
        [⟨.tokens u, .tokens s.sendingTokenAccount, cl.args.sendingAmount.toNat⟩] := by
      rw [Claim.feeMoves, hu]
      dsimp only
      rw [if_pos hpos, Schedule.fee_eq hpos]
    rw [hmoves]
    exact transferToken_pays hrt ht

private theorem payOut_pays {cl : Claim} {v : Vault} {s : Schedule}
    (h : cl.payOut rt tx b v s = .ok b') : Bank.Pays tx.writable [cl.payMove s] b b' := by
  unfold Claim.payMove
  rcases Claim.payOut_eq_ok.mp h with ⟨hsys, ht⟩ | ⟨hsys, -, ht⟩
  · rw [if_pos hsys]
    exact transferLamport_pays hrt ht
  · rw [if_neg hsys]
    exact transferToken_pays hrt ht

omit hrt in
theorem Instruction.moves_of_claim? (rt : Runtime) {i : Instruction} {cl : Claim} {s : Schedule}
    (hcl : i.claim? = some cl) (hs : b.schedule? cl.accounts.schedule = some s) :
    i.dues rt b = cl.feeMoves s ∧ i.payouts b = [cl.payMove s] := by
  have hof (moves : Claim → Schedule → List (Move Asset)) : b.ofClaim moves i = moves cl s := by
    simp [Bank.ofClaim, hcl, hs]
  cases i <;> simp only [Instruction.claim?, reduceCtorEq] at hcl <;>
    exact ⟨hof Claim.feeMoves, hof fun cl s => [cl.payMove s]⟩

/-- A handler makes the moves of its instruction, and writes to an account that it may write. -/
private theorem handle_pays {i : Instruction} {o : Outcome} (h : handle rt tx b i = .ok o) :
    Bank.Pays tx.writable (i.moves rt b) b o.bank ∧
      ∀ k val, o.written = some (k, val) → k ∈ tx.writable := by
  cases hi : i.claim? with
  | some cl =>
    obtain ⟨v, s, b₁, b₂, hadm, hfee, hpay, rfl⟩ := (handle_claim_eq_ok hi).mp h
    obtain ⟨hdues, hpayouts⟩ := Instruction.moves_of_claim? rt hi hadm.schedule
    rw [Instruction.moves, hdues, hpayouts]
    refine ⟨(payFee_pays hrt hfee).trans (payOut_pays hrt hpay), ?_⟩
    rintro k val ⟨⟩
    exact hadm.scheduleWritable
  | none =>
    cases i with
    | createVault x vaultPath =>
      obtain ⟨-, hw, -, b₁, bump, p, n, hinit, -, rfl⟩ := (createVault_eq_ok hrt).mp h
      refine ⟨init_pays hrt hw hinit, ?_⟩
      rintro k val ⟨⟩
      exact ((init_eq_ok hrt).mp hinit).2.1
    | createSchedule x a =>
      obtain ⟨v, -, -, hw, -, -, b₁, bump, hinit, rfl⟩ := (createSchedule_eq_ok hrt).mp h
      refine ⟨init_pays hrt hw hinit, ?_⟩
      rintro k val ⟨⟩
      exact ((init_eq_ok hrt).mp hinit).2.1
    | withdrawSol x amount =>
      obtain ⟨v, b', -, -, -, -, -, -, -, -, hpay, rfl⟩ := withdrawSol_eq_ok.mp h
      exact ⟨transferLamport_pays hrt hpay, nofun⟩
    | withdrawToken x amount =>
      obtain ⟨v, b', -, -, -, -, -, -, -, -, hpay, rfl⟩ := withdrawToken_eq_ok.mp h
      exact ⟨transferToken_pays hrt hpay, nofun⟩
    | setVault x admins =>
      obtain ⟨v, -, -, hw, -, rfl⟩ := setVault_eq_ok.mp h
      refine ⟨.refl tx.writable b, ?_⟩
      rintro k val ⟨⟩
      exact hw
    | setScheduleStatus x isActive =>
      obtain ⟨v, s, -, -, -, -, hw, -, -, -, rfl⟩ := setScheduleStatus_eq_ok.mp h
      refine ⟨.refl tx.writable b, ?_⟩
      rintro k val ⟨⟩
      exact hw
    | transferOwnership x newOwner =>
      obtain ⟨v, -, -, hw, -, rfl⟩ := transferOwnership_eq_ok.mp h
      refine ⟨.refl tx.writable b, ?_⟩
      rintro k val ⟨⟩
      exact hw
    | acceptOwnership x =>
      obtain ⟨v, -, -, hw, -, rfl⟩ := acceptOwnership_eq_ok.mp h
      refine ⟨.refl tx.writable b, ?_⟩
      rintro k val ⟨⟩
      exact hw
    | redeemToken x a => simp [Instruction.claim?] at hi
    | redeemTokenMulti x a => simp [Instruction.claim?] at hi

/-- A step makes the moves of its instruction and no others. -/
theorem step_pays {c : Call} (h : step rt b c = .ok b') :
    Bank.Pays c.writable (c.instruction.moves rt b) b b' := by
  obtain ⟨⟨bank, w⟩, hh, hexit⟩ := step_eq_ok_iff.mp h
  obtain ⟨hpays, hwritten⟩ := handle_pays hrt hh
  cases w with
  | none =>
    rw [exit_none.mp hexit]
    exact hpays
  | some kv =>
    obtain ⟨k, val⟩ := kv
    obtain ⟨d, d', hd, -, rfl⟩ := exit_some.mp hexit
    exact hpays.setContent (Bank.token?_of_program hd) (hwritten k val rfl) d'

end

end Coin98Vault

import Coin98Vault.Framework.Ledger
import Coin98Vault.Program.Steps

/-!
# The bank as a ledger

Tokens and lamports as the balances of one ledger.  Transfers by the owner of an account are
its moves, and leave everything else of the bank as it is.
-/

namespace Coin98Vault

open Ledger

/-- What a balance is kept of. -/
inductive Asset where
  | tokens (account : Pubkey)
  | lamports (account : Pubkey)
  deriving DecidableEq

namespace Bank

def balance (b : Bank) : Asset → Nat
  | .tokens k => ((b.token? k).map TokenAccount.amount).getD 0
  | .lamports k => (b k).lamports

/-- The bank with other balances in its accounts. -/
def withBalances (b : Bank) (balance : Asset → Nat) : Bank := fun k =>
  { lamports := balance (.lamports k)
    content := match (b k).content with
      | .token t => .token { t with amount := balance (.tokens k) }
      | content => content }

variable {b : Bank} {balance : Asset → Nat} {k : Pubkey}

theorem withBalances_content (h : b.token? k = none) :
    (b.withBalances balance k).content = (b k).content := by
  have hcontent : (b.withBalances balance k).content = match (b k).content with
      | .token t => .token { t with amount := balance (.tokens k) }
      | content => content := rfl
  rw [hcontent]
  cases hk : (b k).content with
  | token t => simp [token?, hk] at h
  | _ => rfl

theorem withBalances_token? : (b.withBalances balance).token? k =
    (b.token? k).map fun t => { t with amount := balance (.tokens k) } := by
  unfold token? withBalances
  dsimp only
  cases (b k).content <;> rfl

theorem withBalances_read {α : Type} {l : Layout α} :
    (b.withBalances balance).read l k = b.read l k := by
  unfold read withBalances
  dsimp only
  cases (b k).content <;> rfl

theorem withBalances_wallet (h : (b k).content = .wallet) :
    (b.withBalances balance k).content = .wallet := by
  simp only [withBalances, h]

private theorem withBalances_multisig (h : (b k).content ≠ .multisig) :
    (b.withBalances balance k).content ≠ .multisig := by
  unfold withBalances
  dsimp only
  split
  · simp
  · exact h

@[simp] theorem withBalances_balance (b : Bank) : b.withBalances b.balance = b := by
  funext k
  unfold withBalances Bank.balance
  cases hk : b k with
  | mk lamports content =>
    cases content <;> simp [token?, hk]

/-- Data of the program is no balance. -/
theorem withBalances_setContent (d : Bytes) :
    (b.withBalances balance).setContent k (.program d) =
      (b.setContent k (.program d)).withBalances balance := by
  funext x
  unfold withBalances setContent set
  dsimp only
  split
  · rename_i hx
    subst hx
    rfl
  · rfl

theorem moveLamports_withBalances (source target : Pubkey) (n : Nat) :
    (b.withBalances balance).moveLamports source target n =
      b.withBalances (Move.apply ⟨.lamports source, .lamports target, n⟩ balance) := by
  funext k
  unfold moveLamports set withBalances Move.apply Move.debit Move.credit
  dsimp only
  simp only [Asset.lamports.injEq, reduceCtorEq, if_false, Nat.sub_zero, Nat.add_zero]
  by_cases ht : k = target
  · by_cases hs : k = source
    · subst hs; subst ht; simp
    · subst ht; simp [hs]
  · by_cases hs : k = source
    · subst hs; simp [ht]
    · simp [hs, ht]

private theorem eq_withBalances {b' : Bank}
    (hlamports : ∀ k, (b' k).lamports = balance (.lamports k))
    (htokens : ∀ k t, b.token? k = some t →
      b'.token? k = some { t with amount := balance (.tokens k) })
    (hothers : ∀ k, b.token? k = none → (b' k).content = (b k).content) :
    b' = b.withBalances balance := by
  funext k
  have hcontent : (b' k).content = (b.withBalances balance k).content := by
    cases hk : b.token? k with
    | some t =>
      have ht : (b.withBalances balance).token? k = some { t with amount := balance (.tokens k) } := by
        rw [withBalances_token?, hk]
        rfl
      rw [token?_eq_some.mp (htokens k t hk), token?_eq_some.mp ht]
    | none => rw [hothers k hk, withBalances_content hk]
  have hlam : (b' k).lamports = (b.withBalances balance k).lamports := hlamports k
  cases h : b' k with
  | mk lamports content =>
    rw [h] at hcontent hlam
    dsimp only at hcontent hlam
    rw [hcontent, hlam]

/-! ## Transfers as moves -/

/-- A live token account of the mint. -/
def Live (b : Bank) (mint k : Pubkey) : Prop :=
  ∃ t, b.token? k = some t ∧ t.mint = mint ∧ t.state = .initialized

/-- A live token account that the key debits as its owner. -/
def LiveOf (b : Bank) (mint owner k : Pubkey) : Prop :=
  ∃ t, b.token? k = some t ∧ t.mint = mint ∧ t.state = .initialized ∧ t.owner = owner ∧
    t.delegate ≠ some owner

end Bank

section
variable {rt : Runtime} (hrt : rt.Lawful) {b : Bank} {balance : Asset → Nat}
include hrt

/-- A transfer by the owner of an account is a move of the ledger. -/
theorem process_withBalances {mint owner source target : Pubkey} {amount : UInt64}
    (hsource : b.LiveOf mint owner source) (htarget : b.Live mint target)
    (howner : (b owner).content ≠ .multisig) (hle : amount.toNat ≤ balance (.tokens source)) :
    rt.process (b.withBalances balance) (tokenTransfer owner source target amount) =
      some (b.withBalances
        (Move.apply ⟨.tokens source, .tokens target, amount.toNat⟩ balance)) := by
  obtain ⟨s, hs, hsmint, hsstate, hso, hdelegate⟩ := hsource
  obtain ⟨t, ht, htmint, htstate⟩ := htarget
  have htoken {k : Pubkey} {u : TokenAccount} (hu : b.token? k = some u) :
      (b.withBalances balance).token? k = some { u with amount := balance (.tokens k) } := by
    rw [Bank.withBalances_token?, hu]
    rfl
  obtain ⟨b', hp⟩ := hrt.token.accepts (htoken hs) (htoken ht) (hsmint.trans htmint.symm)
    (.inr ⟨hdelegate, hso⟩) hle hsstate htstate (Bank.withBalances_multisig howner)
  rw [hp, Option.some.injEq]
  apply Bank.eq_withBalances
  · intro k
    rw [hrt.token.lamports hp k]
    simp [Bank.withBalances, Move.apply, Move.debit, Move.credit]
  · intro k u hu
    obtain ⟨u', hu', hamount, -, -, -, -, hsame⟩ := hrt.token.moves hp (htoken hu)
    -- the owner is not the delegate, so that only the amount changes
    have hdirect : u' = { u with amount := u'.amount } := by
      rcases hsame with ⟨rfl, hd⟩ | hsame
      · obtain rfl := Option.some.inj (hs.symm.trans hu)
        exact absurd hd hdelegate
      · exact hsame
    have hnew : u'.amount =
        Move.apply ⟨.tokens source, .tokens target, amount.toNat⟩ balance (.tokens k) := by
      unfold Move.apply Move.debit Move.credit
      simp only [Asset.tokens.injEq]
      dsimp only at hamount
      by_cases hks : k = source
      · subst hks
        rw [if_pos rfl] at hamount ⊢
        omega
      · rw [if_neg hks] at hamount ⊢
        omega
    rw [hu', hdirect, hnew]
  · intro k hk
    have hks : k ≠ source := by
      rintro rfl
      rw [hs] at hk
      cases hk
    have hkt : k ≠ target := by
      rintro rfl
      rw [ht] at hk
      cases hk
    rw [hrt.token.frame hp hks hkt, Bank.withBalances_content hk]

end

/-! ## Claims as moves -/

def Claim.feeMoves (cl : Claim) (s : Schedule) : List (Move Asset) :=
  match cl.accounts.remainingAccounts[1]? with
  | some userToken1 =>
    if 0 < s.fee cl.args.sendingAmount then
      [⟨.tokens userToken1, .tokens s.sendingTokenAccount, s.fee cl.args.sendingAmount⟩]
    else []
  | none => []

def Claim.payMove (cl : Claim) (s : Schedule) : Move Asset :=
  if cl.paidMint s = systemProgramId then
    ⟨.lamports cl.accounts.vaultSigner, .lamports cl.accounts.user, cl.args.receivingAmount.toNat⟩
  else
    ⟨.tokens cl.accounts.vaultToken0, .tokens cl.accounts.userToken0,
      cl.args.receivingAmount.toNat⟩

def Claim.moves (cl : Claim) (s : Schedule) : List (Move Asset) := cl.feeMoves s ++ [cl.payMove s]

/-- The accounts of a fee, where one is charged: the user pays from an account of its own. -/
def Claim.FeeFits (cl : Claim) (tx : Tx) (b : Bank) (s : Schedule) : Prop :=
  0 < s.fee cl.args.sendingAmount → ∃ mint userToken1,
    cl.accounts.remainingAccounts[0]? = some s.sendingTokenAccount ∧
    cl.accounts.remainingAccounts[1]? = some userToken1 ∧
    s.sendingTokenAccount ∈ tx.writable ∧ userToken1 ∈ tx.writable ∧
    b.LiveOf mint cl.accounts.user userToken1 ∧ b.Live mint s.sendingTokenAccount ∧
    (b cl.accounts.user).content ≠ .multisig

/-- A fee that is covered is paid. -/
theorem Claim.FeeFits.payFee {rt : Runtime} (hrt : rt.Lawful) {cl : Claim} {tx : Tx} {b : Bank}
    {s : Schedule} {balance : Asset → Nat} (h : cl.FeeFits tx b s)
    (huser : cl.accounts.user ∈ tx.signers) (hcovers : Covers balance (cl.feeMoves s)) :
    payFee rt tx (b.withBalances balance) s cl.accounts.user cl.accounts.remainingAccounts
      cl.args.sendingAmount = .ok (b.withBalances (settle (cl.feeMoves s) balance)) := by
  rw [payFee_eq_ok]
  by_cases hpos : 0 < s.fee cl.args.sendingAmount
  · right
    obtain ⟨mint, u, h₀, h₁, hw₀, hw₁, hfrom, hto, hmulti⟩ := h hpos
    have hmoves : cl.feeMoves s =
        [⟨.tokens u, .tokens s.sendingTokenAccount, cl.args.sendingAmount.toNat⟩] := by
      rw [Claim.feeMoves, h₁]
      dsimp only
      rw [if_pos hpos, Schedule.fee_eq hpos]
    rw [hmoves] at hcovers ⊢
    refine ⟨hpos, h₀, u, h₁, transferToken_eq_ok.mpr ⟨by simp, hw₁, hw₀, .inl huser, ?_⟩⟩
    exact process_withBalances hrt hfrom hto hmulti hcovers.head
  · left
    have hmoves : cl.feeMoves s = [] := by
      unfold Claim.feeMoves
      split <;> simp [hpos]
    rw [hmoves]
    exact ⟨by omega, rfl⟩

end Coin98Vault

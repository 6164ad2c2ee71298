import Coin98Vault.Program.Accounting
import Coin98Vault.Properties.ClientActions
import Coin98Vault.Properties.Settlement
import Coin98Vault.Services.Reference

/-!
# The treasury as a cash book

Withdrawals sent with the client, by whomever and in whatever order, do to a vault what they do to
a cash book: those of its owner and admins are entered if the account they draw on pays for them.
-/

namespace Coin98Vault

open Trace Ledger

instance (v : Vault) (k : Pubkey) : Decidable (v.IsAdmin k) :=
  inferInstanceAs (Decidable (k = v.owner ∨ k ∈ v.admins))

/-- Balances do not matter to what the program stores. -/
theorem Bank.WellFormed.withBalances {rt : Runtime} {b : Bank} (hb : b.WellFormed rt)
    (balance : Asset → Nat) : (b.withBalances balance).WellFormed rt := by
  constructor
  · intro k v hv
    rw [Bank.vault?, Bank.withBalances_read] at hv
    exact hb.signerNonce k v hv
  · intro k s hs
    rw [Bank.schedule?, Bank.withBalances_read] at hs
    exact hb.address k s hs
  · intro k s hs
    rw [Bank.schedule?, Bank.withBalances_read] at hs
    exact hb.merkleRoot k s hs
  · intro k s hs
    rw [Bank.schedule?, Bank.withBalances_read] at hs
    obtain ⟨v, hv⟩ := hb.vaultId k s hs
    refine ⟨v, ?_⟩
    rw [Bank.vault?, Bank.withBalances_read]
    exact hv

namespace Client

/-- A withdrawal that is sent with the client: of tokens from the sender, or of lamports. -/
structure Withdrawal where
  payer : Pubkey
  sender : Option Pubkey
  recipient : Pubkey
  amount : UInt64
  unixTimestamp : Int64

namespace Withdrawal

def send (rt : Runtime) (packages : Packages) (connection : Connection) (vault : Pubkey) (b : Bank)
    (w : Withdrawal) : Option Bank :=
  let ix := match w.sender with
    | some sender => VaultService.withdrawToken rt packages connection b w.payer vault sender
        w.recipient w.amount rt.programId
    | none => VaultService.withdrawSol rt packages connection b w.payer vault w.recipient w.amount
        rt.programId
  ix.bind (deliver rt b w.payer w.unixTimestamp)

def move (vaultSigner : Pubkey) (w : Withdrawal) : Move Asset :=
  match w.sender with
  | some sender => ⟨.tokens sender, .tokens w.recipient, w.amount.toNat⟩
  | none => ⟨.lamports vaultSigner, .lamports w.recipient, w.amount.toNat⟩

/-- What is asked of the accounts of a withdrawal: none that it writes is reserved, and tokens go
from a live account of the signer to one of the same mint. -/
structure Sound (rt : Runtime) (b : Bank) (vaultSigner : Pubkey) (w : Withdrawal) : Prop where
  unreserved : rt.CanWrite [w.payer, w.sender.getD vaultSigner, w.recipient]
  tokens : ∀ sender, w.sender = some sender →
    ∃ mint, b.LiveOf mint vaultSigner sender ∧ b.Live mint w.recipient

end Withdrawal

/-- A list of withdrawals.  One that fails leaves the bank as it is. -/
def withdrawals (rt : Runtime) (packages : Packages) (connection : Connection) (vault : Pubkey)
    (b : Bank) (ws : List Withdrawal) : Bank :=
  ws.foldl (fun b w => (w.send rt packages connection vault b).getD b) b

/-- The entries of the cash book: what those have ordered who may. -/
def cashBook (v : Vault) (vaultSigner : Pubkey) (ws : List Withdrawal) : List (Move Asset) :=
  (ws.filter fun w => v.IsAdmin w.payer).map (Withdrawal.move vaultSigner)

section
variable {rt : Runtime} (hrt : rt.Lawful) {packages : Packages} (hp : packages.Lawful rt)
  {connection : Connection} (hc : connection.Lawful rt) {b : Bank} (hb : b.WellFormed rt)
  {vault p : Pubkey} {v : Vault} (hv : b.vault? vault = some v)
  (hseeds : rt.createProgramAddress (signerSeeds vault v) = some p)
  (hwallet : (b p).content = .wallet)
include hrt hp hc hb hv hseeds hwallet

/-- One withdrawal, whatever the balances have become. -/
theorem Withdrawal.send_eq_some {w : Withdrawal} (hsound : w.Sound rt b p) (balance : Asset → Nat)
    {b' : Bank} :
    w.send rt packages connection vault (b.withBalances balance) = some b' ↔
      v.IsAdmin w.payer ∧ (w.move p).amount ≤ balance (w.move p).source ∧
        b' = b.withBalances ((w.move p).apply balance) := by
  have hwf := hb.withBalances balance
  have hvault : (b.withBalances balance).vault? vault = some v := by
    rw [Bank.vault?, Bank.withBalances_read]
    exact hv
  cases hsender : w.sender with
  | none =>
    simp only [Withdrawal.send, Withdrawal.move, hsender]
    have hkeys := hsound.unreserved
    rw [hsender, Option.getD_none] at hkeys
    rw [withdrawSol_accepted hrt hp hc hwf hvault hseeds (Bank.withBalances_wallet hwallet),
      Bank.moveLamports_withBalances, and_iff_right hkeys]
    rfl
  | some sender =>
    obtain ⟨mint, hsource, htarget⟩ := hsound.tokens sender hsender
    have hkeys := hsound.unreserved
    rw [hsender, Option.getD_some] at hkeys
    simp only [Withdrawal.send, Withdrawal.move, hsender]
    rw [withdrawToken_accepted hp hc hwf hvault hseeds, and_iff_right hkeys]
    have hmulti : (b p).content ≠ .multisig := by simp [hwallet]
    constructor
    · intro h
      obtain ⟨hadmin, hprocess⟩ := h
      obtain ⟨s, -, hs, -, -, -, hle, -⟩ := hrt.token.requires hprocess
      have hpaid : w.amount.toNat ≤ balance (.tokens sender) := by
        obtain ⟨t, ht, -⟩ := hsource
        rw [Bank.withBalances_token?, ht, Option.map_some, Option.some.injEq] at hs
        subst hs
        exact hle
      rw [process_withBalances hrt hsource htarget hmulti hpaid, Option.some.injEq] at hprocess
      exact ⟨hadmin, hpaid, hprocess.symm⟩
    · intro h
      obtain ⟨hadmin, hle, rfl⟩ := h
      exact ⟨hadmin, process_withBalances hrt hsource htarget hmulti hle⟩

private theorem withdrawals_withBalances {ws : List Withdrawal} (hsound : ∀ w ∈ ws, w.Sound rt b p)
    (balance : Asset → Nat) :
    withdrawals rt packages connection vault (b.withBalances balance) ws =
      b.withBalances (attemptAll (cashBook v p ws) balance) := by
  induction ws generalizing balance with
  | nil => rfl
  | cons w ws ih =>
    have hsend := @Withdrawal.send_eq_some rt hrt packages hp connection hc b hb vault p v hv hseeds
      hwallet w (hsound w List.mem_cons_self) balance
    have hrest := ih fun u hu => hsound u (List.mem_cons_of_mem _ hu)
    have hentry : attemptAll (cashBook v p (w :: ws)) balance =
        attemptAll (cashBook v p ws)
          (if v.IsAdmin w.payer then (w.move p).attempt balance else balance) := by
      by_cases hadmin : v.IsAdmin w.payer
      · simp [cashBook, hadmin]
      · simp [cashBook, hadmin]
    have hone : (w.send rt packages connection vault (b.withBalances balance)).getD
        (b.withBalances balance) = b.withBalances
          (if v.IsAdmin w.payer then (w.move p).attempt balance else balance) := by
      cases hw : w.send rt packages connection vault (b.withBalances balance) with
      | some b' =>
        obtain ⟨hadmin, hle, rfl⟩ := hsend.mp hw
        rw [if_pos hadmin, Move.attempt, if_pos hle]
        rfl
      | none =>
        have hrefused : ¬ (v.IsAdmin w.payer ∧ (w.move p).amount ≤ balance (w.move p).source) := by
          intro h
          cases hw.symm.trans (hsend.mpr ⟨h.1, h.2, rfl⟩)
        by_cases hadmin : v.IsAdmin w.payer
        · rw [if_pos hadmin, Move.attempt, if_neg fun hle => hrefused ⟨hadmin, hle⟩]
          rfl
        · rw [if_neg hadmin]
          rfl
    rw [hentry, ← hrest, ← hone]
    rfl

end

namespace Reference

open Coin98Vault.Reference

private theorem deployed_run : run (step runtime) genesis [openVault, openSchedule] = deployed := by
  rw [run_cons, exec_ok openVault_ok, run_cons, exec_ok openSchedule_ok, run_nil]

private theorem deployed_run_vault? :
    (run (step runtime) genesis [openVault, openSchedule]).vault? vault =
    some ⟨.vault, 255, owner, systemProgramId, []⟩ := by
  rw [deployed_run]
  exact deployed_vault?

private theorem deployed_seeds : runtime.createProgramAddress
    (signerSeeds vault ⟨.vault, 255, owner, systemProgramId, []⟩) = some vaultSigner := by
  decide +kernel

/-- Tokens of the vault's account, to a holder. -/
def tokensTo (payer : Pubkey) (amount : UInt64) : Withdrawal :=
  ⟨payer, some vaultToken, userToken, amount, 6⟩

private theorem tokensTo_sound {payer : Pubkey} (hpayer : runtime.reserved payer = false)
    (amount : UInt64) : (tokensTo payer amount).Sound runtime deployed vaultSigner where
  unreserved := by
    have hkeys : runtime.CanWrite [vaultToken, userToken] := by decide +kernel
    intro k hk
    rcases List.mem_cons.mp hk with rfl | hk
    · exact hpayer
    · exact hkeys k hk
  tokens := by
    intro sender hsender
    obtain rfl := Option.some.inj hsender
    exact ⟨mint, deployed_tokens.1, deployed_tokens.2.1⟩

end Reference

/-- The treasury refines a cash book.  After any run, a list of sound withdrawals sent with the
client, by whomever, leaves the bank with the balances that the cash book ends with; and the program
accepts each of them if and only if its sender may draw on the vault and the book, as it then is,
covers it. -/
theorem treasury_refines_cash_book {rt : Runtime} (hrt : rt.Lawful) {packages : Packages}
    (hp : packages.Lawful rt) {connection : Connection} (hc : connection.Lawful rt) {b₀ : Bank}
    (hempty : ∀ k d, (b₀ k).content ≠ .program d) (calls : List Call) {vault p : Pubkey} {v : Vault}
    (hv : (run (step rt) b₀ calls).vault? vault = some v)
    (hseeds : rt.createProgramAddress (signerSeeds vault v) = some p)
    (hwallet : (b₀ p).content = .wallet)
    (hsha : CollisionFree rt.sha256 (rt.derivation (signerSeeds vault v) ::
      calls.filterMap fun c => createdString rt c.instruction))
    {ws : List Withdrawal} (hsound : ∀ w ∈ ws, w.Sound rt (run (step rt) b₀ calls) p) :
    let b := run (step rt) b₀ calls
    withdrawals rt packages connection vault b ws =
        b.withBalances (attemptAll (cashBook v p ws) b.balance) ∧
      ∀ before w after, ws = before ++ w :: after →
        ((∃ b', w.send rt packages connection vault
            (withdrawals rt packages connection vault b before) = some b') ↔
          v.IsAdmin w.payer ∧
            (w.move p).amount ≤ attemptAll (cashBook v p before) b.balance (w.move p).source) := by
  intro b
  have hb : b.WellFormed rt := wellFormed_run hrt (wellFormed_of_unused hempty) calls
  have hnow : (b p).content = .wallet := signer_wallet hrt hseeds hwallet hsha
  have hbook (us : List Withdrawal) (hus : ∀ w ∈ us, w.Sound rt b p) :
      withdrawals rt packages connection vault b us =
        b.withBalances (attemptAll (cashBook v p us) b.balance) := by
    have h := withdrawals_withBalances hrt hp hc hb hv hseeds hnow hus b.balance
    rw [Bank.withBalances_balance] at h
    exact h
  refine ⟨hbook ws hsound, ?_⟩
  intro before w after hws
  subst hws
  rw [hbook before fun u hu => hsound u (by simp [hu])]
  have hsend (b' : Bank) := @Withdrawal.send_eq_some rt hrt packages hp connection hc b hb vault p v
    hv hseeds hnow w (hsound w (by simp)) (attemptAll (cashBook v p before) b.balance) b'
  constructor
  · intro h
    obtain ⟨b', hb'⟩ := h
    obtain ⟨hadmin, hle, -⟩ := (hsend b').mp hb'
    exact ⟨hadmin, hle⟩
  · intro h
    exact ⟨_, (hsend _).mpr ⟨h.1, h.2, rfl⟩⟩

open Coin98Vault.Reference Reference in
/-- A stranger takes nothing away, the owner all; what comes then is too late. -/
theorem treasury_refines_cash_book_deployed :
    let after := withdrawals runtime packages connection vault
      (run (step runtime) genesis [openVault, openSchedule])
    let sent := fun w b => ∃ b', Withdrawal.send runtime packages connection vault b w = some b'
    sent (tokensTo owner 50) (after [tokensTo user 10]) ∧
      ¬ sent (tokensTo owner 1) (after [tokensTo user 10, tokensTo owner 50]) := by
  intro after sent
  have hsound : ∀ w ∈ [tokensTo user 10, tokensTo owner 50, tokensTo owner 1],
      w.Sound runtime (run (step runtime) genesis [openVault, openSchedule]) vaultSigner := by
    have howner : runtime.reserved owner = false := by decide +kernel
    have huser : runtime.reserved user = false := by decide +kernel
    rw [deployed_run]
    simp [tokensTo_sound, howner, huser]
  obtain ⟨-, hsent⟩ := treasury_refines_cash_book runtime_lawful packages_lawful connection_lawful
    genesis_unused [openVault, openSchedule] deployed_run_vault? deployed_seeds (by decide +kernel)
    (by decide +kernel) hsound
  constructor
  · exact (hsent [tokensTo user 10] _ _ rfl).mpr (by decide +kernel)
  · intro h
    exact absurd ((hsent [tokensTo user 10, tokensTo owner 50] _ [] rfl).mp h) (by decide +kernel)

/-- After any run, whoever may draw on the vault can empty it with the client: sound withdrawals of
all that there is, from different accounts to accounts elsewhere, come to one and the same bank in
whatever order they are sent.  The accounts are empty there, and the recipients have it all. -/
theorem treasury_emptied {rt : Runtime} (hrt : rt.Lawful) {packages : Packages}
    (hp : packages.Lawful rt) {connection : Connection} (hc : connection.Lawful rt) {b₀ : Bank}
    (hempty : ∀ k d, (b₀ k).content ≠ .program d) (calls : List Call) {vault p : Pubkey} {v : Vault}
    (hv : (run (step rt) b₀ calls).vault? vault = some v)
    (hseeds : rt.createProgramAddress (signerSeeds vault v) = some p)
    (hwallet : (b₀ p).content = .wallet)
    (hsha : CollisionFree rt.sha256 (rt.derivation (signerSeeds vault v) ::
      calls.filterMap fun c => createdString rt c.instruction))
    {ws : List Withdrawal} (hsound : ∀ w ∈ ws, w.Sound rt (run (step rt) b₀ calls) p)
    (hadmin : ∀ w ∈ ws, v.IsAdmin w.payer)
    (hempties : Empties (run (step rt) b₀ calls).balance (ws.map (Withdrawal.move p))) :
    let b := run (step rt) b₀ calls
    let moves := ws.map (Withdrawal.move p)
    ∃ balance : Asset → Nat,
      (∀ order, order.Perm ws →
        withdrawals rt packages connection vault b order = b.withBalances balance) ∧
      (∀ m ∈ moves, balance m.source = 0) ∧
      ∀ k, balance k + debits moves k = b.balance k + credits moves k := by
  intro b moves
  have hb : b.WellFormed rt := wellFormed_run hrt (wellFormed_of_unused hempty) calls
  have hnow : (b p).content = .wallet := signer_wallet hrt hseeds hwallet hsha
  refine ⟨settle moves b.balance, ?_, fun m hm => hempties.settle_source hm,
    hempties.covers.settle_add⟩
  intro order hperm
  have hbook : cashBook v p order = order.map (Withdrawal.move p) := by
    rw [cashBook, List.filter_eq_self.mpr]
    intro w hw
    exact decide_eq_true (hadmin w (hperm.mem_iff.mp hw))
  have hmoves : moves.Perm (order.map (Withdrawal.move p)) := (hperm.map _).symm
  have h := withdrawals_withBalances hrt hp hc hb hv hseeds hnow
    (fun w hw => hsound w (hperm.mem_iff.mp hw)) b.balance
  rw [Bank.withBalances_balance, hbook, (hempties.perm hmoves).covers.funded.attemptAll_eq,
    ← hempties.covers.settle_perm hmoves] at h
  exact h

open Coin98Vault.Reference Reference in
theorem treasury_emptied_deployed :
    ∃ balance : Asset → Nat, balance (.tokens vaultToken) = 0 ∧ balance (.lamports vaultSigner) = 0 ∧
      withdrawals runtime packages connection vault
          (run (step runtime) genesis [openVault, openSchedule])
          [⟨owner, none, user, 1000, 6⟩, tokensTo owner 50] =
        (run (step runtime) genesis [openVault, openSchedule]).withBalances balance := by
  have hsound : ∀ w ∈ [tokensTo owner 50, ⟨owner, none, user, 1000, 6⟩],
      w.Sound runtime (run (step runtime) genesis [openVault, openSchedule]) vaultSigner := by
    rw [deployed_run]
    intro w hw
    rcases List.mem_pair.mp hw with rfl | rfl
    · exact tokensTo_sound (by decide +kernel) 50
    · refine ⟨by decide +kernel, ?_⟩
      intro sender hsender
      cases hsender
  have hempties : Empties (run (step runtime) genesis [openVault, openSchedule]).balance
      ([tokensTo owner 50, ⟨owner, none, user, 1000, 6⟩].map (Withdrawal.move vaultSigner)) := by
    rw [deployed_run]
    exact ⟨by decide +kernel, by decide +kernel, by decide +kernel⟩
  obtain ⟨balance, hall, hzero, -⟩ := treasury_emptied runtime_lawful packages_lawful
    connection_lawful genesis_unused [openVault, openSchedule] deployed_run_vault? deployed_seeds
    (by decide +kernel) (by decide +kernel) hsound (by decide) hempties
  exact ⟨balance, hzero _ List.mem_cons_self, hzero _ (List.mem_cons_of_mem _ List.mem_cons_self),
    hall _ (List.Perm.swap ..)⟩

end Client

end Coin98Vault

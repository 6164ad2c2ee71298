import Coin98Vault.Program.Lifecycle
import Coin98Vault.Program.MerkleProof
import Coin98Vault.Program.Reference
import Coin98Vault.Program.Settlement

/-!
# Every claim can be redeemed, in any order

The claims on a schedule are a batch of moves in the ledger of the bank.  When the balances
pay for the whole batch, no order of the claims fails and no order shows in the result.
-/

namespace Coin98Vault

open Trace Ledger

/-- The accounts that a claim is made with are those that context and handler ask for, and
tokens are debited by the owners of their accounts. -/
structure Claim.Fits (cl : Claim) (rt : Runtime) (tx : Tx) (b : Bank) (v : Vault) (s : Schedule) :
    Prop where
  type : s.objType = cl.objType
  link : s.vaultId = cl.accounts.vault
  vault : b.vault? cl.accounts.vault = some v
  vaultSigner :
    rt.createProgramAddress (signerSeeds cl.accounts.vault v) = some cl.accounts.vaultSigner
  user : cl.accounts.user ∈ tx.signers
  scheduleWritable : cl.accounts.schedule ∈ tx.writable
  vaultToken0Writable : cl.accounts.vaultToken0 ∈ tx.writable
  userToken0Writable : cl.accounts.userToken0 ∈ tx.writable
  tokenProgram : cl.accounts.tokenProgram = tokenProgramId
  systemProgram : cl.accounts.systemProgram = systemProgramId
  pinned : cl.mint = none → cl.accounts.vaultToken0 = s.receivingTokenAccount
  fee : cl.FeeFits tx b s
  lamports : cl.paidMint s = systemProgramId →
    cl.accounts.vaultSigner ∈ tx.writable ∧ cl.accounts.user ∈ tx.writable ∧
    (b cl.accounts.vaultSigner).content = .wallet
  tokens : cl.paidMint s ≠ systemProgramId → ∃ mint, (∀ m, cl.mint = some m → m = mint) ∧
    b.LiveOf mint cl.accounts.vaultSigner cl.accounts.vaultToken0 ∧
    b.Live mint cl.accounts.userToken0 ∧ (b cl.accounts.vaultSigner).content ≠ .multisig

/-- A claim that is due: it redeems a record of the tree, after its time. -/
structure Claim.Due (cl : Claim) (rt : Runtime) (tx : Tx) (b : Bank) (v : Vault) (s : Schedule)
    (t : Merkle.Tree Record) (k : Pubkey) : Prop extends Claim.Fits cl rt tx b v s where
  target : cl.accounts.schedule = k
  unlocked : cl.unlockTime s.timestamp ≤ tx.unixTimestamp
  proves : ∃ position, t.leafAt position = some (cl.record s.timestamp) ∧
    cl.args.proofs = t.siblings (redemptionScheme rt) position

section
variable {rt : Runtime} {b b₁ : Bank} {k : Pubkey} {s : Schedule} {bits bits' : List Bool}

theorem Bank.LiveOf.store {a : Schedule} {mint owner x : Pubkey} (h : b.LiveOf mint owner x)
    (hb : store Schedule.layout b k a = .ok b₁) : b₁.LiveOf mint owner x := by
  obtain ⟨t, ht, hrest⟩ := h
  exact ⟨t, (store_others hb x).1.trans ht, hrest⟩

theorem Bank.Live.store {a : Schedule} {mint x : Pubkey} (h : b.Live mint x)
    (hb : store Schedule.layout b k a = .ok b₁) : b₁.Live mint x := by
  obtain ⟨t, ht, hrest⟩ := h
  exact ⟨t, (store_others hb x).1.trans ht, hrest⟩

/-- The accounts of a claim still fit when bits of the schedule have changed. -/
theorem Claim.Fits.store {cl : Claim} {tx : Tx} {v : Vault} {a : Schedule}
    (h : cl.Fits rt tx b v s) (hs : b.schedule? k = some s)
    (hb : store Schedule.layout b k a = .ok b₁) : cl.Fits rt tx b₁ v s where
  type := h.type
  link := h.link
  vault := by
    have hne : cl.accounts.vault ≠ k := by
      rintro rfl
      have hv := h.vault
      rw [Bank.vault?_eq_none hs] at hv
      cases hv
    have hsame := (store_others hb cl.accounts.vault).2.1 hne
    exact (Bank.read_congr (congrArg Account.content hsame)).trans h.vault
  vaultSigner := h.vaultSigner
  user := h.user
  scheduleWritable := h.scheduleWritable
  vaultToken0Writable := h.vaultToken0Writable
  userToken0Writable := h.userToken0Writable
  tokenProgram := h.tokenProgram
  systemProgram := h.systemProgram
  pinned := h.pinned
  fee hpos := by
    obtain ⟨mint, u, h₀, h₁, hw₀, hw₁, hfrom, hto, hmulti⟩ := h.fee hpos
    exact ⟨mint, u, h₀, h₁, hw₀, hw₁, hfrom.store hb, hto.store hb,
      (store_others hb _).2.2.1 hmulti⟩
  lamports hsys := by
    obtain ⟨hw₀, hw₁, hwallet⟩ := h.lamports hsys
    exact ⟨hw₀, hw₁, (store_others hb _).2.2.2 hwallet⟩
  tokens hsys := by
    obtain ⟨mint, hm, hfrom, hto, hmulti⟩ := h.tokens hsys
    exact ⟨mint, hm, hfrom.store hb, hto.store hb, (store_others hb _).2.2.1 hmulti⟩

/-! ## One claim -/

section
variable (hrt : rt.Lawful) {cl : Claim} {tx : Tx} {v : Vault} {balance : Asset → Nat}
include hrt

theorem Claim.Fits.payOut (h : cl.Fits rt tx b v s) (hcovers : Covers balance [cl.payMove s]) :
    cl.payOut rt tx (b.withBalances balance) v s =
      .ok (b.withBalances (settle [cl.payMove s] balance)) := by
  have hsign : MaySign rt tx [signerSeeds cl.accounts.vault v] cl.accounts.vaultSigner :=
    .inr ⟨_, List.mem_singleton_self _, h.vaultSigner⟩
  have hseeds : ∀ seeds ∈ [signerSeeds cl.accounts.vault v],
      ∃ k, rt.createProgramAddress seeds = some k := by
    intro seeds hseeds
    obtain rfl := List.mem_singleton.mp hseeds
    exact ⟨_, h.vaultSigner⟩
  rw [Claim.payOut_eq_ok]
  by_cases hsys : cl.paidMint s = systemProgramId
  · left
    have hmove : cl.payMove s = ⟨.lamports cl.accounts.vaultSigner, .lamports cl.accounts.user,
        cl.args.receivingAmount.toNat⟩ := if_pos hsys
    rw [hmove] at hcovers ⊢
    obtain ⟨hw₀, hw₁, hwallet⟩ := h.lamports hsys
    refine ⟨hsys, (transferLamport_eq_ok hrt).mpr ⟨hseeds, hw₀, hw₁, hsign,
      Bank.withBalances_wallet hwallet, hcovers.head, ?_⟩⟩
    rw [Bank.moveLamports_withBalances]
    rfl
  · right
    have hmove : cl.payMove s = ⟨.tokens cl.accounts.vaultToken0, .tokens cl.accounts.userToken0,
        cl.args.receivingAmount.toNat⟩ := if_neg hsys
    rw [hmove] at hcovers ⊢
    obtain ⟨mint, hm, hfrom, hto, hmulti⟩ := h.tokens hsys
    refine ⟨hsys, ?_, transferToken_eq_ok.mpr ⟨hseeds, h.vaultToken0Writable,
      h.userToken0Writable, hsign, process_withBalances hrt hfrom hto hmulti hcovers.head⟩⟩
    intro m hmint
    obtain rfl := hm m hmint
    obtain ⟨t₀, ht₀, hm₀, -⟩ := hfrom
    obtain ⟨t₁, ht₁, hm₁, -⟩ := hto
    have hunpack {k : Pubkey} {t : TokenAccount} (ht : b.token? k = some t) :
        unpackTokenAccount (b.withBalances balance) k =
          some { t with amount := balance (.tokens k) } := by
      apply unpackTokenAccount_of_token?
      rw [Bank.withBalances_token?, ht]
      rfl
    exact ⟨_, _, hunpack ht₀, hunpack ht₁, hm₀, hm₁⟩

omit hrt in
/-- From its time on, a claim whose accounts fit and whose record is proved is admitted on every bank
that differs in balances and in other bits only. -/
theorem Claim.Fits.admitted (h : cl.Fits rt tx b v s) (htarget : cl.accounts.schedule = k)
    (hunlocked : cl.unlockTime s.timestamp ≤ tx.unixTimestamp) (hactive : s.isActive = true)
    (hs : b.schedule? k = some s)
    (hseeds : rt.createProgramAddress [scheduleSeed1, deriveEventId s.eventId, [s.nonce]] = some k)
    (hb : Coin98Vault.store Schedule.layout b k (s.marked bits) = .ok b₁)
    (hproves : (s.marked bits).Proves rt cl.args.index (cl.record s.timestamp).tryToVec
      cl.args.proofs) :
    cl.Admitted rt tx (b₁.withBalances balance) v (s.marked bits) where
  vault := by
    rw [Bank.vault?, Bank.withBalances_read]
    exact (h.store hs hb).vault
  schedule := by
    obtain ⟨d, d', -, hwrite, rfl⟩ := store_eq_ok.mp hb
    rw [htarget, Bank.schedule?, Bank.withBalances_read, Bank.read, Bank.setContent_content_self]
    exact Layout.read_of_write hwrite
  scheduleWritable := h.scheduleWritable
  scheduleSeeds := by
    rw [htarget]
    exact hseeds
  link := h.link
  vaultSigner := h.vaultSigner
  vaultToken0Writable := h.vaultToken0Writable
  user := h.user
  userToken0Writable := h.userToken0Writable
  tokenProgram := h.tokenProgram
  systemProgram := h.systemProgram
  pinned := h.pinned
  type := h.type
  active := hactive
  unlocked := hunlocked
  proves := hproves

omit hrt in
theorem Claim.feeMoves_length (cl : Claim) : (cl.feeMoves s).length ≤ 1 := by
  unfold Claim.feeMoves
  split
  · split <;> simp
  · simp

/-- An admitted claim whose moves are paid for, one after the other, succeeds: it makes its moves
and sets its bit. -/
theorem Claim.Fits.step (h : cl.Fits rt tx b v s) (htarget : cl.accounts.schedule = k)
    (hs : b.schedule? k = some s) (hlen : bits.length = s.redemptions.length)
    (hb : Coin98Vault.store Schedule.layout b k (s.marked bits) = .ok b₁)
    (hadmitted : cl.Admitted rt tx (b₁.withBalances balance) v (s.marked bits))
    (hfunded : Funded balance (cl.moves s)) :
    ∃ b₂, Coin98Vault.store Schedule.layout b k (s.marked (bits.set cl.args.index.toNat true)) =
        .ok b₂ ∧
      Coin98Vault.step rt (b₁.withBalances balance) ⟨tx, cl.instruction⟩ =
        .ok (b₂.withBalances (settle (cl.moves s) balance)) := by
  have hfits : cl.Fits rt tx b₁ v s := h.store hs hb
  obtain ⟨hfeeFunded, hpayFunded⟩ := funded_append.mp hfunded
  have hfee := hfits.fee.payFee hrt hfits.user (hfeeFunded.covers cl.feeMoves_length)
  have hpay := hfits.payOut hrt (hpayFunded.covers le_rfl)
  rw [← settle_append] at hpay
  -- the new bits are written over the old ones
  have hlen₂ : (bits.set cl.args.index.toNat true).length = s.redemptions.length := by
    rw [List.length_set, hlen]
  obtain ⟨b₂, hb₂⟩ := store_marked hs hlen₂
  refine ⟨b₂, hb₂, step_eq_ok_iff.mpr ⟨_, (handle_claim_eq_ok cl.claim?_instruction).mpr
    ⟨v, s.marked bits, _, _, hadmitted, hfee, hpay, rfl⟩, ?_⟩⟩
  rw [← store_store (List.length_set).symm hb] at hb₂
  obtain ⟨e, e', he, hwrite', rfl⟩ := store_eq_ok.mp hb₂
  have hexit : (b₁.withBalances (settle (cl.moves s) balance) cl.accounts.schedule).content =
      .program e := by
    rw [htarget, Bank.withBalances_content (Bank.token?_of_program he), he]
  refine exit_some.mpr ⟨e, e', hexit, hwrite', ?_⟩
  rw [htarget, Bank.withBalances_setContent]
  rfl

omit hrt in
private theorem Claim.Due.proves_marked {t : Merkle.Tree Record} (h : cl.Due rt tx b v s t k)
    (hroot : s.merkleRoot = (t.root (redemptionScheme rt)).bytes)
    (hbit : bits[cl.args.index.toNat]? = some false) :
    (s.marked bits).Proves rt cl.args.index (cl.record s.timestamp).tryToVec cl.args.proofs := by
  obtain ⟨position, hat, hproofs⟩ := h.proves
  have hlen : s.merkleRoot.length = 32 := by rw [hroot, Bytes32.length_bytes]
  have hsame : (⟨s.merkleRoot, hlen⟩ : Hash) = t.root (redemptionScheme rt) :=
    Bytes32.bytes_injective hroot
  refine ⟨hlen, ?_, hbit⟩
  show Shared.verifyProof rt _ ⟨s.merkleRoot, hlen⟩ _ = true
  rw [hsame, Shared.verifyProof_eq_true, hproofs]
  exact Merkle.climb_siblings _ hat

omit hrt in
/-- A due claim is admitted on every bank that differs in balances and in other bits only. -/
theorem Claim.Due.admitted {t : Merkle.Tree Record} (h : cl.Due rt tx b v s t k)
    (hroot : s.merkleRoot = (t.root (redemptionScheme rt)).bytes) (hactive : s.isActive = true)
    (hs : b.schedule? k = some s)
    (hseeds : rt.createProgramAddress [scheduleSeed1, deriveEventId s.eventId, [s.nonce]] = some k)
    (hb : store Schedule.layout b k (s.marked bits) = .ok b₁)
    (hbit : bits[cl.args.index.toNat]? = some false) :
    cl.Admitted rt tx (b₁.withBalances balance) v (s.marked bits) :=
  h.toFits.admitted h.target h.unlocked hactive hs hseeds hb (h.proves_marked hroot hbit)

/-- A due claim whose bit is open and whose moves are covered succeeds: it makes its moves and
sets its bit. -/
theorem Claim.Due.step {t : Merkle.Tree Record} (h : cl.Due rt tx b v s t k)
    (hroot : s.merkleRoot = (t.root (redemptionScheme rt)).bytes) (hactive : s.isActive = true)
    (hs : b.schedule? k = some s)
    (hseeds : rt.createProgramAddress [scheduleSeed1, deriveEventId s.eventId, [s.nonce]] = some k)
    (hlen : bits.length = s.redemptions.length)
    (hb : store Schedule.layout b k (s.marked bits) = .ok b₁)
    (hbit : bits[cl.args.index.toNat]? = some false) (hcovers : Covers balance (cl.moves s)) :
    ∃ b₂, store Schedule.layout b k (s.marked (bits.set cl.args.index.toNat true)) = .ok b₂ ∧
      step rt (b₁.withBalances balance) ⟨tx, cl.instruction⟩ =
        .ok (b₂.withBalances (settle (cl.moves s) balance)) :=
  h.toFits.step hrt h.target hs hlen hb (h.admitted hroot hactive hs hseeds hb hbit) hcovers.funded

/-! ## Batches of claims -/

/-- The bits after a batch of claims. -/
def markAll (claims : List (Tx × Claim)) (bits : List Bool) : List Bool :=
  claims.foldl (fun bits c => bits.set c.2.args.index.toNat true) bits

/-- The moves of a batch of claims. -/
def movesOf (s : Schedule) (claims : List (Tx × Claim)) : List (Move Asset) :=
  claims.flatMap fun c => c.2.moves s

def callsOf (claims : List (Tx × Claim)) : List Call :=
  claims.map fun c => ⟨c.1, c.2.instruction⟩

omit hrt in
theorem markAll_perm {claims order : List (Tx × Claim)} (h : order.Perm claims) :
    markAll order bits = markAll claims bits := by
  have hcomm : RightCommutative fun (bits : List Bool) (c : Tx × Claim) =>
      bits.set c.2.args.index.toNat true := by
    constructor
    intro bits c c'
    by_cases he : c.2.args.index.toNat = c'.2.args.index.toNat
    · rw [he]
    · rw [List.set_comm _ _ he]
  exact h.foldl_eq bits

omit hrt in
theorem markAll_getElem? {claims : List (Tx × Claim)} (n : Nat) :
    (markAll claims bits)[n]? = some true ↔
      bits[n]? = some true ∨ (n < bits.length ∧ ∃ c ∈ claims, c.2.args.index.toNat = n) := by
  induction claims generalizing bits with
  | nil => simp [markAll]
  | cons c claims ih =>
    have hcons : markAll (c :: claims) bits =
        markAll claims (bits.set c.2.args.index.toNat true) := rfl
    rw [hcons, ih, List.length_set, List.getElem?_set]
    by_cases he : c.2.args.index.toNat = n
    · by_cases hlt : n < bits.length
      · simp [he, hlt]
      · simp [he, hlt]
    · simp [he]

/-- Due claims of different indexes succeed one after the other, whatever their order. -/
private theorem claims_run {t : Merkle.Tree Record}
    (hroot : s.merkleRoot = (t.root (redemptionScheme rt)).bytes) (hactive : s.isActive = true)
    (hs : b.schedule? k = some s)
    (hseeds : rt.createProgramAddress [scheduleSeed1, deriveEventId s.eventId, [s.nonce]] = some k)
    {claims : List (Tx × Claim)} (hdue : ∀ c ∈ claims, c.2.Due rt c.1 b v s t k)
    (hlen : bits.length = s.redemptions.length)
    (hb : store Schedule.layout b k (s.marked bits) = .ok b₁)
    (hindex : (claims.map fun c => c.2.args.index).Nodup)
    (hbits : ∀ c ∈ claims, bits[c.2.args.index.toNat]? = some false)
    (hcovers : Covers balance (movesOf s claims)) :
    AllSucceed (step rt) (b₁.withBalances balance) (callsOf claims) ∧
      ∃ b₂, store Schedule.layout b k (s.marked (markAll claims bits)) = .ok b₂ ∧
        run (step rt) (b₁.withBalances balance) (callsOf claims) =
          b₂.withBalances (settle (movesOf s claims) balance) := by
  induction claims generalizing b₁ bits balance with
  | nil => exact ⟨allSucceed_nil _, b₁, hb, rfl⟩
  | cons c claims ih =>
    rw [List.map_cons, List.nodup_cons] at hindex
    have hmoves : movesOf s (c :: claims) = c.2.moves s ++ movesOf s claims := List.flatMap_cons
    have hcalls : callsOf (c :: claims) = ⟨c.1, c.2.instruction⟩ :: callsOf claims := rfl
    rw [hmoves] at hcovers
    obtain ⟨b₂, hb₂, hstep⟩ := (hdue c List.mem_cons_self).step hrt hroot hactive hs hseeds hlen hb
      (hbits c List.mem_cons_self) hcovers.of_append_left
    have hrest : ∀ c' ∈ claims,
        (bits.set c.2.args.index.toNat true)[c'.2.args.index.toNat]? = some false := by
      intro c' hc'
      have hne : c.2.args.index.toNat ≠ c'.2.args.index.toNat := by
        intro he
        apply hindex.1
        rw [UInt16.toNat_inj.mp he]
        exact List.mem_map_of_mem hc'
      rw [List.getElem?_set_ne hne]
      exact hbits c' (List.mem_cons_of_mem _ hc')
    obtain ⟨hall, b₃, hb₃, hrun⟩ := ih (fun c' hc' => hdue c' (List.mem_cons_of_mem _ hc'))
      (by rw [List.length_set, hlen]) hb₂ hindex.2 hrest hcovers.of_append_right
    refine ⟨AllSucceed.cons hstep hall, b₃, hb₃, ?_⟩
    rw [hcalls, run_cons, exec_ok hstep, hrun, hmoves, settle_append]

private theorem claims_run_perm {t : Merkle.Tree Record}
    (hroot : s.merkleRoot = (t.root (redemptionScheme rt)).bytes) (hactive : s.isActive = true)
    (hs : b.schedule? k = some s)
    (hseeds : rt.createProgramAddress [scheduleSeed1, deriveEventId s.eventId, [s.nonce]] = some k)
    {claims order : List (Tx × Claim)} (hdue : ∀ c ∈ claims, c.2.Due rt c.1 b v s t k)
    (hindex : (claims.map fun c => c.2.args.index).Nodup)
    (hbits : ∀ c ∈ claims, s.redemptions[c.2.args.index.toNat]? = some false)
    (hcovers : Covers b.balance (movesOf s claims)) (hp : order.Perm claims) :
    AllSucceed (step rt) b (callsOf order) ∧
      ∃ b₂, store Schedule.layout b k (s.marked (markAll claims s.redemptions)) = .ok b₂ ∧
        run (step rt) b (callsOf order) =
          b₂.withBalances (settle (movesOf s claims) b.balance) := by
  have hmoves : (movesOf s order).Perm (movesOf s claims) := hp.flatMap_right _
  have hdue' : ∀ c ∈ order, c.2.Due rt c.1 b v s t k := by
    intro c hc
    exact hdue c (hp.mem_iff.mp hc)
  have hbits' : ∀ c ∈ order, s.redemptions[c.2.args.index.toNat]? = some false := by
    intro c hc
    exact hbits c (hp.mem_iff.mp hc)
  have hindex' : (order.map fun c => c.2.args.index).Nodup := (hp.map _).nodup_iff.mpr hindex
  have hcovers' : Covers b.balance (movesOf s order) := hcovers.perm hmoves.symm
  have h := claims_run hrt hroot hactive hs hseeds hdue' rfl (store_self hs) hindex' hbits' hcovers'
  rw [Bank.withBalances_balance, markAll_perm hp, hcovers'.settle_perm hmoves] at h
  exact h

end

/-! ## Coverage

Payouts leave accounts of the vault's signer and fees leave accounts of the users, so that each
can be counted alone. -/

section
variable {v : Vault} {claims : List (Tx × Claim)}

theorem feeMoves_source {cl : Claim} {tx : Tx} (h : cl.Fits rt tx b v s) {m : Move Asset}
    (hm : m ∈ cl.feeMoves s) :
    ∃ u t, m.source = .tokens u ∧ b.token? u = some t ∧ t.owner = cl.accounts.user := by
  unfold Claim.feeMoves at hm
  split at hm
  · rename_i u hu
    split at hm
    · rename_i hpos
      obtain ⟨mint, u', -, hu', -, -, ⟨t, ht, -, -, howner, -⟩, -⟩ := h.fee hpos
      obtain rfl := Option.some.inj (hu.symm.trans hu')
      obtain rfl := List.mem_singleton.mp hm
      exact ⟨u, t, rfl, ht, howner⟩
    · cases hm
  · cases hm

private theorem payMove_source {cl : Claim} {tx : Tx} (h : cl.Fits rt tx b v s) {u : Pubkey}
    (hm : (cl.payMove s).source = .tokens u) :
    ∃ t, b.token? u = some t ∧ t.owner = cl.accounts.vaultSigner := by
  unfold Claim.payMove at hm
  split at hm
  · cases hm
  · rename_i hsys
    obtain ⟨mint, -, ⟨t, ht, -, -, howner, -⟩, -⟩ := h.tokens hsys
    cases hm
    exact ⟨t, ht, howner⟩

private theorem movesOf_covered (hfits : ∀ c ∈ claims, c.2.Fits rt c.1 b v s)
    (husers : ∀ c ∈ claims, ¬ rt.IsDerived c.2.accounts.user)
    (hfees : Covers b.balance (claims.flatMap fun c => c.2.feeMoves s))
    (hpayouts : Covers b.balance (claims.flatMap fun c => [c.2.payMove s])) :
    Covers b.balance (movesOf s claims) := by
  intro asset
  have hsplit : debits (movesOf s claims) asset =
      debits (claims.flatMap fun c => c.2.feeMoves s) asset +
        debits (claims.flatMap fun c => [c.2.payMove s]) asset := by
    rw [← debits_append]
    exact debits_perm (List.flatMap_append_perm _ _ _).symm asset
  have hfee := hfees asset
  have hpay := hpayouts asset
  by_cases hany : ∃ m ∈ claims.flatMap fun c => c.2.feeMoves s, m.source = asset
  · obtain ⟨m, hm, rfl⟩ := hany
    obtain ⟨c, hc, hm⟩ := List.mem_flatMap.mp hm
    obtain ⟨u, t, hsource, ht, howner⟩ := feeMoves_source (hfits c hc) hm
    -- the user owns this account, so that no payout comes from it
    have hnone : debits (claims.flatMap fun c => [c.2.payMove s]) m.source = 0 := by
      apply debits_eq_zero
      intro m' hm' he
      obtain ⟨c', hc', hm'⟩ := List.mem_flatMap.mp hm'
      obtain rfl := List.mem_singleton.mp hm'
      obtain ⟨t', ht', howner'⟩ := payMove_source (hfits c' hc') (he.trans hsource)
      obtain rfl := Option.some.inj (ht.symm.trans ht')
      apply husers c hc
      rw [← howner, howner']
      exact ⟨_, (hfits c' hc').vaultSigner⟩
    omega
  · have hnone : debits (claims.flatMap fun c => c.2.feeMoves s) asset = 0 := by
      apply debits_eq_zero
      intro m hm he
      exact hany ⟨m, hm, he⟩
    omega

end

end

/-- Claims that are due, of different indexes, and paid for by the balances: in every order all
of them succeed, with the same result.  It sets their bits and moves their fees and payouts. -/
theorem redemption_any_order {rt : Runtime} (hrt : rt.Lawful) {b₀ b₁ b : Bank} {create : Call}
    {x : CreateScheduleContext} {a : CreateScheduleArgs}
    (hcall : create.instruction = .createSchedule x a) (hcreate : step rt b₀ create = .ok b₁)
    (t : Merkle.Tree Record) (hroot : a.merkleRoot = t.root (redemptionScheme rt))
    {history : List Call} {s : Schedule} {v : Vault}
    (hhistory : (run (step rt) b₁ history).schedule? x.schedule = some s)
    (hs : b.schedule? x.schedule = some s) (hactive : s.isActive = true)
    {claims : List (Tx × Claim)} (hdue : ∀ c ∈ claims, c.2.Due rt c.1 b v s t x.schedule)
    (husers : ∀ c ∈ claims, ¬ rt.IsDerived c.2.accounts.user)
    (hindex : (claims.map fun c => c.2.args.index).Nodup)
    (hcount : ∀ c ∈ claims, c.2.args.index < a.userCount)
    (hopen : ∀ c ∈ claims, s.redemptions[c.2.args.index.toNat]? ≠ some true)
    (hfees : Covers b.balance (claims.flatMap fun c => c.2.feeMoves s))
    (hpayouts : Covers b.balance (claims.flatMap fun c => [c.2.payMove s])) :
    ∃ f bits, (∀ order, order.Perm claims → AllSucceed (step rt) b (callsOf order) ∧
        run (step rt) b (callsOf order) = f) ∧
      f.schedule? x.schedule = some (s.marked bits) ∧
      (∀ n, bits[n]? = some true ↔
        s.redemptions[n]? = some true ∨ ∃ c ∈ claims, c.2.args.index.toNat = n) ∧
      (∀ k u, b.token? k = some u → ∃ n, f.token? k = some { u with amount := n } ∧
        n + debits (movesOf s claims) (.tokens k) =
          u.amount + credits (movesOf s claims) (.tokens k)) ∧
      (∀ k, (f k).lamports + debits (movesOf s claims) (.lamports k) =
        (b k).lamports + credits (movesOf s claims) (.lamports k)) ∧
      (∀ k, k ≠ x.schedule → b.token? k = none → (f k).content = (b k).content) := by
  obtain ⟨hlength, hmerkle, hseeds⟩ := schedule_of_createSchedule hrt hcall hcreate hhistory
  rw [hroot] at hmerkle
  have hlt : ∀ c ∈ claims, c.2.args.index.toNat < s.redemptions.length := by
    intro c hc
    rw [hlength]
    exact UInt16.lt_iff_toNat_lt.mp (hcount c hc)
  have hbits : ∀ c ∈ claims, s.redemptions[c.2.args.index.toNat]? = some false := by
    intro c hc
    have hne := hopen c hc
    cases hbit : s.redemptions[c.2.args.index.toNat]? with
    | none =>
      have hle := List.getElem?_eq_none_iff.mp hbit
      have hlt := hlt c hc
      omega
    | some bit =>
      cases bit with
      | false => rfl
      | true => exact absurd hbit hne
  have hcovers := movesOf_covered (fun c hc => (hdue c hc).toFits) husers hfees hpayouts
  have hrun {order : List (Tx × Claim)} (hp : order.Perm claims) :=
    claims_run_perm hrt hmerkle hactive hs hseeds hdue hindex hbits hcovers hp
  obtain ⟨-, b₂, hb₂, -⟩ := hrun (List.Perm.refl claims)
  obtain ⟨d, d', hd, hwrite, rfl⟩ := store_eq_ok.mp hb₂
  refine ⟨(b.setContent x.schedule (.program d')).withBalances
      (settle (movesOf s claims) b.balance),
    markAll claims s.redemptions, ?_, ?_, ?_, ?_, ?_, ?_⟩
  · intro order hp
    obtain ⟨hall, b₃, hb₃, hrun⟩ := hrun hp
    obtain rfl := Except.ok.inj (hb₂.symm.trans hb₃)
    exact ⟨hall, hrun⟩
  · rw [Bank.schedule?, Bank.withBalances_read, Bank.read, Bank.setContent_content_self]
    exact Layout.read_of_write hwrite
  · intro n
    rw [markAll_getElem?]
    apply or_congr Iff.rfl
    constructor
    · exact fun h => h.2
    · rintro ⟨c, hc, rfl⟩
      exact ⟨hlt c hc, c, hc, rfl⟩
  · intro k u hu
    refine ⟨settle (movesOf s claims) b.balance (.tokens k), ?_, ?_⟩
    · rw [Bank.withBalances_token?, (store_others hb₂ k).1, hu]
      rfl
    · have hk := hcovers.settle_add (.tokens k)
      rw [hk]
      simp [Bank.balance, hu]
  · intro k
    exact hcovers.settle_add (.lamports k)
  · intro k hk htok
    rw [Bank.withBalances_content ((store_others hb₂ k).1.trans htok),
      (store_others hb₂ k).2.1 hk]

namespace Reference

theorem deployed_vault? : deployed.vault? vault = some
    ⟨.vault, 255, owner, systemProgramId, []⟩ := by
  decide +kernel

theorem deployed_schedule? :
    deployed.schedule? schedule = some (scheduleArgs.schedule vault 255) := by
  decide +kernel

/-- The accounts that both records are paid from and to. -/
theorem deployed_tokens : deployed.LiveOf mint vaultSigner vaultToken ∧
    deployed.Live mint userToken ∧ (deployed vaultSigner).content ≠ .multisig := by
  refine ⟨?_, ?_, by decide +kernel⟩
  · exact ⟨⟨mint, vaultSigner, 50, none, .initialized, none, 0, none⟩, by decide +kernel, rfl, rfl,
      rfl, by decide⟩
  · exact ⟨⟨mint, user, 5, none, .initialized, none, 0, none⟩, by decide +kernel, rfl, rfl⟩

theorem firstClaim_due : firstClaim.Due runtime redeemFirst.toTx deployed
    ⟨.vault, 255, owner, systemProgramId, []⟩ (scheduleArgs.schedule vault 255) records schedule where
  type := by decide +kernel
  link := by decide +kernel
  vault := deployed_vault?
  vaultSigner := by decide +kernel
  user := by decide +kernel
  scheduleWritable := by decide +kernel
  vaultToken0Writable := by decide +kernel
  userToken0Writable := by decide +kernel
  tokenProgram := by decide +kernel
  systemProgram := by decide +kernel
  pinned := by decide +kernel
  fee := fun _ => ⟨feeMint, userFee, rfl, rfl, by decide +kernel, by decide +kernel,
    ⟨⟨feeMint, user, 9, none, .initialized, none, 0, none⟩, by decide +kernel, rfl, rfl, rfl,
      by decide⟩,
    ⟨⟨feeMint, owner, 0, none, .initialized, none, 0, none⟩, by decide +kernel, rfl, rfl⟩,
    by decide +kernel⟩
  lamports := by decide +kernel
  tokens := fun _ => ⟨mint, nofun, deployed_tokens⟩
  target := rfl
  unlocked := by decide +kernel
  proves := ⟨[false], by decide +kernel, rfl⟩

private theorem secondClaim_due : secondClaim.Due runtime redeemSecond.toTx deployed
    ⟨.vault, 255, owner, systemProgramId, []⟩ (scheduleArgs.schedule vault 255) records schedule where
  type := by decide +kernel
  link := by decide +kernel
  vault := deployed_vault?
  vaultSigner := by decide +kernel
  user := by decide +kernel
  scheduleWritable := by decide +kernel
  vaultToken0Writable := by decide +kernel
  userToken0Writable := by decide +kernel
  tokenProgram := by decide +kernel
  systemProgram := by decide +kernel
  pinned := by decide +kernel
  fee := by
    intro hpos
    exact absurd hpos (by decide +kernel)
  lamports := by decide +kernel
  tokens := fun _ => ⟨mint, nofun, deployed_tokens⟩
  target := rfl
  unlocked := by decide +kernel
  proves := ⟨[true], by decide +kernel, rfl⟩

end Reference

open Reference in
theorem redemption_any_order_deployed :
    let first := [redeemFirst, redeemSecond]
    let second := [redeemSecond, redeemFirst]
    AllSucceed (step runtime) deployed first ∧ AllSucceed (step runtime) deployed second ∧
      run (step runtime) deployed first = run (step runtime) deployed second := by
  have hdue : ∀ c ∈ [(redeemFirst.toTx, firstClaim), (redeemSecond.toTx, secondClaim)],
      c.2.Due runtime c.1 deployed ⟨.vault, 255, owner, systemProgramId, []⟩
        (scheduleArgs.schedule vault 255) records schedule := by
    simp only [List.forall_mem_cons, List.not_mem_nil, false_implies, implies_true, and_true]
    exact ⟨firstClaim_due, secondClaim_due⟩
  have husers : ∀ c ∈ [(redeemFirst.toTx, firstClaim), (redeemSecond.toTx, secondClaim)],
      ¬ runtime.IsDerived c.2.accounts.user := by
    simp only [List.forall_mem_cons, List.not_mem_nil, false_implies, implies_true, and_true]
    exact ⟨not_isDerived (by decide), not_isDerived (by decide)⟩
  have hhistory : (run (step runtime) deployed []).schedule? schedule =
      some (scheduleArgs.schedule vault 255) := deployed_schedule?
  obtain ⟨f, bits, horder, -⟩ := redemption_any_order runtime_lawful
    (show openSchedule.instruction = _ from rfl) openSchedule_ok records rfl hhistory
    deployed_schedule? rfl hdue husers (by decide +kernel) (by decide +kernel) (by decide +kernel)
    (by decide +kernel) (by decide +kernel)
  obtain ⟨hall, hrun⟩ := horder _ (List.Perm.refl _)
  obtain ⟨hall', hrun'⟩ := horder [(redeemSecond.toTx, secondClaim), (redeemFirst.toTx, firstClaim)]
    (List.Perm.swap _ _ _)
  exact ⟨hall, hall', hrun.trans hrun'.symm⟩

end Coin98Vault

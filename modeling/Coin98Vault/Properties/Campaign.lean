import Coin98Vault.Program.Accounting
import Coin98Vault.Properties.MultiTokenClient
import Coin98Vault.Properties.Settlement
import Coin98Vault.Properties.Tickets

/-!
# Redemptions of tickets with the client

Attempts to redeem tickets in any order, also too early and repeatedly.  The bank they lead to
depends on the set of tickets that are tried in time only.
-/

namespace Coin98Vault.Client

open Trace Ledger

/-! ## What has been paid -/

section
variable (b : Bank) (s : Schedule) (schedule vaultSigner : Pubkey)

/-- The claims of tickets.  When they are made does not matter to what they move and mark. -/
def entries (tickets : List Ticket) : List (Tx × Claim) :=
  tickets.map fun t => (t.tx s schedule vaultSigner 0, t.claim s schedule vaultSigner)

/-- The bank `b'` is `b` with these tickets paid: their bits are set and their moves made. -/
def Paid (tickets : List Ticket) (b' : Bank) : Prop :=
  ∃ b₁, store Schedule.layout b schedule
      (s.marked (markAll (entries s schedule vaultSigner tickets) s.redemptions)) = .ok b₁ ∧
    b' = b₁.withBalances (settle (movesOf s (entries s schedule vaultSigner tickets)) b.balance)

end

section
variable {b b' : Bank} {s : Schedule} {v : Vault} {schedule vaultSigner : Pubkey} {t : Ticket}
  {tickets done : List Ticket} {unixTimestamp : Int64}

private theorem markAll_length (claims : List (Tx × Claim)) (bits : List Bool) :
    (markAll claims bits).length = bits.length := by
  induction claims generalizing bits with
  | nil => rfl
  | cons c claims ih =>
    show (markAll claims (bits.set c.2.args.index.toNat true)).length = bits.length
    rw [ih, List.length_set]

private theorem movesOf_entries : movesOf s (entries s schedule vaultSigner tickets) =
    tickets.flatMap fun t => (t.claim s schedule vaultSigner).moves s :=
  List.flatMap_map _ _ _

private theorem movesOf_concat : movesOf s (entries s schedule vaultSigner (done ++ [t])) =
    movesOf s (entries s schedule vaultSigner done) ++ (t.claim s schedule vaultSigner).moves s := by
  simp [movesOf_entries]

private theorem markAll_entries {n : Nat} (hopen : s.redemptions[n]? = some false) :
    (markAll (entries s schedule vaultSigner tickets) s.redemptions)[n]? =
      some (decide (∃ t ∈ tickets, t.args.index.toNat = n)) := by
  have hlt : n < s.redemptions.length := (List.getElem?_eq_some_iff.mp hopen).1
  have hlength := markAll_length (entries s schedule vaultSigner tickets) s.redemptions
  have htrue := @markAll_getElem? s.redemptions (entries s schedule vaultSigner tickets) n
  have hclaims : (∃ c ∈ entries s schedule vaultSigner tickets, c.2.args.index.toNat = n) ↔
      ∃ t ∈ tickets, t.args.index.toNat = n := by
    simp [entries, Ticket.claim]
  rw [hopen, hclaims] at htrue
  have hget := List.getElem?_eq_getElem (hlength ▸ hlt :
    n < (markAll (entries s schedule vaultSigner tickets) s.redemptions).length)
  rw [hget] at htrue ⊢
  simp only [Option.some.injEq, Bool.false_eq_true, false_or, hlt, true_and] at htrue ⊢
  rw [Bool.eq_iff_iff, htrue, decide_eq_true_iff]

private theorem markAll_entries_paid (ht : t ∈ done) :
    (markAll (entries s schedule vaultSigner done) s.redemptions)[t.args.index.toNat]? ≠
      some false := by
  intro hbit
  have hlt : t.args.index.toNat < s.redemptions.length := by
    rw [← markAll_length (entries s schedule vaultSigner done) s.redemptions]
    exact (List.getElem?_eq_some_iff.mp hbit).1
  have hentry : (t.tx s schedule vaultSigner 0, t.claim s schedule vaultSigner) ∈
      entries s schedule vaultSigner done := List.mem_map_of_mem ht
  have hset := (markAll_getElem? t.args.index.toNat).mpr (.inr ⟨hlt, _, hentry, rfl⟩)
  cases hbit.symm.trans hset

theorem paid_nil (hs : b.schedule? schedule = some s) :
    Paid b s schedule vaultSigner [] b :=
  ⟨b, store_self hs, (b.withBalances_balance).symm⟩

private theorem entries_perm (hperm : done.Perm tickets) :
    (entries s schedule vaultSigner done).Perm (entries s schedule vaultSigner tickets) :=
  hperm.map _

/-- In which order tickets have been paid does not show. -/
theorem Paid.perm (h : Paid b s schedule vaultSigner done b') (hperm : done.Perm tickets)
    (hcovers : Covers b.balance (movesOf s (entries s schedule vaultSigner tickets))) :
    Paid b s schedule vaultSigner tickets b' := by
  obtain ⟨b₁, hb₁, rfl⟩ := h
  have hentries : (entries s schedule vaultSigner done).Perm
      (entries s schedule vaultSigner tickets) := entries_perm hperm
  have hmoves : (movesOf s (entries s schedule vaultSigner done)).Perm
      (movesOf s (entries s schedule vaultSigner tickets)) := hentries.flatMap_right _
  refine ⟨b₁, ?_, ?_⟩
  · rw [← markAll_perm hentries]
    exact hb₁
  · rw [(hcovers.perm hmoves.symm).settle_perm hmoves]

private theorem Paid.unique {b'' : Bank} (h : Paid b s schedule vaultSigner tickets b')
    (h' : Paid b s schedule vaultSigner tickets b'') : b' = b'' := by
  obtain ⟨b₁, hb₁, rfl⟩ := h
  obtain ⟨b₂, hb₂, rfl⟩ := h'
  rw [Except.ok.inj (hb₁.symm.trans hb₂)]

private theorem covers_of_subset (hnodup : done.Nodup) (hsub : done ⊆ tickets)
    (hcovers : Covers b.balance (movesOf s (entries s schedule vaultSigner tickets))) :
    Covers b.balance (movesOf s (entries s schedule vaultSigner done)) := by
  obtain ⟨part, hpart, hsublist⟩ := List.subperm_of_subset hnodup hsub
  obtain ⟨rest, hrest⟩ := hsublist.exists_perm_append
  have hentries : (entries s schedule vaultSigner tickets).Perm
      (entries s schedule vaultSigner (done ++ rest)) :=
    entries_perm (hrest.trans (hpart.append_right rest))
  have hsplit := hcovers.perm (hentries.flatMap_right _)
  rw [entries, List.map_append, List.flatMap_append] at hsplit
  exact hsplit.of_append_left

/-- Paying tickets leaves the rest of the schedule and the vaults as they are. -/
theorem Paid.schedule? (h : Paid b s schedule vaultSigner done b') :
    b'.schedule? schedule =
      some (s.marked (markAll (entries s schedule vaultSigner done) s.redemptions)) := by
  obtain ⟨b₁, hb₁, rfl⟩ := h
  obtain ⟨d, d', -, hwrite, rfl⟩ := store_eq_ok.mp hb₁
  rw [Bank.schedule?, Bank.withBalances_read, Bank.read, Bank.setContent_content_self]
  exact Layout.read_of_write hwrite

theorem Paid.vault? (h : Paid b s schedule vaultSigner done b')
    (hs : b.schedule? schedule = some s) {k : Pubkey} (hv : b.vault? k = some v) :
    b'.vault? k = some v := by
  obtain ⟨b₁, hb₁, rfl⟩ := h
  have hne : k ≠ schedule := by
    intro he
    rw [he, Bank.vault?_eq_none hs] at hv
    cases hv
  rw [Bank.vault?, Bank.withBalances_read]
  exact (Bank.read_congr (congrArg Account.content ((store_others hb₁ k).2.1 hne))).trans hv

private theorem paid_exists (hs : b.schedule? schedule = some s) :
    ∃ b', Paid b s schedule vaultSigner tickets b' := by
  obtain ⟨b₁, hb₁⟩ := store_marked hs
    (markAll_length (entries s schedule vaultSigner tickets) s.redemptions)
  exact ⟨_, b₁, hb₁, rfl⟩

private theorem Paid.balances (h : Paid b s schedule vaultSigner tickets b')
    (hcovers : Covers b.balance (movesOf s (entries s schedule vaultSigner tickets))) :
    let moves := movesOf s (entries s schedule vaultSigner tickets)
    (∀ k u, b.token? k = some u → ∃ n, b'.token? k = some { u with amount := n } ∧
      n + debits moves (.tokens k) = u.amount + credits moves (.tokens k)) ∧
    (∀ k, (b' k).lamports + debits moves (.lamports k) =
      (b k).lamports + credits moves (.lamports k)) ∧
    ∀ k, k ≠ schedule → b.token? k = none → (b' k).content = (b k).content := by
  intro moves
  obtain ⟨b₁, hb₁, rfl⟩ := h
  refine ⟨?_, fun k => hcovers.settle_add (.lamports k), ?_⟩
  · intro k u hu
    refine ⟨settle moves b.balance (.tokens k), ?_, ?_⟩
    · rw [Bank.withBalances_token?, (store_others hb₁ k).1, hu]
      rfl
    · have hamount : b.balance (.tokens k) = u.amount := by simp [Bank.balance, hu]
      rw [← hamount]
      exact hcovers.settle_add (.tokens k)
  · intro k hk htoken
    rw [Bank.withBalances_content ((store_others hb₁ k).1.trans htoken),
      (store_others hb₁ k).2.1 hk]

end

/-! ## Attempts -/

section
variable {rt : Runtime} {packages : Packages} {connection : Connection} {b b' : Bank}
  {s : Schedule} {v : Vault} {schedule vaultSigner : Pubkey} {t : Ticket} {done : List Ticket}
  {unixTimestamp : Int64}

theorem Ticket.Payable.fits (h : t.Payable s vaultSigner b) (hv : b.vault? s.vaultId = some v)
    (hseeds : rt.createProgramAddress (signerSeeds s.vaultId v) = some vaultSigner)
    (hwallet : (b vaultSigner).content = .wallet)
    (htype : s.objType = (t.claim s schedule vaultSigner).objType)
    (hkeys : rt.CanWrite ((t.claim s schedule vaultSigner).writes s)) :
    (t.claim s schedule vaultSigner).Fits rt
      (t.call s schedule vaultSigner rt unixTimestamp).toTx b v s := by
  obtain ⟨⟨hw, hw₀, hw₁⟩, hwfee, hwpay⟩ := Claim.forall_writes.mp
    ((Ticket.call_canWrite unixTimestamp).mpr hkeys)
  exact {
    type := htype
    link := rfl
    vault := hv
    vaultSigner := hseeds
    user := List.mem_cons_self
    scheduleWritable := hw
    vaultToken0Writable := hw₀
    userToken0Writable := hw₁
    tokenProgram := rfl
    systemProgram := rfl
    pinned := fun _ => rfl
    fee := by
      intro hpos
      obtain ⟨mint, hfrom, hto⟩ := h.fee hpos
      obtain ⟨hw, hw₁⟩ := hwfee hpos
      exact ⟨mint, t.feePayment, rfl, rfl, hw, hw₁ _ rfl, hfrom, hto, h.user⟩
    lamports := by
      intro hsys
      obtain ⟨hw₀, hw₁⟩ := hwpay hsys
      exact ⟨hw₀, hw₁, hwallet⟩
    tokens := by
      intro hsys
      obtain ⟨mint, hm, hfrom, hto⟩ := h.payee hsys
      refine ⟨mint, hm, hfrom, hto, ?_⟩
      show (b vaultSigner).content ≠ .multisig
      simp [hwallet] }

/-- A list of attempts.  One that fails leaves the bank as it is. -/
def attempts (rt : Runtime) (packages : Packages) (connection : Connection)
    (vault schedule : Pubkey) (b : Bank) (tries : List (Ticket × Int64)) : Bank :=
  tries.foldl (fun b a => (a.1.redeem rt packages connection b vault schedule a.2).getD b) b

/-- The ticket that an attempt can redeem: its own, if the time has come. -/
def dueTicket (s : Schedule) (a : Ticket × Int64) : Option Ticket :=
  if a.1.unlockTime s ≤ a.2 then some a.1 else none

private theorem dueTicket_eq_some {a : Ticket × Int64} :
    dueTicket s a = some t ↔ a.1 = t ∧ a.1.unlockTime s ≤ a.2 := by
  simp [dueTicket, and_comm]

theorem Campaign.Runs.vault {lib : Libraries} {d : Campaign} {tree : lib.MerkleTree}
    (h : d.Runs rt lib b s tree schedule vaultSigner) (hb : b.WellFormed rt) :
    ∃ v, b.vault? s.vaultId = some v ∧
      rt.findProgramAddress [signerSeed1, s.vaultId.bytes] = some (vaultSigner, v.signerNonce) := by
  obtain ⟨v, hv⟩ := hb.vaultId schedule s h.account
  obtain ⟨q, hq⟩ := hb.signerNonce _ v hv
  obtain ⟨bump, hsigner⟩ := h.signer
  rw [hsigner, Option.some.injEq, Prod.mk.injEq] at hq
  rw [hq.2] at hsigner
  exact ⟨v, hv, hsigner⟩

section
variable (hrt : rt.Lawful) (hp : packages.Lawful rt) (hc : connection.Lawful rt)
  (hroot : (VaultInstructionService.findRootSignerAddress rt packages rt.programId).isSome)
  {d : Campaign} {tree : packages.lib.MerkleTree} (hb : b.WellFormed rt)
  (hruns : d.Runs rt packages.lib b s tree schedule vaultSigner)
include hp hc hroot hb hruns

/-- While tickets get paid, the client goes on to send the same claims. -/
theorem Paid.redeem_eq (hissues : d.Issues packages.lib tree t)
    (h : Paid b s schedule vaultSigner done b') :
    t.redeem rt packages connection b' s.vaultId schedule unixTimestamp =
      (step rt b' (t.call s schedule vaultSigner rt unixTimestamp)).toOption := by
  obtain ⟨root, hroot⟩ := Option.isSome_iff_exists.mp hroot
  obtain ⟨v, hv, hsigner⟩ := hruns.vault hb
  have hsame := h.vault? hruns.account hv
  exact Ticket.redeem_eq (s := s.marked (markAll (entries s schedule vaultSigner done)
    s.redemptions)) hp hc hroot hsame h.schedule? hsigner (hruns.issued hp.lib hissues).length

include hrt

/-- A ticket is paid only of an active schedule, when its time has come, and when its bit is open.
No key that it writes is reserved then. -/
theorem Paid.of_redeem {b'' : Bank} (hissues : d.Issues packages.lib tree t)
    (h : Paid b s schedule vaultSigner done b')
    (hsent : t.redeem rt packages connection b' s.vaultId schedule unixTimestamp = some b'') :
    s.isActive = true ∧ t.unlockTime s ≤ unixTimestamp ∧
      (markAll (entries s schedule vaultSigner done) s.redemptions)[t.args.index.toNat]? =
        some false ∧
      rt.CanWrite ((t.claim s schedule vaultSigner).writes s) := by
  rw [h.redeem_eq hp hc hroot hb hruns hissues] at hsent
  obtain ⟨o, hhandle, -⟩ := step_eq_ok_iff.mp (toOption_eq_some.mp hsent)
  obtain ⟨v', s', b₁, b₂, hadmitted, hfee, hpay, -⟩ :=
    (handle_claim_eq_ok (t.claim s schedule vaultSigner).claim?_instruction).mp hhandle
  obtain rfl := Option.some.inj (h.schedule?.symm.trans hadmitted.schedule)
  obtain ⟨-, -, hbit⟩ := hadmitted.proves
  exact ⟨hadmitted.active, hadmitted.unlocked, hbit,
    (Ticket.call_canWrite unixTimestamp).mp (hadmitted.writes hrt hfee hpay)⟩

theorem Campaign.Runs.funded_of_redeem {b'' : Bank} (hissues : d.Issues packages.lib tree t)
    (hsent : t.redeem rt packages connection b s.vaultId schedule unixTimestamp = some b'') :
    Funded b.balance ((t.claim s schedule vaultSigner).moves s) := by
  have hnone : Paid b s schedule vaultSigner [] b := paid_nil hruns.account
  rw [hnone.redeem_eq hp hc hroot hb hruns hissues] at hsent
  obtain ⟨hdues, hpayouts⟩ := Instruction.moves_of_claim? rt
    (t.claim s schedule vaultSigner).claim?_instruction hruns.account
  have hpays := (step_pays hrt (toOption_eq_some.mp hsent)).funded
  have hinstruction : (t.call s schedule vaultSigner rt unixTimestamp).instruction =
      (t.claim s schedule vaultSigner).instruction := rfl
  rw [Instruction.moves, hinstruction, hdues, hpayouts] at hpays
  exact hpays

/-- A ticket that has not been paid is paid when its time has come. -/
theorem Paid.redeem (hissues : d.Issues packages.lib tree t)
    (hpayable : t.Payable s vaultSigner b)
    (hkeys : rt.CanWrite ((t.claim s schedule vaultSigner).writes s)) (hactive : s.isActive = true)
    (hunlocked : t.unlockTime s ≤ unixTimestamp)
    (hopen : s.redemptions[t.args.index.toNat]? = some false)
    (hfresh : ∀ u ∈ done, u.args.index ≠ t.args.index)
    (hfunded : Funded (settle (movesOf s (entries s schedule vaultSigner done)) b.balance)
      ((t.claim s schedule vaultSigner).moves s))
    (h : Paid b s schedule vaultSigner done b') :
    ∃ b'', t.redeem rt packages connection b' s.vaultId schedule unixTimestamp = some b'' ∧
      Paid b s schedule vaultSigner (done ++ [t]) b'' := by
  obtain ⟨v, hv, hsigner⟩ := hruns.vault hb
  have hissued : t.Issued s schedule vaultSigner rt := hruns.issued hp.lib hissues
  have hfits : (t.claim s schedule vaultSigner).Fits rt
      (t.call s schedule vaultSigner rt unixTimestamp).toTx b v s :=
    hpayable.fits hv (rt.create_of_find hsigner) hruns.wallet hissued.type hkeys
  have hbit : (markAll (entries s schedule vaultSigner done) s.redemptions)[
      t.args.index.toNat]? = some false := by
    rw [markAll_entries hopen, Option.some.injEq, decide_eq_false_iff_not]
    intro hold
    obtain ⟨u, hu, hindex⟩ := hold
    exact hfresh u hu (UInt16.toNat_inj.mp hindex)
  have hmark : markAll (entries s schedule vaultSigner (done ++ [t])) s.redemptions =
      (markAll (entries s schedule vaultSigner done) s.redemptions).set t.args.index.toNat
        true := by
    simp [markAll, entries, Ticket.claim]
  rw [h.redeem_eq hp hc hroot hb hruns hissues]
  obtain ⟨b₁, hb₁, rfl⟩ := h
  obtain ⟨hlen, hproof⟩ := hissued.proves
  obtain ⟨b₂, hb₂, hstep⟩ := hfits.step hrt rfl hruns.account (markAll_length _ _) hb₁
    (hfits.admitted rfl hunlocked hactive hruns.account
      (rt.create_of_find (hb.address schedule s hruns.account)) hb₁ ⟨hlen, hproof, hbit⟩)
    hfunded
  refine ⟨_, toOption_eq_some.mpr hstep, b₂, ?_, ?_⟩
  · rw [hmark]
    exact hb₂
  · rw [movesOf_concat, settle_append]

/-- Whatever the order of the attempts, they pay each ticket once that was tried in time. -/
private theorem attempts_paid (hactive : s.isActive = true) {tickets : List Ticket}
    (hindex : (tickets.map fun t => t.args.index).Nodup)
    (hpayable : ∀ t ∈ tickets, t.Payable s vaultSigner b)
    (hkeys : ∀ t ∈ tickets, rt.CanWrite ((t.claim s schedule vaultSigner).writes s))
    (hopen : ∀ t ∈ tickets, s.redemptions[t.args.index.toNat]? = some false)
    (hcovers : Covers b.balance (movesOf s (entries s schedule vaultSigner tickets)))
    {tries : List (Ticket × Int64)} (hissues : ∀ a ∈ tries, d.Issues packages.lib tree a.1)
    (htickets : ∀ t, t ∈ tickets ↔ ∃ a ∈ tries, dueTicket s a = some t) :
    Paid b s schedule vaultSigner tickets
      (attempts rt packages connection s.vaultId schedule b tries) := by
  have hinj : ∀ t ∈ tickets, ∀ u ∈ tickets, u.args.index = t.args.index → u = t :=
    fun t ht u hu => List.inj_on_of_nodup_map hindex hu ht
  -- what cannot be paid changes nothing
  have hrefused {done : List Ticket} {b' : Bank} {a : Ticket × Int64}
      (hpaid : Paid b s schedule vaultSigner done b') (ha : a ∈ tries)
      (h : (∃ u ∈ done, u.args.index = a.1.args.index) ∨ ¬ a.1.unlockTime s ≤ a.2) :
      (a.1.redeem rt packages connection b' s.vaultId schedule a.2).getD b' = b' := by
    cases hsent : a.1.redeem rt packages connection b' s.vaultId schedule a.2 with
    | none => rfl
    | some b'' =>
      obtain ⟨-, hunlocked, hbit, -⟩ :=
        hpaid.of_redeem hrt hp hc hroot hb hruns (hissues a ha) hsent
      rcases h with ⟨u, hu, he⟩ | hearly
      · rw [← he] at hbit
        exact absurd hbit (markAll_entries_paid hu)
      · exact absurd hunlocked hearly
  have honce : ∃ done, done.Nodup ∧ (∀ t, t ∈ done ↔ ∃ a ∈ tries, dueTicket s a = some t) ∧
      Paid b s schedule vaultSigner done
        (attempts rt packages connection s.vaultId schedule b tries) := by
    apply foldl_once (paid_nil hruns.account)
    · intro done b' a t hpaid hsub hnodup ha htask hnew
      obtain ⟨rfl, hle⟩ := dueTicket_eq_some.mp htask
      have hall : done ++ [a.1] ⊆ tickets := by
        intro u hu
        rcases List.mem_append.mp hu with hu | hu
        · exact (htickets u).mpr (hsub u hu)
        · rw [List.mem_singleton.mp hu]
          exact (htickets a.1).mpr ⟨a, ha, htask⟩
      have ht : a.1 ∈ tickets := hall (by simp)
      have hfresh : ∀ u ∈ done, u.args.index ≠ a.1.args.index := by
        intro u hu he
        obtain rfl := hinj _ ht u (hall (by simp [hu])) he
        exact hnew hu
      have hdistinct : (done ++ [a.1]).Nodup := by
        rw [← List.concat_eq_append, List.nodup_concat]
        exact ⟨hnew, hnodup⟩
      have hfunded := (covers_of_subset hdistinct hall hcovers).funded
      rw [movesOf_concat, funded_append] at hfunded
      obtain ⟨b'', hredeem, hpaid'⟩ := hpaid.redeem hrt hp hc hroot hb hruns (hissues a ha)
        (hpayable _ ht) (hkeys _ ht) hactive hle (hopen _ ht) hfresh hfunded.2
      rw [hredeem, Option.getD_some]
      exact hpaid'
    · intro done b' a t hpaid hsub ha htask hold
      obtain ⟨rfl, -⟩ := dueTicket_eq_some.mp htask
      exact hrefused hpaid ha (.inl ⟨_, hold, rfl⟩)
    · intro done b' a hpaid hsub ha htask
      have hearly : ¬ a.1.unlockTime s ≤ a.2 := by
        intro hle
        rw [dueTicket, if_pos hle] at htask
        cases htask
      exact hrefused hpaid ha (.inr hearly)
  obtain ⟨done, hnodup, hmem, hpaid⟩ := honce
  have hperm : done.Perm tickets := by
    refine (List.perm_ext_iff_of_nodup hnodup hindex.of_map).mpr ?_
    intro t
    rw [hmem t, htickets t]
  exact hpaid.perm hperm hcovers

end

end

namespace Reference

open Coin98Vault.Reference

def tokenTicket : Ticket := ⟨some mint, ⟨0, 0, multiProofs 0, 3, 1⟩, user, userToken, userFee⟩

def lamportTicket : Ticket :=
  ⟨some systemProgramId, ⟨2, 0, multiProofs 2, 4, 0⟩, user, userToken, userFee⟩

theorem tickets_payable : ∀ t ∈ [tokenTicket, lamportTicket],
    t.Payable multiState vaultSigner multiDeployed := by
  have huser : (multiDeployed user).content ≠ .multisig := by decide +kernel
  have hfee : ∃ mint, multiDeployed.LiveOf mint user userFee ∧
      multiDeployed.Live mint multiState.sendingTokenAccount :=
    ⟨feeMint, ⟨⟨feeMint, user, 9, none, .initialized, none, 0, none⟩, by decide +kernel, rfl, rfl,
        rfl, by decide⟩,
      ⟨feeMint, owner, 0, none, .initialized, none, 0, none⟩, by decide +kernel, rfl, rfl⟩
  have hpayee : ∃ m, (∀ m', tokenTicket.mint = some m' → m' = m) ∧
      multiDeployed.LiveOf m vaultSigner multiState.receivingTokenAccount ∧
      multiDeployed.Live m userToken :=
    ⟨mint, fun m hm => (Option.some.inj hm).symm,
      ⟨⟨mint, vaultSigner, 50, none, .initialized, none, 0, none⟩, by decide +kernel, rfl, rfl, rfl,
        by decide⟩,
      ⟨mint, user, 5, none, .initialized, none, 0, none⟩, by decide +kernel, rfl, rfl⟩
  simp only [List.forall_mem_cons, List.not_mem_nil, false_implies, implies_true, and_true]
  exact ⟨⟨huser, fun _ => hfee, fun _ => hpayee⟩,
    ⟨huser, fun _ => hfee, fun hne => absurd rfl hne⟩⟩

private theorem ticket_issued {p : Nat} {t : Ticket}
    (h : p = 0 ∧ t = tokenTicket ∨ p = 2 ∧ t = lamportTicket) :
    (Campaign.multiToken multiRecords).ticket libraries multiTree p 0 userToken userFee =
      some t := by
  have hproofs (p : Nat) (hsome : ((MerkleDistributionMultiTokenService.getProof libraries multiTree
      p).mapM (Option.map MerkleNode.hash)).isSome) :
      (MerkleDistributionMultiTokenService.getProof libraries multiTree p).mapM
        (Option.map MerkleNode.hash) = some (multiProofs p) := by
    obtain ⟨proofs, hproofs⟩ := Option.isSome_iff_exists.mp hsome
    rw [multiProofs, hproofs]
    rfl
  rcases h with ⟨rfl, rfl⟩ | ⟨rfl, rfl⟩
  · simp only [Campaign.ticket, hproofs 0 (by decide +kernel)]
    rfl
  · simp only [Campaign.ticket, hproofs 2 (by decide +kernel)]
    rfl

theorem multi_runs : (Campaign.multiToken multiRecords).Runs runtime libraries
    (run (step runtime) genesis [openVault, openMultiSchedule]) multiState multiTree multiSchedule
    vaultSigner := by
  rw [multi_run]
  exact ⟨by decide +kernel, ⟨rfl, by decide⟩, multiRecords_inRange, multi_created, rfl,
    by decide +kernel, ⟨255, by decide +kernel⟩, by decide +kernel⟩

theorem multi_issues : ∀ t ∈ [tokenTicket, lamportTicket],
    (Campaign.multiToken multiRecords).Issues libraries multiTree t := by
  simp only [List.forall_mem_cons, List.not_mem_nil, false_implies, implies_true, and_true]
  exact ⟨⟨0, 0, userToken, userFee, ticket_issued (.inl ⟨rfl, rfl⟩)⟩,
    ⟨2, 0, userToken, userFee, ticket_issued (.inr ⟨rfl, rfl⟩)⟩⟩

end Reference

/-- The program accepts the redemption of a payable ticket of a campaign if and only if the schedule
is active, the time of the record has come, its bit is open, the balances pay the fee and then the
record, and no key that it writes is reserved.  It is then paid. -/
theorem client_redemption_iff {rt : Runtime} (hrt : rt.Lawful) {packages : Packages}
    (hp : packages.Lawful rt) {connection : Connection} (hc : connection.Lawful rt)
    (hroot : (VaultInstructionService.findRootSignerAddress rt packages rt.programId).isSome)
    {b₀ : Bank} (hempty : ∀ k d, (b₀ k).content ≠ .program d) (calls : List Call) {d : Campaign}
    {s : Schedule} {tree : packages.lib.MerkleTree} {schedule vaultSigner : Pubkey}
    (hruns : d.Runs rt packages.lib (run (step rt) b₀ calls) s tree schedule vaultSigner)
    {t : Ticket} (hissues : d.Issues packages.lib tree t)
    (hpayable : t.Payable s vaultSigner (run (step rt) b₀ calls)) (unixTimestamp : Int64)
    (b' : Bank) :
    let b := run (step rt) b₀ calls
    t.redeem rt packages connection b s.vaultId schedule unixTimestamp = some b' ↔
      s.isActive = true ∧ t.unlockTime s ≤ unixTimestamp ∧
      s.redemptions[t.args.index.toNat]? = some false ∧
      Funded b.balance ((t.claim s schedule vaultSigner).moves s) ∧
      rt.CanWrite ((t.claim s schedule vaultSigner).writes s) ∧
      Paid b s schedule vaultSigner [t] b' := by
  intro b
  have hb : b.WellFormed rt := wellFormed_run hrt (wellFormed_of_unused hempty) calls
  have hnone : Paid b s schedule vaultSigner [] b := paid_nil hruns.account
  have hpays (hactive : s.isActive = true) (hunlocked : t.unlockTime s ≤ unixTimestamp)
      (hopen : s.redemptions[t.args.index.toNat]? = some false)
      (hfunded : Funded b.balance ((t.claim s schedule vaultSigner).moves s))
      (hkeys : rt.CanWrite ((t.claim s schedule vaultSigner).writes s)) :=
    Paid.redeem hrt hp hc hroot hb hruns hissues hpayable hkeys hactive hunlocked hopen
      (List.forall_mem_nil _) hfunded hnone
  constructor
  · intro hsent
    obtain ⟨hactive, hunlocked, hopen, hkeys⟩ :=
      hnone.of_redeem hrt hp hc hroot hb hruns hissues hsent
    have hfunded := hruns.funded_of_redeem hrt hp hc hroot hb hissues hsent
    obtain ⟨b'', hsent', hpaid⟩ := hpays hactive hunlocked hopen hfunded hkeys
    obtain rfl := Option.some.inj (hsent.symm.trans hsent')
    exact ⟨hactive, hunlocked, hopen, hfunded, hkeys, hpaid⟩
  · intro h
    obtain ⟨hactive, hunlocked, hopen, hfunded, hkeys, hpaid⟩ := h
    obtain ⟨b'', hsent, hpaid'⟩ := hpays hactive hunlocked hopen hfunded hkeys
    rw [hsent, hpaid'.unique hpaid]

open Coin98Vault.Reference Reference in
theorem client_redemption_iff_deployed :
    ∃ b', tokenTicket.redeem runtime packages connection
      (run (step runtime) genesis [openVault, openMultiSchedule]) vault multiSchedule 6 = some b' := by
  have hmem : tokenTicket ∈ [tokenTicket, lamportTicket] := List.mem_cons_self
  have hpayable : tokenTicket.Payable multiState vaultSigner
      (run (step runtime) genesis [openVault, openMultiSchedule]) := by
    rw [multi_run]
    exact tickets_payable _ hmem
  have hfunded : Funded multiDeployed.balance
      ((tokenTicket.claim multiState multiSchedule vaultSigner).moves multiState) := by
    have hcovers : Covers multiDeployed.balance
        ((tokenTicket.claim multiState multiSchedule vaultSigner).moves multiState) := by
      decide +kernel
    exact hcovers.funded
  obtain ⟨f, hpaid⟩ := @paid_exists _ _ multiSchedule vaultSigner [tokenTicket] multi_runs.account
  refine ⟨f, (client_redemption_iff runtime_lawful packages_lawful connection_lawful
    (by decide +kernel) genesis_unused [openVault, openMultiSchedule] multi_runs
    (multi_issues _ hmem) hpayable 6 f).mpr
      ⟨rfl, by decide, by decide, ?_, by decide +kernel, hpaid⟩⟩
  rw [multi_run]
  exact hfunded

/-- Holders redeem payable tickets of an active schedule with the client in any order, also too
early, also again and again.  If the bits of the tickets that are tried in time are open and
distinct, none of these writes a reserved key, and the balances pay for all of them, it all comes to
one bank, in which just these tickets are paid, each once. -/
theorem attempts_any_order {rt : Runtime} (hrt : rt.Lawful) {packages : Packages}
    (hp : packages.Lawful rt) {connection : Connection} (hc : connection.Lawful rt)
    (hroot : (VaultInstructionService.findRootSignerAddress rt packages rt.programId).isSome)
    {b₀ : Bank} (hempty : ∀ k d, (b₀ k).content ≠ .program d) (calls : List Call) {d : Campaign}
    {s : Schedule} {tree : packages.lib.MerkleTree} {schedule vaultSigner : Pubkey}
    (hruns : d.Runs rt packages.lib (run (step rt) b₀ calls) s tree schedule vaultSigner)
    (hactive : s.isActive = true) {tickets : List Ticket}
    (hindex : (tickets.map fun t => t.args.index).Nodup)
    (hpayable : ∀ t ∈ tickets, t.Payable s vaultSigner (run (step rt) b₀ calls))
    (hkeys : ∀ t ∈ tickets, rt.CanWrite ((t.claim s schedule vaultSigner).writes s))
    (hopen : ∀ t ∈ tickets, s.redemptions[t.args.index.toNat]? = some false)
    (hcovers : Covers (run (step rt) b₀ calls).balance
      (tickets.flatMap fun t => (t.claim s schedule vaultSigner).moves s)) :
    let b := run (step rt) b₀ calls
    let moves := tickets.flatMap fun t => (t.claim s schedule vaultSigner).moves s
    ∃ f bits,
      (∀ tries : List (Ticket × Int64), (∀ a ∈ tries, d.Issues packages.lib tree a.1) →
        (∀ t, t ∈ tickets ↔ ∃ a ∈ tries, dueTicket s a = some t) →
        attempts rt packages connection s.vaultId schedule b tries = f) ∧
      f.schedule? schedule = some (s.marked bits) ∧
      (∀ n, bits[n]? = some true ↔
        s.redemptions[n]? = some true ∨ ∃ t ∈ tickets, t.args.index.toNat = n) ∧
      (∀ k u, b.token? k = some u → ∃ n, f.token? k = some { u with amount := n } ∧
        n + debits moves (.tokens k) = u.amount + credits moves (.tokens k)) ∧
      (∀ k, (f k).lamports + debits moves (.lamports k) =
        (b k).lamports + credits moves (.lamports k)) ∧
      ∀ k, k ≠ schedule → b.token? k = none → (f k).content = (b k).content := by
  intro b moves
  have hb : b.WellFormed rt := wellFormed_run hrt (wellFormed_of_unused hempty) calls
  have hmoves : movesOf s (entries s schedule vaultSigner tickets) = moves := movesOf_entries
  obtain ⟨f, hpaid⟩ : ∃ f, Paid b s schedule vaultSigner tickets f := paid_exists hruns.account
  have hbalances := hpaid.balances (hmoves ▸ hcovers)
  rw [hmoves] at hbalances
  refine ⟨f, _, ?_, hpaid.schedule?, ?_, hbalances⟩
  · intro tries hissues htickets
    have hall := attempts_paid hrt hp hc hroot hb hruns hactive hindex hpayable hkeys hopen
      (hmoves ▸ hcovers) hissues htickets
    exact hall.unique hpaid
  · intro n
    rw [markAll_getElem?]
    apply or_congr Iff.rfl
    constructor
    · intro h
      obtain ⟨-, c, hc, hn⟩ := h
      obtain ⟨t, ht, rfl⟩ := List.mem_map.mp hc
      exact ⟨t, ht, hn⟩
    · intro h
      obtain ⟨t, ht, rfl⟩ := h
      exact ⟨(List.getElem?_eq_some_iff.mp (hopen t ht)).1, _, List.mem_map_of_mem ht, rfl⟩

open Coin98Vault.Reference Reference in
/-- One is too early at first, the other tries again. -/
theorem attempts_any_order_deployed :
    let campaign := attempts runtime packages connection vault multiSchedule
      (run (step runtime) genesis [openVault, openMultiSchedule])
    campaign [(lamportTicket, -1), (tokenTicket, 6), (lamportTicket, 6), (tokenTicket, 7)] =
      campaign [(lamportTicket, 0), (tokenTicket, 0)] := by
  intro campaign
  have hindex : ([tokenTicket, lamportTicket].map fun t => t.args.index).Nodup := by decide
  have hcovers : Covers multiDeployed.balance ([tokenTicket, lamportTicket].flatMap fun t =>
      (t.claim multiState multiSchedule vaultSigner).moves multiState) := by decide +kernel
  obtain ⟨f, bits, htries, -⟩ := attempts_any_order runtime_lawful packages_lawful
    connection_lawful (by decide +kernel) genesis_unused [openVault, openMultiSchedule] multi_runs
    rfl hindex (by rw [multi_run]; exact tickets_payable) (by decide +kernel) (by decide)
    (by rw [multi_run]; exact hcovers)
  have hsent (tries : List (Ticket × Int64))
      (hmem : ∀ a ∈ tries, a.1 ∈ [tokenTicket, lamportTicket])
      (hdue : ∀ t, t ∈ [tokenTicket, lamportTicket] ↔ ∃ a ∈ tries, dueTicket multiState a = some t) :
      campaign tries = f :=
    htries tries (fun a ha => multi_issues _ (hmem a ha)) hdue
  have hearly : dueTicket multiState (lamportTicket, -1) = none := if_neg (by decide +kernel)
  have htoken (time : Int64) (h : 0 ≤ time) :
      dueTicket multiState (tokenTicket, time) = some tokenTicket := if_pos h
  have hlamport (time : Int64) (h : 0 ≤ time) :
      dueTicket multiState (lamportTicket, time) = some lamportTicket := if_pos h
  refine (hsent _ (by simp) ?_).trans (hsent _ (by simp) ?_).symm
  · intro t
    have htoken₆ := htoken 6 (by decide)
    have htoken₇ := htoken 7 (by decide)
    have hlamport₆ := hlamport 6 (by decide)
    grind
  · intro t
    simp [htoken 0 (by decide), hlamport 0 (by decide), eq_comm, or_comm]

end Coin98Vault.Client

import Coin98Vault.Program.Steps
import Coin98Vault.Properties.ClientRequests

/-!
# Whose privileges an instruction uses

An instruction looks at the signatures and at the write access of a few of its accounts, so that
who else signs or pays makes no difference to it.  The client lists every signer as read-only, and
where the program writes to the signer, the signer has to pay.
-/

namespace Coin98Vault

/-- Two transactions at one time, with the same signatures of some accounts and the same write
access to others. -/
structure Tx.AgreeOn (signs writes : List Pubkey) (tx tx' : Tx) : Prop where
  signs : ∀ k ∈ signs, (k ∈ tx.signers ↔ k ∈ tx'.signers)
  writes : ∀ k ∈ writes, (k ∈ tx.writable ↔ k ∈ tx'.writable)
  clock : tx.unixTimestamp = tx'.unixTimestamp

namespace Instruction

/-- The accounts whose signature an instruction looks at. -/
def signs : Instruction → List Pubkey
  | createVault x _ => [x.owner]
  | setVault x _ => [x.owner]
  | createSchedule x _ => [x.admin]
  | setScheduleStatus x _ => [x.admin]
  | withdrawSol x _ => [x.admin, x.vaultSigner]
  | withdrawToken x _ => [x.admin, x.vaultSigner]
  | redeemToken x _ | redeemTokenMulti x _ => [x.user, x.vaultSigner]
  | transferOwnership x _ => [x.owner]
  | acceptOwnership x => [x.newOwner]

/-- A redemption that pays in lamports. -/
def PaysLamports (b : Bank) : Instruction → Prop
  | redeemToken x _ => ∃ s, b.schedule? x.schedule = some s ∧ s.receivingTokenMint = systemProgramId
  | redeemTokenMulti _ a => a.receivingTokenMint = systemProgramId
  | _ => False

/-- The accounts whose write access an instruction looks at, but for those between which a
redemption pays lamports. -/
def writes : Instruction → List Pubkey
  | createVault x _ => [x.owner, x.vault]
  | setVault x _ => [x.vault]
  | createSchedule x _ => [x.admin, x.schedule]
  | setScheduleStatus x _ => [x.admin, x.schedule]
  | withdrawSol x _ => [x.admin, x.vaultSigner, x.recipient]
  | withdrawToken x _ => [x.admin, x.sender, x.recipient]
  | redeemToken x _ | redeemTokenMulti x _ =>
    [x.schedule, x.vaultToken0, x.userToken0] ++ x.remainingAccounts
  | transferOwnership x _ => [x.vault]
  | acceptOwnership x => [x.vault]

/-- The ends of a payment in lamports. -/
def lamportEnds : Instruction → List Pubkey
  | redeemToken x _ | redeemTokenMulti x _ => [x.vaultSigner, x.user]
  | _ => []

end Instruction

section
variable {rt : Runtime} {tx tx' : Tx} {signs writes : List Pubkey} {k : Pubkey}

private theorem require_congr {p q : Prop} [Decidable p] [Decidable q] (h : p ↔ q) (e : Failure) :
    require p e = require q e := by
  unfold require
  simp only [h]

private theorem signer_congr (h : tx.AgreeOn signs writes tx') (hk : k ∈ signs) :
    signer tx k = signer tx' k :=
  require_congr (h.signs k hk) _

private theorem writable_congr (h : tx.AgreeOn signs writes tx') (hk : k ∈ writes) :
    writable tx k = writable tx' k :=
  require_congr (h.writes k hk) _

private theorem invokeSigned_congr (h : tx.AgreeOn signs writes tx') {ix : CpiInstruction}
    (hsigns : ∀ m ∈ ix.accounts, m.isSigner = true → m.pubkey ∈ signs)
    (hwrites : ∀ m ∈ ix.accounts, m.isWritable = true → m.pubkey ∈ writes) (b : Bank)
    (seeds : List (List Bytes)) :
    invokeSigned rt tx b ix seeds = invokeSigned rt tx' b ix seeds := by
  have hw : (∀ m ∈ ix.accounts, m.isWritable = true → m.pubkey ∈ tx.writable) ↔
      ∀ m ∈ ix.accounts, m.isWritable = true → m.pubkey ∈ tx'.writable :=
    forall₂_congr fun m hm => forall_congr' fun hflag => h.writes _ (hwrites m hm hflag)
  have hs (derived : List Pubkey) :
      (∀ m ∈ ix.accounts, m.isSigner = true → m.pubkey ∈ tx.signers ∨ m.pubkey ∈ derived) ↔
        ∀ m ∈ ix.accounts, m.isSigner = true → m.pubkey ∈ tx'.signers ∨ m.pubkey ∈ derived :=
    forall₂_congr fun m hm => forall_congr' fun hflag =>
      or_congr_left (h.signs _ (hsigns m hm hflag))
  simp only [invokeSigned, require_congr hw, require_congr (hs _)]

private theorem transferLamport_congr (h : tx.AgreeOn signs writes tx') {owner recipient : Pubkey}
    (hsigns : owner ∈ signs) (howner : owner ∈ writes) (hrecipient : recipient ∈ writes) (b : Bank)
    (amount : UInt64) (seeds : List (List Bytes)) :
    transferLamport rt tx b owner recipient amount seeds =
      transferLamport rt tx' b owner recipient amount seeds := by
  apply invokeSigned_congr h
  · simp [systemTransfer, hsigns]
  · simp [systemTransfer, howner, hrecipient]

private theorem transferToken_congr (h : tx.AgreeOn signs writes tx') {owner source target : Pubkey}
    (hsigns : owner ∈ signs) (hsource : source ∈ writes) (htarget : target ∈ writes) (b : Bank)
    (amount : UInt64) (seeds : List (List Bytes)) :
    transferToken rt tx b owner source target amount seeds =
      transferToken rt tx' b owner source target amount seeds := by
  apply invokeSigned_congr h
  · simp [tokenTransfer, hsigns]
  · simp [tokenTransfer, hsource, htarget]

private theorem init_congr (h : tx.AgreeOn signs writes tx') {payer : Pubkey}
    (hsigns : payer ∈ signs) (hpayer : payer ∈ writes) (hk : k ∈ writes) (b : Bank)
    (seeds : List Bytes) (space : Nat) :
    init rt tx b payer k seeds space = init rt tx' b payer k seeds space := by
  simp only [init, fund, writable_congr h hk, transferLamport_congr h hsigns hpayer hk]

private theorem scheduleOf_congr (h : tx.AgreeOn signs writes tx') (hk : k ∈ writes) (b : Bank)
    (vault : Pubkey) : scheduleOf rt tx b vault k = scheduleOf rt tx' b vault k := by
  simp only [scheduleOf, writable_congr h hk]

private theorem payFee_congr (h : tx.AgreeOn signs writes tx') {user : Pubkey}
    {accounts : List Pubkey} (huser : user ∈ signs) (haccounts : ∀ k ∈ accounts, k ∈ writes)
    (b : Bank) (s : Schedule)
    (n : UInt64) :
    payFee rt tx b s user accounts n = payFee rt tx' b s user accounts n := by
  unfold payFee
  cases h0 : accounts[0]? with
  | none => rfl
  | some vaultToken1 =>
    cases h1 : accounts[1]? with
    | none => rfl
    | some userToken1 =>
      have hvault := haccounts _ (List.mem_of_getElem? h0)
      have huser1 := haccounts _ (List.mem_of_getElem? h1)
      simp only [orFail, bind, Except.bind, transferToken_congr h huser huser1 hvault]

private theorem redeemAccounts_congr {x : RedeemTokenContext} (h : tx.AgreeOn signs writes tx')
    (huser : x.user ∈ signs) (hschedule : x.schedule ∈ writes) (hvaultToken0 : x.vaultToken0 ∈ writes)
    (huserToken0 : x.userToken0 ∈ writes) (b : Bank) :
    RedeemTokenMultiContext.tryAccounts x rt tx b =
      RedeemTokenMultiContext.tryAccounts x rt tx' b := by
  simp only [RedeemTokenMultiContext.tryAccounts, scheduleOf_congr h hschedule,
    writable_congr h hvaultToken0, signer_congr h huser, writable_congr h huserToken0]

private theorem redeemToken_congr {x : RedeemTokenContext} {a : RedeemTokenArgs} {b : Bank}
    (h : tx.AgreeOn (Instruction.redeemToken x a).signs (Instruction.redeemToken x a).writes tx')
    (hlamports : (Instruction.redeemToken x a).PaysLamports b →
      tx.AgreeOn (Instruction.redeemToken x a).signs (Instruction.redeemToken x a).lamportEnds
        tx') :
    redeemToken rt tx b x a = redeemToken rt tx' b x a := by
  have hvaultToken0 : x.vaultToken0 ∈ (Instruction.redeemToken x a).writes := by
    simp [Instruction.writes]
  have huserToken0 : x.userToken0 ∈ (Instruction.redeemToken x a).writes := by
    simp [Instruction.writes]
  have huser : x.user ∈ (Instruction.redeemToken x a).signs := by simp [Instruction.signs]
  have hsigner : x.vaultSigner ∈ (Instruction.redeemToken x a).signs := by
    simp [Instruction.signs]
  have haccounts : x.tryAccounts rt tx b = x.tryAccounts rt tx' b := by
    simp only [RedeemTokenContext.tryAccounts, redeemAccounts_congr h huser
      (by simp [Instruction.writes]) hvaultToken0 huserToken0]
  have hfee (b : Bank) (s : Schedule) (n : UInt64) :
      payFee rt tx b s x.user x.remainingAccounts n =
        payFee rt tx' b s x.user x.remainingAccounts n :=
    payFee_congr h huser (fun k hk => List.mem_append_right _ hk) b s n
  unfold redeemToken
  rw [haccounts]
  cases hok : x.tryAccounts rt tx' b with
  | error e => rfl
  | ok vs =>
    obtain ⟨v, s⟩ := vs
    have hs : b.schedule? x.schedule = some s :=
      (redeemAccounts_eq_ok.mp (redeemTokenAccounts_eq_ok.mp hok).1).2.1
    simp only [h.clock, hfee]
    by_cases hmint : s.receivingTokenMint = systemProgramId
    · have h' := hlamports ⟨s, hs, hmint⟩
      simp only [bind, Except.bind, hmint, if_true, transferLamport_congr h' hsigner
        (List.mem_cons_self) (List.mem_cons_of_mem _ List.mem_cons_self)]
    · simp only [bind, Except.bind, hmint, if_false,
        transferToken_congr h hsigner hvaultToken0 huserToken0]

private theorem redeemTokenMulti_congr {x : RedeemTokenMultiContext} {a : RedeemTokenMultiArgs}
    {b : Bank} (h : tx.AgreeOn (Instruction.redeemTokenMulti x a).signs
      (Instruction.redeemTokenMulti x a).writes tx')
    (hlamports : (Instruction.redeemTokenMulti x a).PaysLamports b →
      tx.AgreeOn (Instruction.redeemTokenMulti x a).signs
        (Instruction.redeemTokenMulti x a).lamportEnds tx') :
    redeemTokenMulti rt tx b x a = redeemTokenMulti rt tx' b x a := by
  have hvaultToken0 : x.vaultToken0 ∈ (Instruction.redeemTokenMulti x a).writes := by
    simp [Instruction.writes]
  have huserToken0 : x.userToken0 ∈ (Instruction.redeemTokenMulti x a).writes := by
    simp [Instruction.writes]
  have huser : x.user ∈ (Instruction.redeemTokenMulti x a).signs := by simp [Instruction.signs]
  have hsigner : x.vaultSigner ∈ (Instruction.redeemTokenMulti x a).signs := by
    simp [Instruction.signs]
  have hfee (b : Bank) (s : Schedule) (n : UInt64) :
      payFee rt tx b s x.user x.remainingAccounts n =
        payFee rt tx' b s x.user x.remainingAccounts n :=
    payFee_congr h huser (fun k hk => List.mem_append_right _ hk) b s n
  unfold redeemTokenMulti
  simp only [redeemAccounts_congr h huser (by simp [Instruction.writes]) hvaultToken0 huserToken0,
    h.clock, hfee]
  by_cases hmint : a.receivingTokenMint = systemProgramId
  · have h' := hlamports hmint
    simp only [hmint, if_true, transferLamport_congr h' hsigner
      (List.mem_cons_self) (List.mem_cons_of_mem _ List.mem_cons_self)]
  · simp only [hmint, if_false, transferToken_congr h hsigner hvaultToken0 huserToken0]

/-- A handler looks at no other privileges. -/
private theorem handle_congr {i : Instruction} {b : Bank} (h : tx.AgreeOn i.signs i.writes tx')
    (hlamports : i.PaysLamports b → tx.AgreeOn i.signs i.lamportEnds tx') :
    handle rt tx b i = handle rt tx' b i := by
  cases i with
  | createVault x vaultPath =>
    have hsigns : x.owner ∈ [x.owner] := by simp
    have howner : x.owner ∈ [x.owner, x.vault] := by simp
    have hvault : x.vault ∈ [x.owner, x.vault] := by simp
    simp only [handle, createVault, CreateVaultContext.tryAccounts, signer_congr h hsigns,
      writable_congr h howner, init_congr h hsigns howner hvault]
  | setVault x admins =>
    have hsigns : x.owner ∈ [x.owner] := by simp
    have hvault : x.vault ∈ [x.vault] := by simp
    simp only [handle, setVault, SetVaultContext.tryAccounts, signer_congr h hsigns,
      writable_congr h hvault]
  | createSchedule x a =>
    have hsigns : x.admin ∈ [x.admin] := by simp
    have hadmin : x.admin ∈ [x.admin, x.schedule] := by simp
    have hschedule : x.schedule ∈ [x.admin, x.schedule] := by simp
    simp only [handle, createSchedule, CreateScheduleContext.tryAccounts, signer_congr h hsigns,
      writable_congr h hadmin, init_congr h hsigns hadmin hschedule]
  | setScheduleStatus x isActive =>
    have hsigns : x.admin ∈ [x.admin] := by simp
    have hadmin : x.admin ∈ [x.admin, x.schedule] := by simp
    have hschedule : x.schedule ∈ [x.admin, x.schedule] := by simp
    simp only [handle, setScheduleStatus, SetScheduleContext.tryAccounts, signer_congr h hsigns,
      writable_congr h hadmin, scheduleOf_congr h hschedule]
  | withdrawSol x amount =>
    have hsigns : x.admin ∈ [x.admin, x.vaultSigner] := by simp
    have hsigner : x.vaultSigner ∈ [x.admin, x.vaultSigner] := by simp
    have hadmin : x.admin ∈ [x.admin, x.vaultSigner, x.recipient] := by simp
    have hsource : x.vaultSigner ∈ [x.admin, x.vaultSigner, x.recipient] := by simp
    have hrecipient : x.recipient ∈ [x.admin, x.vaultSigner, x.recipient] := by simp
    simp only [handle, withdrawSol, WithdrawSolContext.tryAccounts, signer_congr h hsigns,
      writable_congr h hadmin, writable_congr h hsource, writable_congr h hrecipient,
      transferLamport_congr h hsigner hsource hrecipient]
  | withdrawToken x amount =>
    have hsigns : x.admin ∈ [x.admin, x.vaultSigner] := by simp
    have hsigner : x.vaultSigner ∈ [x.admin, x.vaultSigner] := by simp
    have hadmin : x.admin ∈ [x.admin, x.sender, x.recipient] := by simp
    have hsender : x.sender ∈ [x.admin, x.sender, x.recipient] := by simp
    have hrecipient : x.recipient ∈ [x.admin, x.sender, x.recipient] := by simp
    simp only [handle, withdrawToken, WithdrawTokenContext.tryAccounts, signer_congr h hsigns,
      writable_congr h hadmin, writable_congr h hsender, writable_congr h hrecipient,
      transferToken_congr h hsigner hsender hrecipient]
  | redeemToken x a => exact redeemToken_congr h hlamports
  | redeemTokenMulti x a => exact redeemTokenMulti_congr h hlamports
  | transferOwnership x newOwner =>
    have hsigns : x.owner ∈ [x.owner] := by simp
    have hvault : x.vault ∈ [x.vault] := by simp
    simp only [handle, transferOwnership, TransferOwnershipContext.tryAccounts,
      signer_congr h hsigns, writable_congr h hvault]
  | acceptOwnership x =>
    have hsigns : x.newOwner ∈ [x.newOwner] := by simp
    have hvault : x.vault ∈ [x.vault] := by simp
    simp only [handle, acceptOwnership, AcceptOwnershipContext.tryAccounts,
      signer_congr h hsigns, writable_congr h hvault]

end

namespace Client

namespace Request

/-- The program writes to the signer of the request. -/
def WritesSigner (b : Bank) (r : Request) : Prop :=
  r.signer ∈ r.instruction.writes ∨ r.instruction.PaysLamports b

/-- The program writes to the signer of the request, and the client lists it as read-only only. -/
def LacksSigner (b : Bank) (r : Request) : Prop := r.WritesSigner b ∧ r.signer ∉ r.writes

private theorem mem_writes {r : Request} {k : Pubkey}
    (h : k ∈ r.instruction.writes ∨ k ∈ r.instruction.lamportEnds) : k = r.signer ∨ k ∈ r.writes := by
  rcases h with h | h
  · cases r <;> simp only [instruction, Instruction.writes, List.mem_append, List.mem_cons,
      List.not_mem_nil, or_false] at h <;> simp only [signer, writes, List.mem_append,
      List.mem_cons, List.not_mem_nil, or_false] <;> tauto
  · cases r <;> simp only [instruction, Instruction.lamportEnds, List.mem_cons,
      List.not_mem_nil, or_false] at h <;> simp only [signer, writes, List.mem_append,
      List.mem_cons, List.not_mem_nil, or_false] <;> tauto

private theorem signer_mem (r : Request) : r.signer ∈ r.instruction.accounts := by
  cases r <;> simp [signer, instruction, Instruction.accounts]

private theorem signs_subset (r : Request) : r.instruction.signs ⊆ r.instruction.accounts := by
  intro k hk
  cases r <;> simp only [instruction, Instruction.signs, List.mem_cons, List.not_mem_nil,
    or_false] at hk <;> simp only [instruction, Instruction.accounts, List.mem_append,
    List.mem_cons, List.not_mem_nil, or_false] <;> tauto

end Request

section
variable {rt : Runtime} {b : Bank} {r : Request}

private theorem user_writable (hrt : rt.Lawful) {tx : Tx} {i : Instruction} {cl : Claim}
    {o : Outcome} (hcl : i.claim? = some cl) (h : handle rt tx b i = .ok o)
    (hlamports : i.PaysLamports b) :
    cl.accounts.user ∈ tx.writable := by
  obtain ⟨v, s, b₁, b₂, hadm, -, hpay, -⟩ := (handle_claim_eq_ok hcl).mp h
  have hmint : cl.paidMint s = systemProgramId := by
    cases i with
    | redeemToken x a =>
      obtain rfl := Option.some.inj hcl
      obtain ⟨s', hs', hmint⟩ := hlamports
      obtain rfl := Option.some.inj (hadm.schedule.symm.trans hs')
      exact hmint
    | redeemTokenMulti x a =>
      obtain rfl := Option.some.inj hcl
      exact hlamports
    | _ => cases hcl
  rcases Claim.payOut_eq_ok.mp hpay with ⟨-, ht⟩ | ⟨hne, -⟩
  · exact ((transferLamport_eq_ok hrt).mp ht).2.2.1
  · exact absurd hmint hne

private theorem signer_writable (hrt : rt.Lawful) {tx : Tx} {o : Outcome}
    (h : handle rt tx b r.instruction = .ok o) (hsigner : r.signer ∉ r.writes)
    (hwrites : r.WritesSigner b) : r.signer ∈ tx.writable := by
  cases r with
  | createVault payer vault vaultPath => exact ((createVault_eq_ok hrt).mp h).2.1
  | createSchedule root vault schedule a =>
    obtain ⟨v, -, -, hw, -⟩ := (createSchedule_eq_ok hrt).mp h
    exact hw
  | setScheduleStatus root vault schedule isActive =>
    obtain ⟨v, s, -, -, -, hw, -⟩ := setScheduleStatus_eq_ok.mp h
    exact hw
  | withdrawSol owner vault vaultSigner recipient amount =>
    obtain ⟨v, b', -, -, hw, -⟩ := withdrawSol_eq_ok.mp h
    exact hw
  | withdrawToken owner vault vaultSigner sender recipient amount =>
    obtain ⟨v, b', -, -, hw, -⟩ := withdrawToken_eq_ok.mp h
    exact hw
  | redeemToken vault schedule a vaultSigner vaultToken0 vaultToken1 user userToken0 userToken1 =>
    rcases hwrites with hwrites | hlamports
    · refine absurd ?_ hsigner
      simp only [Request.instruction, Instruction.writes, Request.writes, List.mem_append,
        List.mem_cons, List.not_mem_nil, or_false] at hwrites ⊢
      tauto
    · exact user_writable hrt rfl h hlamports
  | redeemTokenMulti vault schedule a vaultSigner vaultToken0 vaultToken1 user userToken0
      userToken1 =>
    rcases hwrites with hwrites | hlamports
    · refine absurd ?_ hsigner
      simp only [Request.instruction, Instruction.writes, Request.writes, List.mem_append,
        List.mem_cons, List.not_mem_nil, or_false] at hwrites ⊢
      tauto
    · exact user_writable hrt rfl h hlamports
  | setVault | transferOwnership | acceptOwnership =>
    rcases hwrites with hwrites | hlamports
    · exact absurd hwrites hsigner
    · exact hlamports.elim

private theorem Request.mem_writable {key k : Pubkey} {unixTimestamp : Int64} :
    k ∈ (r.call rt key unixTimestamp).writable ↔
      (k = key ∨ k ∈ r.writes) ∧ rt.reserved k = false := by
  simp [Request.call]

/-- What the program writes to is granted alike, whoever pays, unless it lacks the signer. -/
private theorem Request.mem_writable_sponsored {payer k : Pubkey} {unixTimestamp : Int64}
    (hlacks : ¬ r.LacksSigner b)
    (hk : k ∈ r.instruction.writes ∨ k ∈ r.instruction.lamportEnds)
    (hsigner : k = r.signer → r.WritesSigner b) :
    k ∈ (r.call rt payer unixTimestamp).writable ↔
      k ∈ (r.call rt r.signer unixTimestamp).writable := by
  have hmem : k ∈ r.writes := by
    rcases Request.mem_writes hk with rfl | hmem
    · by_contra hnot
      exact hlacks ⟨hsigner rfl, hnot⟩
    · exact hmem
  rw [Request.mem_writable, Request.mem_writable]
  simp [hmem]

private theorem Request.mem_signers_sponsored {payer k : Pubkey} {unixTimestamp : Int64}
    (hpayer : payer ∉ r.instruction.accounts) (hk : k ∈ r.instruction.signs) :
    k ∈ (r.call rt payer unixTimestamp).signers ↔
      k ∈ (r.call rt r.signer unixTimestamp).signers := by
  have hne : k ≠ payer := by
    rintro rfl
    exact hpayer (r.signs_subset hk)
  simp [Request.call, hne]

/-- A request paid for by a key that it does not name does exactly what it does when its signer
pays, except where the program writes to the signer and the client lists the signer as writable in
no other part: then it never succeeds. -/
theorem sponsored_request (hrt : rt.Lawful) (b : Bank) (r : Request) (payer : Pubkey)
    (unixTimestamp : Int64) (hpayer : payer ∉ r.instruction.accounts) :
    (r.LacksSigner b → ∀ b', step rt b (r.call rt payer unixTimestamp) ≠ .ok b') ∧
    (¬ r.LacksSigner b →
      step rt b (r.call rt payer unixTimestamp) = step rt b (r.call rt r.signer unixTimestamp)) := by
  constructor
  · intro hlacks b' hok
    obtain ⟨o, hh, -⟩ := step_eq_ok_iff.mp hok
    obtain ⟨heq | hmem, -⟩ :=
      Request.mem_writable.mp (signer_writable hrt hh hlacks.2 hlacks.1)
    · exact hpayer (heq ▸ r.signer_mem)
    · exact hlacks.2 hmem
  · intro hlacks
    have hsigns : ∀ k ∈ r.instruction.signs, (k ∈ (r.call rt payer unixTimestamp).signers ↔
        k ∈ (r.call rt r.signer unixTimestamp).signers) := by
      intro k hk
      exact Request.mem_signers_sponsored hpayer hk
    have hagree : Tx.AgreeOn r.instruction.signs r.instruction.writes
        (r.call rt payer unixTimestamp).toTx (r.call rt r.signer unixTimestamp).toTx := by
      refine ⟨hsigns, ?_, rfl⟩
      intro k hk
      refine Request.mem_writable_sponsored hlacks (.inl hk) ?_
      rintro rfl
      exact .inl hk
    have hhandle : handle rt (r.call rt payer unixTimestamp).toTx b r.instruction =
        handle rt (r.call rt r.signer unixTimestamp).toTx b r.instruction := by
      apply handle_congr hagree
      intro hlamports
      refine ⟨hsigns, ?_, rfl⟩
      intro k hk
      exact Request.mem_writable_sponsored hlacks (.inr hk) fun _ => .inr hlamports
    simp only [step]
    rw [show (r.call rt payer unixTimestamp).instruction = r.instruction from rfl,
      show (r.call rt r.signer unixTimestamp).instruction = r.instruction from rfl, hhandle]

end

open Reference in
/-- A sponsor can pay for a withdrawal to the owner, but not for one to somebody else. -/
theorem sponsored_request_deployed :
    let toUser := Request.withdrawSol owner vault vaultSigner user 5
    let toOwner := Request.withdrawSol owner vault vaultSigner owner 5
    (∀ b', step runtime deployed (toUser.call runtime otherUser 6) ≠ .ok b') ∧
      step runtime deployed (toOwner.call runtime otherUser 6) =
        step runtime deployed (toOwner.call runtime owner 6) := by
  intro toUser toOwner
  constructor
  · refine (sponsored_request runtime_lawful deployed toUser otherUser 6 (by decide +kernel)).1
      ⟨.inl ?_, ?_⟩ <;> decide +kernel
  · refine (sponsored_request runtime_lawful deployed toOwner otherUser 6 (by decide +kernel)).2 ?_
    intro hlacks
    exact hlacks.2 (by decide +kernel)

end Client

end Coin98Vault

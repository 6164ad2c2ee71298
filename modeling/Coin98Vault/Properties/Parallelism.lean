import Coin98Vault.Framework.Footprint
import Coin98Vault.Program.Accounting
import Coin98Vault.Program.Wire
import Coin98Vault.Properties.Refusals

/-!
# Calls on disjoint accounts

A call depends on the accounts that it names, and changes those of them that it may write.  Calls
that write nothing that the others name can therefore be run in any order.
-/

namespace Coin98Vault

open Trace Footprint

open Classical in
/-- A program that is invoked finds and changes the accounts that are passed to it, whatever else
there is. -/
def Runtime.Sealed (rt : Runtime) : Prop :=
  ∀ (S : Set Pubkey) (b d : Bank) (ix : CpiInstruction), (∀ m ∈ ix.accounts, m.pubkey ∈ S) →
    rt.process (S.piecewise b d) ix = (rt.process b ix).map fun b' => S.piecewise b' d

section
open Classical
variable {rt : Runtime} {tx : Tx} {S : Set Pubkey} {b d : Bank} {k : Pubkey}

private theorem Bank.piecewise_set (hk : k ∈ S) (a : Account) :
    Bank.set (S.piecewise b d) k a = S.piecewise (b.set k a) d := by
  funext x
  by_cases hx : x = k
  · subst hx
    simp [hk]
  · by_cases hxS : x ∈ S
    · simp [Bank.set_of_ne _ _ hx, hxS]
    · simp [Bank.set_of_ne _ _ hx, hxS]

private theorem Bank.piecewise_setContent (hk : k ∈ S) (c : Content) :
    Bank.setContent (S.piecewise b d) k c = S.piecewise (b.setContent k c) d := by
  unfold Bank.setContent
  rw [Bank.piecewise_set hk, Set.piecewise_eq_of_mem _ _ _ hk]

private theorem account_piecewise {α : Type} {l : Layout α} (hk : k ∈ S) :
    account l (S.piecewise b d) k = account l b k := by
  simp only [account, Bank.read, Set.piecewise_eq_of_mem _ _ _ hk]

private theorem accountUnchecked_piecewise {α : Type} {l : Layout α} (hk : k ∈ S) :
    accountUnchecked l (S.piecewise b d) k = accountUnchecked l b k := by
  simp only [accountUnchecked, Set.piecewise_eq_of_mem _ _ _ hk]

private theorem scheduleOf_piecewise {vault : Pubkey} (hk : k ∈ S) :
    scheduleOf rt tx (S.piecewise b d) vault k = scheduleOf rt tx b vault k := by
  simp only [scheduleOf, account_piecewise hk]

private theorem invokeSigned_piecewise (hrt : rt.Sealed) {ix : CpiInstruction}
    {signerSeeds : List (List Bytes)} (hix : ∀ m ∈ ix.accounts, m.pubkey ∈ S) :
    invokeSigned rt tx (S.piecewise b d) ix signerSeeds =
      (fun b' => S.piecewise b' d) <$> invokeSigned rt tx b ix signerSeeds := by
  simp only [invokeSigned, map_bind]
  rw [hrt S b d ix hix]
  cases rt.process b ix <;> rfl

private theorem transferLamport_piecewise (hrt : rt.Sealed) {owner recipient : Pubkey}
    {amount : UInt64} {signerSeeds : List (List Bytes)} (ho : owner ∈ S) (hr : recipient ∈ S) :
    transferLamport rt tx (S.piecewise b d) owner recipient amount signerSeeds =
      (fun b' => S.piecewise b' d) <$> transferLamport rt tx b owner recipient amount signerSeeds := by
  apply invokeSigned_piecewise hrt
  simp [systemTransfer, ho, hr]

private theorem transferToken_piecewise (hrt : rt.Sealed) {owner source target : Pubkey}
    {amount : UInt64} {signerSeeds : List (List Bytes)} (ho : owner ∈ S) (hs : source ∈ S)
    (ht : target ∈ S) :
    transferToken rt tx (S.piecewise b d) owner source target amount signerSeeds =
      (fun b' => S.piecewise b' d) <$>
        transferToken rt tx b owner source target amount signerSeeds := by
  apply invokeSigned_piecewise hrt
  simp [tokenTransfer, ho, hs, ht]

private theorem fund_piecewise (hrt : rt.Sealed) {payer : Pubkey} {space : Nat} (hp : payer ∈ S)
    (hk : k ∈ S) : fund rt tx (S.piecewise b d) payer k space =
      (fun b' => S.piecewise b' d) <$> fund rt tx b payer k space := by
  have hfunds : initFunds rt (S.piecewise b d) k space = initFunds rt b k space := by
    simp only [initFunds, Set.piecewise_eq_of_mem _ _ _ hk]
  simp only [fund, hfunds, Set.piecewise_eq_of_mem _ _ _ hk]
  split
  · exact transferLamport_piecewise hrt hp hk
  · rfl

private theorem init_piecewise (hrt : rt.Sealed) {payer : Pubkey} {seeds : List Bytes} {space : Nat}
    (hp : payer ∈ S) (hk : k ∈ S) : init rt tx (S.piecewise b d) payer k seeds space =
      (fun r => (S.piecewise r.1 d, r.2)) <$> init rt tx b payer k seeds space := by
  simp only [init, map_bind, fund_piecewise hrt hp hk, bind_map_left,
    Set.piecewise_eq_of_mem _ _ _ hk, Bank.piecewise_setContent hk]
  repeat' apply bind_congr; intro _
  split <;> rfl

private theorem payFee_piecewise (hrt : rt.Sealed) {s : Schedule} {user : Pubkey}
    {accounts : List Pubkey} {n : UInt64} (hu : user ∈ S) (haccounts : ∀ x ∈ accounts, x ∈ S) :
    payFee rt tx (S.piecewise b d) s user accounts n =
      (fun b' => S.piecewise b' d) <$> payFee rt tx b s user accounts n := by
  have hmem {n : Nat} {x : Pubkey} (h : accounts[n]? = some x) : x ∈ S :=
    haccounts x (List.mem_of_getElem? h)
  unfold payFee
  split
  · cases h₀ : accounts[0]? with
    | none => rfl
    | some vaultToken1 =>
      cases h₁ : accounts[1]? with
      | none =>
        simp only [map_bind]
        rfl
      | some userToken1 =>
        have hsome (x : Pubkey) : orFail .panic (some x) = pure x := rfl
        simp only [hsome, pure_bind, map_bind, transferToken_piecewise hrt hu (hmem h₁) (hmem h₀)]
  · rfl

private theorem unpackTokenAccount_piecewise (hk : k ∈ S) :
    unpackTokenAccount (S.piecewise b d) k = unpackTokenAccount b k := by
  simp only [unpackTokenAccount, Set.piecewise_eq_of_mem _ _ _ hk]

private theorem Claim.payOut_piecewise (hrt : rt.Sealed) {cl : Claim} {v : Vault} {s : Schedule}
    (hvs : cl.accounts.vaultSigner ∈ S) (hu : cl.accounts.user ∈ S)
    (hv0 : cl.accounts.vaultToken0 ∈ S) (hu0 : cl.accounts.userToken0 ∈ S) :
    cl.payOut rt tx (S.piecewise b d) v s =
      (fun b' => S.piecewise b' d) <$> cl.payOut rt tx b v s := by
  unfold Claim.payOut
  simp only [transferLamport_piecewise hrt hvs hu, transferToken_piecewise hrt hvs hv0 hu0,
    unpackTokenAccount_piecewise hv0, unpackTokenAccount_piecewise hu0]
  split
  · rfl
  · split
    · rfl
    · simp only [map_bind]

private theorem Claim.tryAccounts_piecewise {cl : Claim} (hv : cl.accounts.vault ∈ S)
    (hs : cl.accounts.schedule ∈ S) :
    cl.tryAccounts rt tx (S.piecewise b d) = cl.tryAccounts rt tx b := by
  simp only [Claim.tryAccounts, RedeemTokenContext.tryAccounts, RedeemTokenMultiContext.tryAccounts,
    account_piecewise hv, scheduleOf_piecewise hs]

private theorem Instruction.accounts_of_claim? {i : Instruction} {cl : Claim}
    (h : i.claim? = some cl) :
    i.accounts = [cl.accounts.vault, cl.accounts.schedule, cl.accounts.vaultSigner,
      cl.accounts.vaultToken0, cl.accounts.user, cl.accounts.userToken0, cl.accounts.tokenProgram,
      cl.accounts.systemProgram] ++ cl.accounts.remainingAccounts := by
  cases i with
  | redeemToken | redeemTokenMulti =>
    obtain rfl := Option.some.inj h
    rfl
  | _ => cases h

private theorem Claim.handle_piecewise (hrt : rt.Sealed) {i : Instruction} {cl : Claim}
    (hcl : i.claim? = some cl) (hi : ∀ x ∈ i.accounts, x ∈ S) :
    handle rt tx (S.piecewise b d) i =
      (fun o => ⟨S.piecewise o.bank d, o.written⟩) <$> handle rt tx b i := by
  rw [Instruction.accounts_of_claim? hcl] at hi
  simp only [List.forall_mem_append, List.forall_mem_cons] at hi
  obtain ⟨⟨hv, hs, hvs, hv0, hu, hu0, -⟩, hrest⟩ := hi
  simp only [handle_claim hcl, Claim.tryAccounts_piecewise hv hs, Claim.disburse, map_bind,
    payFee_piecewise hrt hu hrest, Claim.payOut_piecewise hrt hvs hu hv0 hu0, bind_map_left,
    map_pure]

private theorem handle_piecewise (hrt : rt.Sealed) {i : Instruction}
    (hi : ∀ x ∈ i.accounts, x ∈ S) :
    handle rt tx (S.piecewise b d) i =
      (fun o => ⟨S.piecewise o.bank d, o.written⟩) <$> handle rt tx b i := by
  cases hcl : i.claim? with
  | some cl => exact Claim.handle_piecewise hrt hcl hi
  | none =>
    cases i with
    | redeemToken | redeemTokenMulti => cases hcl
    | createVault x vaultPath =>
      simp only [Instruction.accounts, List.forall_mem_cons] at hi
      obtain ⟨ho, hv, -⟩ := hi
      simp only [handle, createVault, CreateVaultContext.tryAccounts, map_bind, bind_map_left,
        init_piecewise hrt ho hv, accountUnchecked_piecewise hv, bind_assoc, pure_bind, map_pure]
    | setVault x admins =>
      simp only [Instruction.accounts, List.forall_mem_cons] at hi
      obtain ⟨-, hv, -⟩ := hi
      simp only [handle, setVault, SetVaultContext.tryAccounts, map_bind, account_piecewise hv,
        map_pure]
    | createSchedule x a =>
      simp only [Instruction.accounts, List.forall_mem_cons] at hi
      obtain ⟨ha, hv, hs, -⟩ := hi
      simp only [handle, createSchedule, CreateScheduleContext.tryAccounts, map_bind, bind_map_left,
        account_piecewise hv, init_piecewise hrt ha hs, accountUnchecked_piecewise hs, bind_assoc,
        pure_bind, map_pure]
    | setScheduleStatus x isActive =>
      simp only [Instruction.accounts, List.forall_mem_cons] at hi
      obtain ⟨-, hv, hs, -⟩ := hi
      simp only [handle, setScheduleStatus, SetScheduleContext.tryAccounts, map_bind,
        account_piecewise hv, scheduleOf_piecewise hs, map_pure]
    | withdrawSol x amount =>
      simp only [Instruction.accounts, List.forall_mem_cons] at hi
      obtain ⟨-, hv, hvs, hr, -⟩ := hi
      simp only [handle, withdrawSol, WithdrawSolContext.tryAccounts, map_bind, bind_map_left,
        account_piecewise hv, transferLamport_piecewise hrt hvs hr, map_pure]
    | withdrawToken x amount =>
      simp only [Instruction.accounts, List.forall_mem_cons] at hi
      obtain ⟨-, hv, hvs, hs, hr, -⟩ := hi
      simp only [handle, withdrawToken, WithdrawTokenContext.tryAccounts, map_bind, bind_map_left,
        account_piecewise hv, transferToken_piecewise hrt hvs hs hr, map_pure]
    | transferOwnership x newOwner =>
      simp only [Instruction.accounts, List.forall_mem_cons] at hi
      obtain ⟨-, hv, -⟩ := hi
      simp only [handle, transferOwnership, TransferOwnershipContext.tryAccounts, map_bind,
        account_piecewise hv, map_pure]
    | acceptOwnership x =>
      simp only [Instruction.accounts, List.forall_mem_cons] at hi
      obtain ⟨-, hv, -⟩ := hi
      simp only [handle, acceptOwnership, AcceptOwnershipContext.tryAccounts, map_bind,
        account_piecewise hv, map_pure]

private theorem store_piecewise {α : Type} {l : Layout α} {a : α} (hk : k ∈ S) :
    store l (S.piecewise b d) k a = (fun b' => S.piecewise b' d) <$> store l b k a := by
  unfold store
  rw [Set.piecewise_eq_of_mem _ _ _ hk]
  split
  · simp only [map_bind, map_pure, Bank.piecewise_setContent hk]
  · rfl

private theorem exit_piecewise {w : Option (Pubkey × Value)}
    (hw : ∀ k val, w = some (k, val) → k ∈ S) :
    exit ⟨S.piecewise b d, w⟩ = (fun b' => S.piecewise b' d) <$> exit ⟨b, w⟩ := by
  match w, hw with
  | none, _ => rfl
  | some (k, .vault v), hw => exact store_piecewise (hw k _ rfl)
  | some (k, .schedule s), hw => exact store_piecewise (hw k _ rfl)

private theorem Accepted.written_mem {i : Instruction} {val : Value}
    (h : Accepted rt tx b i (some (k, val))) :
    k ∈ i.accounts := by
  cases h with
  | @claim i cl _ _ hcl _ => rw [Instruction.accounts_of_claim? hcl]; simp
  | _ => simp [Instruction.accounts]

end

/-! ## Steps -/

def Call.names (c : Call) : Set Pubkey := {k | k ∈ c.instruction.accounts}

/-- The accounts that a call may write: its transaction must say so. -/
def Call.writes (c : Call) : Set Pubkey := {k | k ∈ c.instruction.accounts ∧ k ∈ c.writable}

section
variable {rt : Runtime}

open Classical in
private theorem step_piecewise (hrt : rt.Lawful) (hsealed : rt.Sealed) (b d : Bank) (c : Call) :
    step rt (c.names.piecewise b d) c = (step rt b c).map fun b' => c.names.piecewise b' d := by
  have hhandle := @handle_piecewise rt c.toTx c.names b d hsealed c.instruction fun x hx => hx
  unfold step
  rw [hhandle]
  cases h : handle rt c.toTx b c.instruction with
  | error e => rfl
  | ok o =>
    apply exit_piecewise
    intro k val hw
    have hacc := (handle_eq_ok hrt h).1
    rw [hw] at hacc
    exact hacc.written_mem

theorem step_confined (hrt : rt.Lawful) (hsealed : rt.Sealed) :
    Confined (step rt) Call.names Call.writes := by
  apply Confined.of_piecewise
  · exact fun c k hk => hk.1
  · exact step_piecewise hrt hsealed
  · intro b b' c hok k hk hw
    exact (step_pays hrt hok).frame k fun hwritable => hw ⟨hk, hwritable⟩

end

/-! ## The reference runtime -/

namespace Reference

section
open Classical
variable {S : Set Pubkey} {b d : Bank}

private theorem transfer_piecewise {authority source target : Pubkey} {n : Nat} (ha : authority ∈ S)
    (hs : source ∈ S) (ht : target ∈ S) :
    transfer (S.piecewise b d) authority source target n =
      (transfer b authority source target n).map fun b' => S.piecewise b' d := by
  have htoken {k : Pubkey} (hk : k ∈ S) : Bank.token? (S.piecewise b d) k = b.token? k := by
    simp only [Bank.token?, Set.piecewise_eq_of_mem _ _ _ hk]
  have hable (s t : TokenAccount) : Transferable (S.piecewise b d) authority s t n ↔
      Transferable b authority s t n := by
    simp only [Transferable, Set.piecewise_eq_of_mem _ _ _ ha]
  simp only [transfer, htoken hs, htoken ht, hable, Bank.piecewise_setContent hs,
    Bank.piecewise_setContent ht]
  split
  · simp only [apply_ite (Option.map fun b' => S.piecewise b' d), Option.map_some, Option.map_none]
  · rfl

private theorem systemTransfer_piecewise {source target : Pubkey} {n : Nat} (hs : source ∈ S)
    (ht : target ∈ S) : systemTransfer (S.piecewise b d) source target n =
      (systemTransfer b source target n).map fun b' => S.piecewise b' d := by
  simp only [systemTransfer, Bank.moveLamports, Set.piecewise_eq_of_mem _ _ _ hs,
    Bank.piecewise_set hs, Set.piecewise_eq_of_mem _ _ _ ht, Bank.piecewise_set ht]
  split <;> rfl

theorem runtime_sealed : runtime.Sealed := by
  intro S b d ix hix
  show process (S.piecewise b d) ix = (process b ix).map _
  unfold process
  split
  · rename_i source target owner haccounts
    simp only [haccounts, List.forall_mem_cons] at hix
    obtain ⟨hs, ht, ho, -⟩ := hix
    simp only [transfer_piecewise ho hs ht]
    split
    · split <;> rfl
    · rfl
  · rename_i source target haccounts
    simp only [haccounts, List.forall_mem_cons] at hix
    obtain ⟨hs, ht, -⟩ := hix
    simp only [systemTransfer_piecewise hs ht]
    split
    · split <;> rfl
    · rfl
  · rfl

end

end Reference

/-! ## Regions and neighbours -/

/-- If some calls of a run name accounts of a set only and the others write none of them, the former
have the same answers, and the accounts of the set end the same, as in the run of the former alone
on any bank with the same accounts in the set. -/
theorem region_undisturbed {rt : Runtime} (hrt : rt.Lawful) (hsealed : rt.Sealed) {N : Set Pubkey}
    {p : Call → Bool} {calls : List Call}
    (hwithin : ∀ c ∈ calls, p c = true → ∀ k ∈ c.instruction.accounts, k ∈ N)
    (hwithout : ∀ c ∈ calls, p c = false → ∀ k ∈ c.instruction.accounts, k ∈ c.writable → k ∉ N)
    {b d : Bank} (heq : ∀ k ∈ N, b k = d k) :
    (∀ k ∈ N, run (step rt) b calls k = run (step rt) d (calls.filter p) k) ∧
      (answers (step rt) b calls).filter (fun a => p a.1) =
        answers (step rt) d (calls.filter p) := by
  have hdisjoint : ∀ c ∈ calls, p c = false → Disjoint c.writes N := by
    intro c hc hp
    exact Set.disjoint_left.mpr fun k hk => hwithout c hc hp k hk.1 hk.2
  exact (step_confined hrt hsealed).undisturbed hwithin hdisjoint fun k hk => heq k hk

namespace Reference

private theorem openOtherVault_spares : ∀ k ∈ openOtherVault.instruction.accounts,
    k ∈ openOtherVault.writable → k ∉ redeemFirst.instruction.accounts := by
  decide +kernel

private theorem redeemFirst_spares : ∀ k ∈ redeemFirst.instruction.accounts,
    k ∈ redeemFirst.writable → k ∉ openOtherVault.instruction.accounts := by
  decide +kernel

end Reference

open Reference in
theorem region_undisturbed_deployed :
    run (step runtime) deployed [openOtherVault, redeemFirst] vaultToken =
      run (step runtime) deployed [redeemFirst] vaultToken := by
  let mine (c : Call) : Bool := c.signers == [user]
  have hwithin : ∀ c ∈ [openOtherVault, redeemFirst], mine c = true →
      ∀ k ∈ c.instruction.accounts, k ∈ redeemFirst.names := by
    simp only [List.forall_mem_cons]
    exact ⟨fun h => absurd h (by decide +kernel), fun _ k hk => hk, nofun⟩
  have hwithout : ∀ c ∈ [openOtherVault, redeemFirst], mine c = false →
      ∀ k ∈ c.instruction.accounts, k ∈ c.writable → k ∉ redeemFirst.names := by
    simp only [List.forall_mem_cons]
    exact ⟨fun _ => openOtherVault_spares, fun h => absurd h (by decide +kernel), nofun⟩
  have hmem : vaultToken ∈ redeemFirst.instruction.accounts := by decide +kernel
  obtain ⟨hregion, -⟩ := @region_undisturbed runtime runtime_lawful runtime_sealed _ mine _ hwithin
    hwithout deployed deployed fun _ _ => rfl
  exact hregion vaultToken hmem

/-- Exchanging neighbours that write nothing that the other one names changes neither the bank at the
end of a run nor the answer of any call. -/
theorem reordered_disjoint_calls_agree {rt : Runtime} (hrt : rt.Lawful) (hsealed : rt.Sealed)
    {calls calls' : List Call}
    (hre : Relation.ReflTransGen (Exchange Call.names Call.writes) calls calls') (b : Bank) :
    run (step rt) b calls = run (step rt) b calls' ∧
      (answers (step rt) b calls).Perm (answers (step rt) b calls') :=
  (step_confined hrt hsealed).reorder hre b

open Reference in
theorem reordered_disjoint_calls_agree_deployed :
    run (step runtime) deployed [openOtherVault, redeemFirst] =
      run (step runtime) deployed [redeemFirst, openOtherVault] := by
  have hexchange : Exchange Call.names Call.writes [openOtherVault, redeemFirst]
      [redeemFirst, openOtherVault] := by
    refine ⟨[], openOtherVault, redeemFirst, [], rfl, rfl, ?_, ?_⟩
    · exact Set.disjoint_left.mpr fun k hk => openOtherVault_spares k hk.1 hk.2
    · exact Set.disjoint_left.mpr fun k hk => redeemFirst_spares k hk.1 hk.2
  exact (reordered_disjoint_calls_agree runtime_lawful runtime_sealed (.single hexchange) deployed).1

end Coin98Vault

import Coin98Vault.Properties.RedemptionSafety
import Coin98Vault.Properties.Registry

/-!
# Why a call is refused

The checks of a redemption come in one order, and the first that fails gives the answer.  Over a
run, what the answer says of the schedule is what the run has made of it.  In the same way, the
answer to a call that needs authority over a vault is that of the registry that the run has kept.
-/

namespace Coin98Vault

open Trace

/-! ## The checks and the transfers -/

namespace Claim

def tryAccounts (cl : Claim) (rt : Runtime) (tx : Tx) (b : Bank) :
    Except Failure (Vault × Schedule) :=
  match cl.mint with
  | none => RedeemTokenContext.tryAccounts cl.accounts rt tx b
  | some _ => RedeemTokenMultiContext.tryAccounts cl.accounts rt tx b

/-- What stands between the accounts of a claim and its transfers. -/
def verify (cl : Claim) (rt : Runtime) (tx : Tx) (s : Schedule) : Except Failure Unit := do
  verifySchedule s cl.objType
  require (cl.unlockTime s.timestamp ≤ tx.unixTimestamp) (.program .scheduleLocked)
  verifyLeaf rt cl.args.index (cl.record s.timestamp).tryToVec cl.args.proofs s

def disburse (cl : Claim) (rt : Runtime) (tx : Tx) (b : Bank) (v : Vault) (s : Schedule) :
    Except Failure Outcome := do
  let x := cl.accounts
  let b ← payFee rt tx b s x.user x.remainingAccounts cl.args.sendingAmount
  let b ← cl.payOut rt tx b v s
  return ⟨b, some (x.schedule, .schedule (s.redeem cl.args.index))⟩

end Claim

private theorem regime_eq {t timestamp clock : Int64} {e : Failure}
    {first second : Except Failure Unit} :
    (if t > 0 then do require (clock ≥ t) e; first
      else do require (clock ≥ timestamp) e; second) = (do
        require ((if t > 0 then t else timestamp) ≤ clock) e
        if t > 0 then first else second) := by
  split
  · rfl
  · rfl

section
variable {rt : Runtime} {tx : Tx} {b b' : Bank} {cl : Claim} {v : Vault} {s : Schedule}

private theorem verifyProof_eq {x : RedeemTokenContext} {a : RedeemTokenArgs} :
    (if s.timestamp > 0 then
        verifyProof rt a.index none x.user a.receivingAmount a.sendingAmount a.proofs s
      else
        verifyProof rt a.index (some a.timestamp) x.user a.receivingAmount a.sendingAmount a.proofs
          s) =
      verifyLeaf rt a.index (Claim.record ⟨x, a, none⟩ s.timestamp).tryToVec a.proofs s := by
  unfold Claim.record
  split
  · rfl
  · rfl

private theorem verifyProofMulti_eq {x : RedeemTokenContext} {a : RedeemTokenMultiArgs} :
    (if s.timestamp > 0 then
        verifyProofMulti rt a.index none x.user a.receivingTokenMint a.receivingAmount
          a.sendingAmount a.proofs s
      else
        verifyProofMulti rt a.index (some a.timestamp) x.user a.receivingTokenMint
          a.receivingAmount a.sendingAmount a.proofs s) =
      verifyLeaf rt a.index
        (Claim.record ⟨x, a.toRedeemTokenArgs, some a.receivingTokenMint⟩ s.timestamp).tryToVec
        a.proofs s := by
  unfold Claim.record
  split
  · rfl
  · rfl

/-- Both entry points check the accounts, then the claim, and then pay. -/
theorem handle_claim {i : Instruction} (h : i.claim? = some cl) :
    handle rt tx b i = (do
      let (v, s) ← cl.tryAccounts rt tx b
      cl.verify rt tx s
      cl.disburse rt tx b v s) := by
  cases i with
  | redeemToken x a =>
    obtain rfl := Option.some.inj h
    simp only [handle, redeemToken, regime_eq, verifyProof_eq, Claim.verify, bind_assoc]
    rfl
  | redeemTokenMulti x a =>
    obtain rfl := Option.some.inj h
    simp only [handle, redeemTokenMulti, regime_eq, verifyProofMulti_eq, Claim.verify, bind_assoc]
    rfl
  | _ => cases h

/-! ## Answers -/

private theorem Claim.schedule?_of_tryAccounts (h : cl.tryAccounts rt tx b = .ok (v, s)) :
    b.schedule? cl.accounts.schedule = some s := by
  have hmulti : RedeemTokenMultiContext.tryAccounts cl.accounts rt tx b = .ok (v, s) := by
    unfold Claim.tryAccounts at h
    split at h
    · exact (redeemTokenAccounts_eq_ok.mp h).1
    · exact h
  exact (redeemAccounts_eq_ok.mp hmulti).2.1

private theorem invokeSigned_error {ix : CpiInstruction} {signerSeeds : List (List Bytes)}
    {f : Failure} (h : invokeSigned rt tx b ix signerSeeds = .error f) :
    f = .invoke := by
  simp only [invokeSigned, bind_eq_error, orFail_eq_error, require_eq_error] at h
  obtain ⟨-, rfl⟩ | ⟨_, -, ⟨-, rfl⟩ | ⟨_, -, ⟨-, rfl⟩ | ⟨_, -, -, rfl⟩⟩⟩ := h
  all_goals rfl

private theorem payFee_error {user : Pubkey} {accounts : List Pubkey} {n : UInt64} {e : ErrorCode}
    (h : payFee rt tx b s user accounts n = .error (.program e)) : e = .invalidAccount := by
  unfold payFee at h
  split at h
  · simp only [bind_eq_error, orFail_eq_error, require_eq_error, reduceCtorEq, and_false, false_or,
      Failure.program.injEq] at h
    obtain ⟨_, -, ⟨-, rfl⟩ | ⟨_, -, _, -, h⟩⟩ := h
    · rfl
    · cases invokeSigned_error h
  · cases h

private theorem Claim.payOut_error {e : ErrorCode}
    (h : cl.payOut rt tx b v s = .error (.program e)) :
    e = .invalidAccount := by
  unfold Claim.payOut at h
  split at h
  · cases invokeSigned_error h
  · split at h
    · cases invokeSigned_error h
    · simp only [bind_eq_error, orFail_eq_error, require_eq_error, reduceCtorEq, and_false,
        false_or, Failure.program.injEq] at h
      obtain ⟨_, -, _, -, ⟨-, rfl⟩ | ⟨_, -, ⟨-, rfl⟩ | ⟨_, -, h⟩⟩⟩ := h
      · rfl
      · rfl
      · cases invokeSigned_error h

private theorem Claim.disburse_error {e : ErrorCode}
    (h : cl.disburse rt tx b v s = .error (.program e)) :
    e = .invalidAccount := by
  simp only [Claim.disburse, bind_eq_error] at h
  obtain h | ⟨_, -, h | ⟨_, -, h⟩⟩ := h
  · exact payFee_error h
  · exact Claim.payOut_error h
  · cases h

private theorem exit_error {o : Outcome} {f : Failure} (h : exit o = .error f) :
    f = .constraint .serialize := by
  unfold exit at h
  split at h
  · cases h
  all_goals
    unfold store at h
    split at h
    · simp only [bind_eq_error, orFail_eq_error] at h
      obtain ⟨-, rfl⟩ | ⟨_, -, h⟩ := h
      · rfl
      · cases h
    · cases h
      rfl

/-- An answer that does not blame an account is that of the checks. -/
private theorem refused_iff {c : Call} {e : ErrorCode} (hcl : c.instruction.claim? = some cl)
    (haccounts : cl.tryAccounts rt c.toTx b = .ok (v, s)) (he : e ≠ .invalidAccount) :
    step rt b c = .error (.program e) ↔ cl.verify rt c.toTx s = .error (.program e) := by
  simp only [step, handle_claim hcl, haccounts, bind_eq_error, bind_eq_ok]
  constructor
  · intro h
    obtain (h | ⟨_, heq, h⟩) | ⟨_, -, h⟩ := h
    · cases h
    · obtain rfl := Except.ok.inj heq
      obtain h | ⟨_, -, h⟩ := h
      · exact h
      · exact absurd (Claim.disburse_error h) he
    · cases exit_error h
  · intro h
    exact .inl (.inr ⟨_, rfl, .inl h⟩)

private theorem wrong_type {c : Call} (hcl : c.instruction.claim? = some cl)
    (haccounts : cl.tryAccounts rt c.toTx b = .ok (v, s)) (htype : s.objType ≠ cl.objType) :
    step rt b c = .error (.program .invalidAccount) := by
  simp only [step, handle_claim hcl, haccounts, bind_eq_error, Claim.verify, verifySchedule,
    require_eq_error]
  exact .inl (.inr ⟨_, rfl, .inl (.inl (.inl ⟨htype, trivial⟩))⟩)

private theorem Claim.verify_error {root : Hash} (hroot : s.merkleRoot = root.bytes)
    (htype : s.objType = cl.objType) {proved : Prop} (hproved : proved ↔
      Shared.verifyProof rt cl.args.proofs root (rt.keccak (cl.record s.timestamp).tryToVec) =
        true) :
    let refused (e : ErrorCode) := cl.verify rt tx s = .error (.program e)
    let unlocked := cl.unlockTime s.timestamp ≤ tx.unixTimestamp
    (refused .scheduleUnavailable ↔ s.isActive = false) ∧
    (refused .scheduleLocked ↔ s.isActive = true ∧ ¬ unlocked) ∧
    (refused .unauthorized ↔ s.isActive = true ∧ unlocked ∧ ¬ proved) ∧
    (refused .redeemed ↔ s.isActive = true ∧ unlocked ∧ proved ∧
      s.redemptions[cl.args.index.toNat]? = some true) := by
  have hlen : s.merkleRoot.length = 32 := by
    rw [hroot]
    exact root.length_bytes
  have hsame : (⟨s.merkleRoot, hlen⟩ : Hash) = root := Bytes32.bytes_injective hroot
  simp [Claim.verify, verifySchedule, verifyLeaf, bind_eq_error, require_eq_error, orFail_eq_error,
    htype, hlen, hsame, hproved]

end

/-! ## Over a run -/

/-- The status that a call sets on the schedule. -/
def Call.statuses (schedule : Pubkey) (_ : Bank) (c : Call) : List Bool :=
  match c.instruction with
  | .setScheduleStatus x isActive => if x.schedule = schedule then [isActive] else []
  | _ => []

/-- A new schedule is active; after a run it is as it was set last. -/
def activeAfter (rt : Runtime) (schedule : Pubkey) (b : Bank) (calls : List Call) : Bool :=
  (log (step rt) (Call.statuses schedule) b calls).getLast?.getD true

section
variable {rt : Runtime} {b : Bank} {schedule : Pubkey}

theorem ScheduleStep.isActive {c : Call} {s s' : Schedule} (h : ScheduleStep rt b c schedule s s') :
    s'.isActive = (c.statuses schedule b).getLast?.getD s.isActive := by
  unfold Call.statuses
  cases h with
  | redeem call =>
    cases hi : c.instruction with
    | setScheduleStatus =>
      rw [hi] at call
      cases call
    | _ => rfl
  | setStatus call target =>
    rw [call]
    simp [target]
  | untouched _ status =>
    cases hi : c.instruction with
    | setScheduleStatus x isActive => simp [status x isActive hi]
    | _ => rfl

private theorem active_run (hrt : rt.Lawful) {s₀ : Schedule} (hs₀ : b.schedule? schedule = some s₀)
    (hactive : s₀.isActive = true) (calls : List Call) :
    ∃ s, (run (step rt) b calls).schedule? schedule = some s ∧
      s.isActive = activeAfter rt schedule b calls := by
  unfold activeAfter
  apply log_induction (P := fun (statuses : List Bool) (b' : Bank) =>
    ∃ s, b'.schedule? schedule = some s ∧ s.isActive = statuses.getLast?.getD true)
  · exact ⟨s₀, hs₀, hactive⟩
  · intro before c _ b' _ hbefore hok
    obtain ⟨s, hs, hstatus⟩ := hbefore
    obtain ⟨s', hs', hstep⟩ := schedule_step hrt hok hs
    refine ⟨s', hs', ?_⟩
    rw [hstep.isActive, hstatus, List.getLast?_append]
    cases (c.statuses schedule (run (step rt) b before)).getLast? <;> rfl

end

/-- From its creation on, over any run, a schedule refuses a claim with the right accounts for
what the run has made of it: it was switched off last, the time has not come, the root does not
prove the record, or the run has redeemed the index before. -/
theorem refusals_tell_why {rt : Runtime} (hrt : rt.Lawful) {b₀ b : Bank} {create : Call}
    {x : CreateScheduleContext} {a : CreateScheduleArgs}
    (hcall : create.instruction = .createSchedule x a) (hcreate : step rt b₀ create = .ok b)
    (calls : List Call) {c : Call} {cl : Claim} (hcl : c.instruction.claim? = some cl)
    (htarget : cl.accounts.schedule = x.schedule) {v : Vault} {s : Schedule}
    (haccounts : cl.tryAccounts rt c.toTx (run (step rt) b calls) = .ok (v, s)) :
    let refused (e : ErrorCode) := step rt (run (step rt) b calls) c = .error (.program e)
    let active := activeAfter rt x.schedule b calls
    let unlocked := cl.unlockTime a.timestamp ≤ c.unixTimestamp
    let proved := Shared.verifyProof rt cl.args.proofs a.merkleRoot
      (rt.keccak (cl.record a.timestamp).tryToVec) = true
    let redeemed := Occurs (step rt) (fun _ c => Redeems x.schedule cl.args.index.toNat c) b calls
    if cl.mint.isSome = a.useMultiToken then
      (refused .scheduleUnavailable ↔ active = false) ∧
      (refused .scheduleLocked ↔ active = true ∧ ¬ unlocked) ∧
      (refused .unauthorized ↔ active = true ∧ unlocked ∧ ¬ proved) ∧
      (refused .redeemed ↔ active = true ∧ unlocked ∧ proved ∧ redeemed)
    else refused .invalidAccount := by
  intro refused active unlocked proved redeemed
  obtain ⟨v₀, bump, -, -, hs₀⟩ := createSchedule_schedule? hrt hcall hcreate
  -- the schedule that the claim finds is the one that the run leaves
  have hs : (run (step rt) b calls).schedule? x.schedule = some s := by
    rw [← htarget]
    exact cl.schedule?_of_tryAccounts haccounts
  obtain ⟨s₁, hs₁, hactive⟩ := active_run hrt hs₀ rfl calls
  obtain rfl := Option.some.inj (hs.symm.trans hs₁)
  obtain ⟨s₂, hs₂, hext⟩ := extends_run hrt hs₀ calls
  obtain rfl := Option.some.inj (hs.symm.trans hs₂)
  have hrecorded := recorded_created hrt hs₀ hs
  have htype : s.objType = cl.objType ↔ cl.mint.isSome = a.useMultiToken := by
    rw [hext.fixed, Claim.objType]
    simp only [CreateScheduleArgs.schedule]
    cases a.useMultiToken <;> cases cl.mint <;> simp
  split
  · rename_i h
    have hproved : proved ↔ Shared.verifyProof rt cl.args.proofs a.merkleRoot
        (rt.keccak (cl.record s.timestamp).tryToVec) = true := by
      rw [hrecorded.timestamp]
      rfl
    have hanswers := @Claim.verify_error rt c.toTx cl s a.merkleRoot hrecorded.merkleRoot
      (htype.mpr h) proved hproved
    simp only [hactive, hrecorded.timestamp, hrecorded.bits] at hanswers
    obtain ⟨hoff, hlocked, hunproved, hredeemed⟩ := hanswers
    exact ⟨(refused_iff hcl haccounts (by decide)).trans hoff,
      (refused_iff hcl haccounts (by decide)).trans hlocked,
      (refused_iff hcl haccounts (by decide)).trans hunproved,
      (refused_iff hcl haccounts (by decide)).trans hredeemed⟩
  · rename_i h
    exact wrong_type hcl haccounts (fun he => h (htype.mp he))

open Reference in
/-- The second try is refused for the first. -/
theorem refusals_tell_why_deployed :
    step runtime (run (step runtime) deployed [redeemFirst]) redeemFirst =
      .error (.program .redeemed) := by
  have haccounts : (firstClaim.tryAccounts runtime redeemFirst.toTx
      (run (step runtime) deployed [redeemFirst])).isOk = true := by
    decide +kernel
  have hfirst : Occurs (step runtime)
      (fun _ c => Redeems schedule firstClaim.args.index.toNat c) deployed [redeemFirst] := by
    refine ⟨[], redeemFirst, [], rfl, by decide +kernel, firstClaim, firstClaim.claim?_instruction,
      ?_, rfl⟩
    simp only [firstClaim]
  cases hread : firstClaim.tryAccounts runtime redeemFirst.toTx
      (run (step runtime) deployed [redeemFirst]) with
  | error e =>
    rw [hread] at haccounts
    cases haccounts
  | ok vs =>
    have hanswers := refusals_tell_why runtime_lawful
      (show openSchedule.instruction = _ from rfl) openSchedule_ok [redeemFirst]
      firstClaim.claim?_instruction (by simp only [firstClaim]) hread
    rw [if_pos (by decide +kernel)] at hanswers
    exact hanswers.2.2.2.mpr ⟨by decide +kernel, by decide +kernel, by decide +kernel, hfirst⟩

/-! ## Authority -/

/-- The accounts of the call pass the checks of its context. -/
def Instruction.AccountsPass (rt : Runtime) (tx : Tx) (b : Bank) : Instruction → Prop
  | .createVault x vaultPath => ∃ r, x.tryAccounts rt tx b vaultPath = .ok r
  | .setVault x _ => ∃ v, x.tryAccounts tx b = .ok v
  | .createSchedule x a => ∃ r, x.tryAccounts rt tx b a.userCount a.eventId = .ok r
  | .setScheduleStatus x _ => ∃ r, x.tryAccounts rt tx b = .ok r
  | .withdrawSol x _ => ∃ v, x.tryAccounts rt tx b = .ok v
  | .withdrawToken x _ => ∃ v, x.tryAccounts rt tx b = .ok v
  | .redeemToken x _ => ∃ r, x.tryAccounts rt tx b = .ok r
  | .redeemTokenMulti x _ => ∃ r, RedeemTokenMultiContext.tryAccounts x rt tx b = .ok r
  | .transferOwnership x _ => ∃ v, x.tryAccounts tx b = .ok v
  | .acceptOwnership x => ∃ v, x.tryAccounts tx b = .ok v

section
variable {rt : Runtime} {tx : Tx} {b : Bank} {i : Instruction} {v : Vault} {k p : Pubkey}

private theorem ownerAccounts_eq_ok :
    (do
      signer tx p
      let vault ← account Vault.layout b k
      writable tx k
      return vault) = .ok v ↔ p ∈ tx.signers ∧ b.vault? k = some v ∧ k ∈ tx.writable := by
  simp only [signer, writable, account, bind_eq_ok, require_eq_ok, orFail_eq_ok, pure_eq_ok,
    exists_const]
  constructor
  · intro h
    obtain ⟨hs, _, hv, hw, rfl⟩ := h
    exact ⟨hs, hv, hw⟩
  · intro h
    obtain ⟨hs, hv, hw⟩ := h
    exact ⟨hs, v, hv, hw, rfl⟩

private theorem createScheduleAccounts_ok (hrt : rt.Lawful) {x : CreateScheduleContext}
    {userCount : UInt16} {eventId : UInt64} {b₁ : Bank} {s : Schedule} {bump : UInt8}
    (h : x.tryAccounts rt tx b userCount eventId = .ok (b₁, v, s, bump)) :
    b.vault? x.vault = some v ∧ (b x.schedule).content = .wallet := by
  simp only [CreateScheduleContext.tryAccounts, signer, writable, account, program, bind_eq_ok,
    require_eq_ok, orFail_eq_ok, pure_eq_ok, exists_const, Prod.exists, Prod.mk.injEq] at h
  obtain ⟨-, -, _, hv, _, _, hinit, _, -, -, rfl, rfl, rfl, rfl⟩ := h
  obtain ⟨-, -, -, hunused, -⟩ := (init_eq_ok hrt).mp hinit
  exact ⟨hv, hunused⟩

private theorem Vault.office_may : v.office.May k ↔ v.IsAdmin k := Iff.rfl

private theorem isOwner_eq_error :
    isOwner k v = .error (.program .unauthorized) ↔ ¬ k = v.owner := by
  simp [isOwner, require_eq_error]

private theorem verifyNewOwner_eq_error :
    verifyNewOwner k v = .error (.program .unauthorized) ↔ ¬ k = v.newOwner := by
  simp [verifyNewOwner, require_eq_error]

private theorem isAdmin_eq_error :
    isAdmin k v = .error (.program .unauthorized) ↔ ¬ v.IsAdmin k := by
  rw [← isAdmin_eq_ok (u := ())]
  unfold isAdmin
  split
  · simp
  · split <;> simp

private theorem unauthorized_iff_guard {guard : Except Failure Unit} {rest : Except Failure Outcome}
    {entitled : Prop} (hhandle : handle rt tx b i = (do guard; rest))
    (hguard : guard = .error (.program .unauthorized) ↔ ¬ entitled)
    (hrest : rest ≠ .error (.program .unauthorized)) :
    step rt b ⟨tx, i⟩ = .error (.program .unauthorized) ↔ ¬ entitled := by
  simp only [step, hhandle, bind_eq_error, hguard, hrest, and_false, exists_false, or_false]
  constructor
  · intro h
    obtain h | ⟨_, -, h⟩ := h
    · exact h
    · cases exit_error h
  · exact Or.inl

private theorem pure_ne_error (o : Outcome) (e : Failure) :
    (pure o : Except Failure Outcome) ≠ .error e := by
  intro h
  cases h

private theorem ne_unauthorized {g : Except Failure Bank} {f : Bank → Outcome}
    (hg : ∀ e, g = .error e → e = .invoke) :
    (do let b' ← g; return f b') ≠ .error (.program .unauthorized) := by
  intro h
  obtain h | ⟨_, -, h⟩ := bind_eq_error.mp h
  · cases hg _ h
  · cases h

/-- Where the accounts are in order, the program asks for the authority that the registry asks
for. -/
private theorem unauthorized_step (hrt : rt.Lawful) (hact : i.act.authority? = some (k, p))
    (haccounts : i.AccountsPass rt tx b) :
    step rt b ⟨tx, i⟩ = .error (.program .unauthorized) ↔
      b.registry.perform systemProgramId i.act = none := by
  cases i with
  | createVault | redeemToken | redeemTokenMulti => cases hact
  | setVault x admins =>
    obtain ⟨v, hx⟩ := haccounts
    have hv : b.vault? x.vault = some v := (ownerAccounts_eq_ok.mp hx).2.1
    have hhandle : handle rt tx b (.setVault x admins) = (do
        isOwner x.owner v
        return ⟨b, some (x.vault, .vault { v with admins })⟩) := by
      simp only [handle, setVault, hx]
      rfl
    rw [unauthorized_iff_guard hhandle isOwner_eq_error (pure_ne_error _ _)]
    simp [Instruction.act, Registry.perform, registry_office? hv, Vault.office]
  | createSchedule x a =>
    obtain ⟨⟨b₁, v, s, bump⟩, hx⟩ := haccounts
    obtain ⟨hv, hunused⟩ := createScheduleAccounts_ok hrt hx
    have hhandle : handle rt tx b (.createSchedule x a) = (do
        isAdmin x.admin v
        return ⟨b₁, some (x.schedule, .schedule (a.schedule x.vault bump))⟩) := by
      simp only [handle, createSchedule, hx]
      rfl
    rw [unauthorized_iff_guard hhandle isAdmin_eq_error (pure_ne_error _ _)]
    simp [Instruction.act, Registry.perform, registry_office? hv, registry_unused hunused,
      Vault.office_may]
  | setScheduleStatus x isActive =>
    obtain ⟨⟨v, s⟩, hx⟩ := haccounts
    obtain ⟨-, hv, hs, -, hlink⟩ := setScheduleAccounts_eq_ok.mp hx
    have hhandle : handle rt tx b (.setScheduleStatus x isActive) = (do
        isAdmin x.admin v
        return ⟨b, some (x.schedule, .schedule { s with isActive })⟩) := by
      simp only [handle, setScheduleStatus, hx]
      rfl
    rw [unauthorized_iff_guard hhandle isAdmin_eq_error (pure_ne_error _ _)]
    simp [Instruction.act, Registry.perform, registry_office? hv, registry_listing? hs,
      show s.listing.office = x.vault from hlink, Vault.office_may]
  | withdrawSol x amount =>
    obtain ⟨v, hx⟩ := haccounts
    obtain ⟨-, hv, -⟩ := withdrawSolAccounts_eq_ok.mp hx
    have hhandle : handle rt tx b (.withdrawSol x amount) = (do
        isAdmin x.admin v
        let b' ← transferLamport rt tx b x.vaultSigner x.recipient amount [signerSeeds x.vault v]
        return ⟨b', none⟩) := by
      simp only [handle, withdrawSol, hx]
      rfl
    rw [unauthorized_iff_guard hhandle isAdmin_eq_error
      (ne_unauthorized fun _ h => invokeSigned_error h)]
    simp [Instruction.act, Registry.perform, registry_office? hv, Vault.office_may]
  | withdrawToken x amount =>
    obtain ⟨v, hx⟩ := haccounts
    obtain ⟨-, hv, -⟩ := withdrawTokenAccounts_eq_ok.mp hx
    have hhandle : handle rt tx b (.withdrawToken x amount) = (do
        isAdmin x.admin v
        let b' ← transferToken rt tx b x.vaultSigner x.sender x.recipient amount
          [signerSeeds x.vault v]
        return ⟨b', none⟩) := by
      simp only [handle, withdrawToken, hx]
      rfl
    rw [unauthorized_iff_guard hhandle isAdmin_eq_error
      (ne_unauthorized fun _ h => invokeSigned_error h)]
    simp [Instruction.act, Registry.perform, registry_office? hv, Vault.office_may]
  | transferOwnership x newOwner =>
    obtain ⟨v, hx⟩ := haccounts
    have hv : b.vault? x.vault = some v := (ownerAccounts_eq_ok.mp hx).2.1
    have hhandle : handle rt tx b (.transferOwnership x newOwner) = (do
        isOwner x.owner v
        return ⟨b, some (x.vault, .vault { v with newOwner })⟩) := by
      simp only [handle, transferOwnership, hx]
      rfl
    rw [unauthorized_iff_guard hhandle isOwner_eq_error (pure_ne_error _ _)]
    simp [Instruction.act, Registry.perform, registry_office? hv, Vault.office]
  | acceptOwnership x =>
    obtain ⟨v, hx⟩ := haccounts
    have hv : b.vault? x.vault = some v := (ownerAccounts_eq_ok.mp hx).2.1
    have hhandle : handle rt tx b (.acceptOwnership x) = (do
        verifyNewOwner x.newOwner v
        return ⟨b, some (x.vault,
          .vault { v with owner := v.newOwner, newOwner := systemProgramId })⟩) := by
      simp only [handle, acceptOwnership, hx]
      rfl
    rw [unauthorized_iff_guard hhandle verifyNewOwner_eq_error (pure_ne_error _ _)]
    simp [Instruction.act, Registry.perform, registry_office? hv, Vault.office]

end

/-- After any run, a call for which somebody must have authority over a vault is refused for lack of
it, if its accounts are in order, exactly where the registry of the run refuses its act. -/
theorem authority_decided_by_registry {rt : Runtime} (hrt : rt.Lawful) {b : Bank}
    (hempty : ∀ k d, (b k).content ≠ .program d) (calls : List Call) {c : Call} {vault p : Pubkey}
    (hact : c.instruction.act.authority? = some (vault, p))
    (haccounts : c.instruction.AccountsPass rt c.toTx (run (step rt) b calls)) :
    ∃ r, Registry.replay systemProgramId ⟨fun _ => none, b.balance⟩ (registryEvents rt b calls) =
        some r ∧
      (step rt (run (step rt) b calls) c = .error (.program .unauthorized) ↔
        r.perform systemProgramId c.instruction.act = none) := by
  have hreplay := replay_run hrt b calls
  rw [registry_of_unused hempty] at hreplay
  exact ⟨_, hreplay, unauthorized_step hrt hact haccounts⟩

open Reference in
/-- The owner names an admin, as the registry allows. -/
theorem authority_decided_by_registry_deployed :
    ∃ r, Registry.replay systemProgramId ⟨fun _ => none, genesis.balance⟩
        (registryEvents runtime genesis [openVault]) = some r ∧
      r.perform systemProgramId (setAdmins [user]).instruction.act ≠ none := by
  have hv : (run (step runtime) genesis [openVault]).vault? vault =
      some ⟨.vault, 255, owner, systemProgramId, []⟩ := by
    decide +kernel
  have hok : Succeeds (step runtime) (run (step runtime) genesis [openVault])
      (setAdmins [user]) := by
    decide +kernel
  obtain ⟨r, hreplay, hrefused⟩ := @authority_decided_by_registry runtime runtime_lawful genesis
    genesis_unused [openVault] (setAdmins [user]) vault owner rfl
    ⟨_, ownerAccounts_eq_ok.mpr ⟨List.mem_singleton_self owner, hv, List.mem_singleton_self vault⟩⟩
  refine ⟨r, hreplay, ?_⟩
  intro hnone
  exact not_succeeds_of_error (hrefused.mpr hnone) hok

end Coin98Vault

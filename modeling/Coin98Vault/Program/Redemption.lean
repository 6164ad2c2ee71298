import Coin98Vault.Program.Instructions

/-!
# Redemptions by either entry point

`redeem_token` and `redeem_token_multi` differ in the record they hash, in the mint they pay
and in the accounts they check.  A `Claim` covers both, and one lemma says when the program
accepts it and what it then does.
-/

namespace Coin98Vault

/-- A redemption record in one of the four layouts. -/
inductive Record where
  | single (r : RedemptionParams)
  | singleV2 (r : RedemptionParamsV2)
  | multi (r : RedemptionMultiParams)
  | multiV2 (r : RedemptionMultiParamsV2)
  deriving DecidableEq

namespace Record

def tryToVec : Record → Bytes
  | single r => RedemptionParams.codec.encode r
  | singleV2 r => RedemptionParamsV2.codec.encode r
  | multi r => RedemptionMultiParams.codec.encode r
  | multiV2 r => RedemptionMultiParamsV2.codec.encode r

def index : Record → UInt16
  | single r => r.index
  | singleV2 r => r.index
  | multi r => r.index
  | multiV2 r => r.index

def address : Record → Pubkey
  | single r => r.address
  | singleV2 r => r.address
  | multi r => r.address
  | multiV2 r => r.address

def receivingAmount : Record → UInt64
  | single r => r.receivingAmount
  | singleV2 r => r.receivingAmount
  | multi r => r.receivingAmount
  | multiV2 r => r.receivingAmount

def sendingAmount : Record → UInt64
  | single r => r.sendingAmount
  | singleV2 r => r.sendingAmount
  | multi r => r.sendingAmount
  | multiV2 r => r.sendingAmount

/-- The mint a record of the multi-token layouts names. -/
def mint? : Record → Option Pubkey
  | single _ => none
  | singleV2 _ => none
  | multi r => some r.receivingTokenMint
  | multiV2 r => some r.receivingTokenMint

/-- The unlock time a record of the second layouts carries. -/
def timestamp? : Record → Option Int64
  | single _ => none
  | singleV2 r => some r.timestamp
  | multi _ => none
  | multiV2 r => some r.timestamp

end Record

/-- A call of either redemption entry point; `mint` is given on the multi-token one. -/
structure Claim where
  accounts : RedeemTokenContext
  args : RedeemTokenArgs
  mint : Option Pubkey

def Instruction.claim? : Instruction → Option Claim
  | .redeemToken x a => some ⟨x, a, none⟩
  | .redeemTokenMulti x a => some ⟨x, a.toRedeemTokenArgs, some a.receivingTokenMint⟩
  | _ => none

namespace Claim

def instruction (cl : Claim) : Instruction :=
  match cl.mint with
  | none => .redeemToken cl.accounts cl.args
  | some receivingTokenMint => .redeemTokenMulti cl.accounts { cl.args with receivingTokenMint }

def objType (cl : Claim) : ObjType :=
  if cl.mint.isSome then .distributionMulti else .distribution

/-- The record a claim hashes: the first layout of its entry point when the schedule has a
timestamp, the second one otherwise. -/
def record (cl : Claim) (scheduleTimestamp : Int64) : Record :=
  let a := cl.args
  let user := cl.accounts.user
  if scheduleTimestamp > 0 then
    match cl.mint with
    | none => .single ⟨a.index, user, a.receivingAmount, a.sendingAmount⟩
    | some mint => .multi ⟨a.index, user, mint, a.receivingAmount, a.sendingAmount⟩
  else
    match cl.mint with
    | none => .singleV2 ⟨a.index, a.timestamp, user, a.receivingAmount, a.sendingAmount⟩
    | some mint => .multiV2 ⟨a.index, a.timestamp, user, mint, a.receivingAmount, a.sendingAmount⟩

/-- The time a claim is checked against. -/
def unlockTime (cl : Claim) (scheduleTimestamp : Int64) : Int64 :=
  if scheduleTimestamp > 0 then scheduleTimestamp else cl.args.timestamp

/-- The mint a claim is paid in. -/
def paidMint (cl : Claim) (s : Schedule) : Pubkey := cl.mint.getD s.receivingTokenMint

@[simp] theorem claim?_instruction (cl : Claim) : cl.instruction.claim? = some cl := by
  obtain ⟨x, a, mint⟩ := cl
  cases mint <;> rfl

@[simp] theorem record_index (cl : Claim) (t : Int64) : (cl.record t).index = cl.args.index := by
  unfold record; dsimp only; split <;> split <;> rfl

@[simp] theorem record_address (cl : Claim) (t : Int64) :
    (cl.record t).address = cl.accounts.user := by
  unfold record; dsimp only; split <;> split <;> rfl

@[simp] theorem record_receivingAmount (cl : Claim) (t : Int64) :
    (cl.record t).receivingAmount = cl.args.receivingAmount := by
  unfold record; dsimp only; split <;> split <;> rfl

@[simp] theorem record_sendingAmount (cl : Claim) (t : Int64) :
    (cl.record t).sendingAmount = cl.args.sendingAmount := by
  unfold record; dsimp only; split <;> split <;> rfl

@[simp] theorem record_mint? (cl : Claim) (t : Int64) : (cl.record t).mint? = cl.mint := by
  obtain ⟨x, a, mint⟩ := cl
  unfold record; dsimp only; cases mint <;> split <;> rfl

theorem record_timestamp? (cl : Claim) (t : Int64) :
    (cl.record t).timestamp? = if t > 0 then none else some cl.args.timestamp := by
  unfold record; dsimp only
  split <;> split <;> rfl

end Claim

def Schedule.redeem (s : Schedule) (index : UInt16) : Schedule :=
  { s with redemptions := s.redemptions.set index.toNat true }

/-- The proof of a record against the root of a schedule, and the bit of its index. -/
def Schedule.Proves (rt : Runtime) (s : Schedule) (index : UInt16) (data : Bytes)
    (proofs : List Hash) : Prop :=
  ∃ h : s.merkleRoot.length = 32,
    Shared.verifyProof rt proofs ⟨s.merkleRoot, h⟩ (rt.keccak data) = true ∧
      s.redemptions[index.toNat]? = some false

theorem verifyLeaf_eq_ok {rt : Runtime} {index : UInt16} {data : Bytes} {proofs : List Hash}
    {s : Schedule} {u : Unit} :
    verifyLeaf rt index data proofs s = .ok u ↔ s.Proves rt index data proofs := by
  simp only [verifyLeaf, bind_eq_ok, orFail_eq_ok, require_eq_ok, exists_const,
    Schedule.Proves]
  constructor
  · rintro ⟨root, hroot, hproof, redeemed, hbit, rfl⟩
    split at hroot
    · rename_i h
      obtain rfl := Option.some.inj hroot
      exact ⟨h, hproof, hbit⟩
    · simp at hroot
  · rintro ⟨h, hproof, hbit⟩
    exact ⟨⟨s.merkleRoot, h⟩, by rw [dif_pos h], hproof, false, hbit, rfl⟩

theorem verifySchedule_eq_ok {s : Schedule} {t : ObjType} {u : Unit} :
    verifySchedule s t = .ok u ↔ s.objType = t ∧ s.isActive = true := by
  simp only [verifySchedule, bind_eq_ok, require_eq_ok, exists_const]

theorem scheduleOf_eq_ok {rt : Runtime} {tx : Tx} {b : Bank} {vault k : Pubkey} {s : Schedule} :
    scheduleOf rt tx b vault k = .ok s ↔
      b.schedule? k = some s ∧ k ∈ tx.writable ∧
      rt.createProgramAddress [scheduleSeed1, deriveEventId s.eventId, [s.nonce]] = some k ∧
      s.vaultId = vault := by
  simp only [scheduleOf, account, writable, seedsWithBump, bind_eq_ok, orFail_eq_ok,
    require_eq_ok, pure_eq_ok, exists_const, List.cons_append, List.nil_append]
  constructor
  · rintro ⟨s', h, hw, hk, hv, rfl⟩
    exact ⟨h, hw, hk, hv⟩
  · rintro ⟨h, hw, hk, hv⟩
    exact ⟨s, h, hw, hk, hv, rfl⟩

namespace Claim

/-- Everything a claim is checked for before money moves. -/
structure Admitted (cl : Claim) (rt : Runtime) (tx : Tx) (b : Bank) (v : Vault) (s : Schedule) :
    Prop where
  vault : b.vault? cl.accounts.vault = some v
  schedule : b.schedule? cl.accounts.schedule = some s
  scheduleWritable : cl.accounts.schedule ∈ tx.writable
  scheduleSeeds :
    rt.createProgramAddress [scheduleSeed1, deriveEventId s.eventId, [s.nonce]] =
      some cl.accounts.schedule
  link : s.vaultId = cl.accounts.vault
  vaultSigner :
    rt.createProgramAddress (signerSeeds cl.accounts.vault v) = some cl.accounts.vaultSigner
  vaultToken0Writable : cl.accounts.vaultToken0 ∈ tx.writable
  user : cl.accounts.user ∈ tx.signers
  userToken0Writable : cl.accounts.userToken0 ∈ tx.writable
  tokenProgram : cl.accounts.tokenProgram = tokenProgramId
  systemProgram : cl.accounts.systemProgram = systemProgramId
  pinned : cl.mint = none → cl.accounts.vaultToken0 = s.receivingTokenAccount
  type : s.objType = cl.objType
  active : s.isActive = true
  unlocked : cl.unlockTime s.timestamp ≤ tx.unixTimestamp
  proves : s.Proves rt cl.args.index (cl.record s.timestamp).tryToVec cl.args.proofs

/-- The payout, after the fee. -/
def payOut (cl : Claim) (rt : Runtime) (tx : Tx) (b : Bank) (v : Vault) (s : Schedule) :
    Except Failure Bank :=
  let x := cl.accounts
  let seeds := signerSeeds x.vault v
  if cl.paidMint s = systemProgramId then
    transferLamport rt tx b x.vaultSigner x.user cl.args.receivingAmount [seeds]
  else
    match cl.mint with
    | none => transferToken rt tx b x.vaultSigner x.vaultToken0 x.userToken0
        cl.args.receivingAmount [seeds]
    | some receivingTokenMint => do
      let vaultToken0Account ← orFail .panic (unpackTokenAccount b x.vaultToken0)
      let userToken0Account ← orFail .panic (unpackTokenAccount b x.userToken0)
      require (vaultToken0Account.mint = receivingTokenMint) (.program .invalidAccount)
      require (userToken0Account.mint = receivingTokenMint) (.program .invalidAccount)
      transferToken rt tx b x.vaultSigner x.vaultToken0 x.userToken0 cl.args.receivingAmount
        [seeds]

end Claim

theorem redeemAccounts_eq_ok {x : RedeemTokenMultiContext} {rt : Runtime} {tx : Tx} {b : Bank}
    {v : Vault} {s : Schedule} :
    RedeemTokenMultiContext.tryAccounts x rt tx b = .ok (v, s) ↔
      b.vault? x.vault = some v ∧ b.schedule? x.schedule = some s ∧ x.schedule ∈ tx.writable ∧
      rt.createProgramAddress [scheduleSeed1, deriveEventId s.eventId, [s.nonce]] =
        some x.schedule ∧
      s.vaultId = x.vault ∧
      rt.createProgramAddress (signerSeeds x.vault v) = some x.vaultSigner ∧
      x.vaultToken0 ∈ tx.writable ∧ x.user ∈ tx.signers ∧ x.userToken0 ∈ tx.writable ∧
      x.tokenProgram = tokenProgramId ∧ x.systemProgram = systemProgramId := by
  simp only [RedeemTokenMultiContext.tryAccounts, account, vaultSignerOf, seedsWithBump, writable,
    signer, program, signerSeeds, bind_eq_ok, orFail_eq_ok, require_eq_ok,
    pure_eq_ok, exists_const, scheduleOf_eq_ok, List.cons_append, List.nil_append, Prod.mk.injEq]
  constructor
  · rintro ⟨v', hv, s', ⟨hs, hsw, hsk, hlink⟩, hvs, h0, hu, h1, ht, hp, rfl, rfl⟩
    exact ⟨hv, hs, hsw, hsk, hlink, hvs, h0, hu, h1, ht, hp⟩
  · rintro ⟨hv, hs, hsw, hsk, hlink, hvs, h0, hu, h1, ht, hp⟩
    exact ⟨v, hv, s, ⟨hs, hsw, hsk, hlink⟩, hvs, h0, hu, h1, ht, hp, rfl, rfl⟩

/-- The single-token context also pins the account that pays. -/
theorem redeemTokenAccounts_eq_ok {x : RedeemTokenContext} {rt : Runtime} {tx : Tx} {b : Bank}
    {v : Vault} {s : Schedule} :
    RedeemTokenContext.tryAccounts x rt tx b = .ok (v, s) ↔
      RedeemTokenMultiContext.tryAccounts x rt tx b = .ok (v, s) ∧
        x.vaultToken0 = s.receivingTokenAccount := by
  simp only [RedeemTokenContext.tryAccounts, bind_eq_ok, require_eq_ok, pure_eq_ok, exists_const,
    Prod.exists, Prod.mk.injEq]
  constructor
  · rintro ⟨_, _, hok, hpin, rfl, rfl⟩
    exact ⟨hok, hpin⟩
  · rintro ⟨hok, hpin⟩
    exact ⟨v, s, hok, hpin, rfl, rfl⟩

private theorem regime_eq_ok {t timestamp clock : Int64} {e : Failure}
    {first second : Except Failure Unit} {u : Unit} :
    (if t > 0 then do require (clock ≥ t) e; first
      else do require (clock ≥ timestamp) e; second) = .ok u ↔
      (if t > 0 then t else timestamp) ≤ clock ∧ (if t > 0 then first else second) = .ok u := by
  split <;> simp only [bind_eq_ok, require_eq_ok, exists_const, ge_iff_le]

private theorem verifyProof_eq_ok {rt : Runtime} {x : RedeemTokenContext} {a : RedeemTokenArgs}
    {s : Schedule} {u : Unit} :
    (if s.timestamp > 0 then
        verifyProof rt a.index none x.user a.receivingAmount a.sendingAmount a.proofs s
      else
        verifyProof rt a.index (some a.timestamp) x.user a.receivingAmount a.sendingAmount a.proofs
          s) = .ok u ↔
      s.Proves rt a.index (Claim.record ⟨x, a, none⟩ s.timestamp).tryToVec a.proofs := by
  unfold Claim.record
  split <;> exact verifyLeaf_eq_ok

private theorem verifyProofMulti_eq_ok {rt : Runtime} {x : RedeemTokenContext}
    {a : RedeemTokenMultiArgs} {s : Schedule} {u : Unit} :
    (if s.timestamp > 0 then
        verifyProofMulti rt a.index none x.user a.receivingTokenMint a.receivingAmount
          a.sendingAmount a.proofs s
      else
        verifyProofMulti rt a.index (some a.timestamp) x.user a.receivingTokenMint
          a.receivingAmount a.sendingAmount a.proofs s) = .ok u ↔
      s.Proves rt a.index
        (Claim.record ⟨x, a.toRedeemTokenArgs, some a.receivingTokenMint⟩ s.timestamp).tryToVec
        a.proofs := by
  unfold Claim.record
  split <;> exact verifyLeaf_eq_ok

/-- When a claim is accepted and what it does: the fee, the payout, the bit. -/
def Claim.Runs (cl : Claim) (rt : Runtime) (tx : Tx) (b : Bank) (o : Outcome) : Prop :=
  ∃ v s b₁ b₂, cl.Admitted rt tx b v s ∧
    payFee rt tx b s cl.accounts.user cl.accounts.remainingAccounts cl.args.sendingAmount =
      .ok b₁ ∧
    cl.payOut rt tx b₁ v s = .ok b₂ ∧
    o = ⟨b₂, some (cl.accounts.schedule, .schedule (s.redeem cl.args.index))⟩

theorem redeemToken_eq_ok {rt : Runtime} {tx : Tx} {b : Bank} {x : RedeemTokenContext}
    {a : RedeemTokenArgs} {o : Outcome} :
    redeemToken rt tx b x a = .ok o ↔ Claim.Runs ⟨x, a, none⟩ rt tx b o := by
  simp only [redeemToken, bind_eq_ok, pure_eq_ok, exists_const, Prod.exists,
    redeemTokenAccounts_eq_ok, redeemAccounts_eq_ok, verifySchedule_eq_ok, regime_eq_ok,
    verifyProof_eq_ok]
  constructor
  · rintro ⟨v, s, ⟨⟨hv, hs, hsw, hsk, hlink, hvs, h0, hu, h1, ht, hp⟩, hpin⟩, ⟨htype, hact⟩,
      ⟨hclock, hleaf⟩, b₁, hfee, b₂, hpay, rfl⟩
    exact ⟨v, s, b₁, b₂, ⟨hv, hs, hsw, hsk, hlink, hvs, h0, hu, h1, ht, hp, fun _ => hpin,
      htype, hact, hclock, hleaf⟩, hfee, hpay, rfl⟩
  · rintro ⟨v, s, b₁, b₂, h, hfee, hpay, rfl⟩
    exact ⟨v, s, ⟨⟨h.vault, h.schedule, h.scheduleWritable, h.scheduleSeeds, h.link,
      h.vaultSigner, h.vaultToken0Writable, h.user, h.userToken0Writable, h.tokenProgram,
      h.systemProgram⟩, h.pinned rfl⟩, ⟨h.type, h.active⟩, ⟨h.unlocked, h.proves⟩,
      b₁, hfee, b₂, hpay, rfl⟩

theorem redeemTokenMulti_eq_ok {rt : Runtime} {tx : Tx} {b : Bank} {x : RedeemTokenMultiContext}
    {a : RedeemTokenMultiArgs} {o : Outcome} :
    redeemTokenMulti rt tx b x a = .ok o ↔
      Claim.Runs ⟨x, a.toRedeemTokenArgs, some a.receivingTokenMint⟩ rt tx b o := by
  simp only [redeemTokenMulti, bind_eq_ok, pure_eq_ok, exists_const, Prod.exists,
    redeemAccounts_eq_ok, verifySchedule_eq_ok, regime_eq_ok, verifyProofMulti_eq_ok]
  constructor
  · rintro ⟨v, s, ⟨hv, hs, hsw, hsk, hlink, hvs, h0, hu, h1, ht, hp⟩, ⟨htype, hact⟩,
      ⟨hclock, hleaf⟩, b₁, hfee, b₂, hpay, rfl⟩
    exact ⟨v, s, b₁, b₂, ⟨hv, hs, hsw, hsk, hlink, hvs, h0, hu, h1, ht, hp, by simp, htype, hact,
      hclock, hleaf⟩, hfee, hpay, rfl⟩
  · rintro ⟨v, s, b₁, b₂, h, hfee, hpay, rfl⟩
    exact ⟨v, s, ⟨h.vault, h.schedule, h.scheduleWritable, h.scheduleSeeds, h.link, h.vaultSigner,
      h.vaultToken0Writable, h.user, h.userToken0Writable, h.tokenProgram, h.systemProgram⟩,
      ⟨h.type, h.active⟩, ⟨h.unlocked, h.proves⟩, b₁, hfee, b₂, hpay, rfl⟩

/-- Both entry points run claims. -/
theorem handle_claim_eq_ok {rt : Runtime} {tx : Tx} {b : Bank} {i : Instruction} {cl : Claim}
    {o : Outcome} (h : i.claim? = some cl) : handle rt tx b i = .ok o ↔ cl.Runs rt tx b o := by
  cases i <;> simp only [Instruction.claim?, reduceCtorEq, Option.some.injEq] at h <;> subst h
  · exact redeemToken_eq_ok
  · exact redeemTokenMulti_eq_ok

end Coin98Vault

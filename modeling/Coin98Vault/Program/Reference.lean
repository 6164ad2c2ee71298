import Coin98Vault.Framework.Trace
import Coin98Vault.Program.MerkleProof
import Coin98Vault.Program.Transfers

/-!
# A runtime to run the program on

An executable runtime whose foreign programs keep their promises, so that what is proved of
every lawful runtime can be run.
-/

namespace Coin98Vault.Reference

/-- The digits of a string in base 257, cut to 256 bits. -/
def hash (d : Bytes) : Hash :=
  Bytes32.ofNat (d.foldl (fun h x => (h * 257 + x.toNat + 1) % 2 ^ 256) 0)

/-- Keys of a single byte stand for those on the curve. -/
def onCurve (k : Pubkey) : Bool := (k.bytes.drop 1).all (· == 0)

def debit (t : TokenAccount) (authority : Pubkey) (n : Nat) : TokenAccount :=
  if t.delegate = some authority then
    { t with
      amount := t.amount - n
      delegatedAmount := t.delegatedAmount - n
      delegate := if t.delegatedAmount = n then none else t.delegate }
  else { t with amount := t.amount - n }

def credit (t : TokenAccount) (n : Nat) : TokenAccount := { t with amount := t.amount + n }

def Transferable (b : Bank) (authority : Pubkey) (s t : TokenAccount) (n : Nat) : Prop :=
  s.mint = t.mint ∧ s.CanDebit authority n ∧ n ≤ s.amount ∧ s.state = .initialized ∧
    t.state = .initialized ∧ (b authority).content ≠ .multisig

instance (b : Bank) (authority : Pubkey) (s t : TokenAccount) (n : Nat) :
    Decidable (Transferable b authority s t n) := by
  unfold Transferable; infer_instance

/-- The token program's `Transfer`: one to the account itself changes nothing. -/
def transfer (b : Bank) (authority source target : Pubkey) (n : Nat) : Option Bank :=
  match b.token? source, b.token? target with
  | some s, some t =>
    if Transferable b authority s t n then
      if source = target then some b
      else some ((b.setContent source (.token (debit s authority n))).setContent target
        (.token (credit t n)))
    else none
  | _, _ => none

def systemTransfer (b : Bank) (source target : Pubkey) (n : Nat) : Option Bank :=
  if (b source).content = .wallet ∧ n ≤ (b source).lamports then some (b.moveLamports source target n)
  else none

/-- Both foreign programs read the instruction they are sent. -/
def process (b : Bank) (ix : CpiInstruction) : Option Bank :=
  match ix.accounts with
  | [source, target, owner] =>
    match TransferTokenParams.codec.decode ix.data with
    | some (params, _) =>
      if ix.programId = tokenProgramId ∧ params.instruction = 3 then
        transfer b owner.pubkey source.pubkey target.pubkey params.amount.toNat
      else none
    | none => none
  | [source, target] =>
    match Codec.u64.decode (ix.data.drop 4) with
    | some (lamports, _) =>
      if ix.programId = systemProgramId ∧ ix.data.take 4 = [2, 0, 0, 0] then
        systemTransfer b source.pubkey target.pubkey lamports.toNat
      else none
    | none => none
  | _ => none

def runtime : Runtime where
  keccak := hash
  sha256 := hash
  onCurve := onCurve
  programId := Bytes32.ofNat 200
  minimumBalance _ := 1
  reserved k := k == systemProgramId || k == Bytes32.ofNat 200
  process := process

private theorem process_tokenTransfer (b : Bank) (authority source target : Pubkey)
    (amount : UInt64) :
    process b (tokenTransfer authority source target amount) =
      transfer b authority source target amount.toNat := by
  have hdecode : TransferTokenParams.codec.decode (TransferTokenParams.codec.encode ⟨3, amount⟩) =
      some (⟨3, amount⟩, []) := by
    simpa using TransferTokenParams.codec.decode_encode (a := ⟨3, amount⟩) rfl []
  simp [process, tokenTransfer, hdecode]

private theorem process_systemTransfer (b : Bank) (source target : Pubkey) (lamports : UInt64) :
    process b (Coin98Vault.systemTransfer source target lamports) =
      systemTransfer b source target lamports.toNat := by
  have hdecode : Codec.u64.decode (Codec.u64.encode lamports) = some (lamports, []) := by
    simpa using Codec.u64.decode_encode (a := lamports) rfl []
  simp [process, Coin98Vault.systemTransfer, hdecode]

private theorem transfer_eq_some {b b' : Bank} {authority source target : Pubkey} {n : Nat} :
    transfer b authority source target n = some b' ↔
      ∃ s t, b.token? source = some s ∧ b.token? target = some t ∧
        Transferable b authority s t n ∧
        b' = if source = target then b
          else (b.setContent source (.token (debit s authority n))).setContent target
            (.token (credit t n)) := by
  unfold transfer
  split
  · rename_i s t hs ht
    simp only [hs, ht, Option.some.injEq]
    constructor
    · intro h
      split at h
      · rename_i hok
        refine ⟨s, t, rfl, rfl, hok, ?_⟩
        split at h <;> simp_all
      · simp at h
    · rintro ⟨_, _, rfl, rfl, hok, rfl⟩
      rw [if_pos hok]
      split <;> rfl
  · rename_i hno
    simp only [reduceCtorEq, false_iff]
    rintro ⟨s, t, hs, ht, -⟩
    exact hno s t hs ht

private theorem debit_spec (t : TokenAccount) (authority : Pubkey) (n : Nat) :
    (debit t authority n).amount = t.amount - n ∧ t.Evolves (debit t authority n) ∧
      (t.delegate = some authority ∨
        debit t authority n = { t with amount := (debit t authority n).amount }) := by
  unfold debit
  split
  · rename_i h
    refine ⟨rfl, ⟨rfl, rfl, rfl, ?_⟩, .inl h⟩
    dsimp only
    split
    · exact .inr rfl
    · exact .inl rfl
  · exact ⟨rfl, ⟨rfl, rfl, rfl, .inl rfl⟩, .inr rfl⟩

private theorem token_laws : TokenProgramLaws process where
  requires h := by
    rw [process_tokenTransfer] at h
    obtain ⟨s, t, hs, ht, ⟨hm, hd, hle, hss, hts, hmulti⟩, -⟩ := transfer_eq_some.mp h
    exact ⟨s, t, hs, ht, hm, hd, hle, hss, hts, hmulti⟩
  moves {b b' authority source target amount k t} h hk := by
    rw [process_tokenTransfer] at h
    obtain ⟨s, u, hs, hu, ⟨-, -, hle, -⟩, rfl⟩ := transfer_eq_some.mp h
    split
    · rename_i he
      subst he
      exact ⟨t, hk, rfl, rfl, rfl, rfl, .inl rfl, .inr rfl⟩
    · rename_i hne
      by_cases hkt : k = target
      · subst hkt
        obtain rfl : u = t := Option.some.inj (hu.symm.trans hk)
        refine ⟨credit u amount.toNat, by simp [Bank.token?], ?_, rfl, rfl, rfl, .inl rfl,
          .inr rfl⟩
        simp [credit, Ne.symm hne]
      · by_cases hks : k = source
        · subst hks
          obtain rfl : s = t := Option.some.inj (hs.symm.trans hk)
          obtain ⟨hamount, hev, hsame⟩ := debit_spec s authority amount.toNat
          refine ⟨debit s authority amount.toNat, ?_, ?_, hev.mint, hev.owner, hev.state,
            hev.delegate, hsame.imp_left fun hd => ⟨rfl, hd⟩⟩
          · rw [Bank.token?, Bank.setContent_of_ne _ _ hkt]
            simp
          · rw [if_pos rfl, if_neg hkt, hamount]
            omega
        · refine ⟨t, ?_, by simp [hks, hkt], rfl, rfl, rfl, .inl rfl, .inr rfl⟩
          rw [Bank.token?, Bank.setContent_of_ne _ _ hkt, Bank.setContent_of_ne _ _ hks]
          exact hk
  frame {b b' authority source target amount k} h hs ht := by
    rw [process_tokenTransfer] at h
    obtain ⟨_, _, -, -, -, rfl⟩ := transfer_eq_some.mp h
    split
    · rfl
    · rw [Bank.setContent_of_ne _ _ ht, Bank.setContent_of_ne _ _ hs]
  lamports h k := by
    rw [process_tokenTransfer] at h
    obtain ⟨_, _, -, -, -, rfl⟩ := transfer_eq_some.mp h
    split <;> simp
  accepts hs ht hm hd hle hss hts hmulti := by
    rw [process_tokenTransfer]
    exact ⟨_, transfer_eq_some.mpr ⟨_, _, hs, ht, ⟨hm, hd, hle, hss, hts, hmulti⟩, rfl⟩⟩

private theorem system_law : SystemProgramLaw process := fun b b' source target lamports => by
  rw [process_systemTransfer, systemTransfer]
  split
  · rename_i h
    simp [h, eq_comm]
  · rename_i h
    simp only [reduceCtorEq, false_iff]
    exact fun hc => h ⟨hc.1, hc.2.1⟩

theorem runtime_lawful : runtime.Lawful := ⟨token_laws, system_law⟩

/-- No seeds lead to a key on the curve. -/
theorem not_isDerived {k : Pubkey} (h : onCurve k = true) : ¬ runtime.IsDerived k := by
  rintro ⟨seeds, hk⟩
  have hoff := (runtime.createProgramAddress_eq_some.mp hk).1.2.2
  rw [show runtime.onCurve k = true from h] at hoff
  exact absurd hoff (by decide)

theorem underived_signers {calls : List Call}
    (h : calls.all (fun c => c.signers.all onCurve) = true) :
    ∀ c ∈ calls, ∀ k ∈ c.signers, ¬ runtime.IsDerived k := by
  intro c hc k hk
  apply not_isDerived
  exact List.all_eq_true.mp (List.all_eq_true.mp h c hc) k hk

/-! ## A small deployment

A vault with a schedule of two records in the first layout, a token account that pays and one
that collects fees. -/

def key (n : Nat) : Pubkey := Bytes32.ofNat n

/-- The canonical address of some seeds. -/
def address (seeds : List Bytes) : Pubkey :=
  ((runtime.findProgramAddress seeds).map Prod.fst).getD systemProgramId

def owner : Pubkey := key 1
def user : Pubkey := key 2
def otherUser : Pubkey := key 3
def mint : Pubkey := key 10
def feeMint : Pubkey := key 11
def vaultToken : Pubkey := key 20
def userToken : Pubkey := key 21
def vaultFee : Pubkey := key 22
def userFee : Pubkey := key 23
def lent : Pubkey := key 24
def otherVaultToken : Pubkey := key 25
@[irreducible] def vault : Pubkey := address [vaultSeed1, [1]]
@[irreducible] def vaultSigner : Pubkey := address [signerSeed1, vault.bytes]
def eventId : UInt64 := 7
@[irreducible] def schedule : Pubkey := address [scheduleSeed1, deriveEventId eventId]

def tokenAccount (mint owner : Pubkey) (amount : Nat) : Content :=
  .token ⟨mint, owner, amount, none, .initialized, none, 0, none⟩

@[irreducible] def genesis : Bank := fun k =>
  if k = vaultToken then ⟨1, tokenAccount mint vaultSigner 50⟩
  else if k = userToken then ⟨1, tokenAccount mint user 5⟩
  else if k = vaultFee then ⟨1, tokenAccount feeMint owner 0⟩
  else if k = userFee then ⟨1, tokenAccount feeMint user 9⟩
  else if k = otherVaultToken then ⟨1, tokenAccount feeMint vaultSigner 40⟩
  else if k = lent then
    ⟨1, .token ⟨mint, otherUser, 10, some vaultSigner, .initialized, none, 10, none⟩⟩
  else if onCurve k ∨ k = vaultSigner then ⟨1000, .wallet⟩
  else ⟨0, .wallet⟩

theorem genesis_unused (k : Pubkey) (d : Bytes) : (genesis k).content ≠ .program d := by
  unfold genesis tokenAccount
  split_ifs <;> simp

def records : Merkle.Tree Record :=
  .node (.leaf (.single ⟨0, user, 3, 1⟩)) (.leaf (.single ⟨1, otherUser, 4, 0⟩))

def openVault : Call where
  signers := [owner]
  writable := [owner, vault]
  unixTimestamp := 0
  instruction := .createVault ⟨owner, vault, systemProgramId⟩ [1]

def scheduleArgs : CreateScheduleArgs where
  userCount := 2
  eventId := eventId
  timestamp := 5
  merkleRoot := records.root (redemptionScheme runtime)
  useMultiToken := false
  receivingTokenMint := mint
  receivingTokenAccount := vaultToken
  sendingTokenMint := feeMint
  sendingTokenAccount := vaultFee

def openSchedule : Call where
  signers := [owner]
  writable := [owner, schedule]
  unixTimestamp := 0
  instruction := .createSchedule ⟨owner, vault, schedule, systemProgramId⟩ scheduleArgs

/-- The schedule again, with the mint of either account recorded for the other. -/
def openSwapped : Call :=
  { openSchedule with
    instruction := .createSchedule ⟨owner, vault, schedule, systemProgramId⟩
      { scheduleArgs with receivingTokenMint := feeMint, sendingTokenMint := mint } }

def firstClaim : Claim where
  accounts := ⟨vault, schedule, vaultSigner, vaultToken, user, userToken, tokenProgramId,
    systemProgramId, [vaultFee, userFee]⟩
  args := ⟨0, 0, records.siblings (redemptionScheme runtime) [false], 3, 1⟩
  mint := none

def redeemFirst : Call where
  signers := [user]
  writable := [schedule, vaultToken, userToken, vaultFee, userFee]
  unixTimestamp := 6
  instruction := firstClaim.instruction

def secondClaim : Claim where
  accounts := ⟨vault, schedule, vaultSigner, vaultToken, otherUser, userToken, tokenProgramId,
    systemProgramId, []⟩
  args := ⟨1, 0, records.siblings (redemptionScheme runtime) [true], 4, 0⟩
  mint := none

def redeemSecond : Call where
  signers := [otherUser]
  writable := [schedule, vaultToken, userToken]
  unixTimestamp := 7
  instruction := secondClaim.instruction

def setAdmins (admins : List Pubkey) : Call where
  signers := [owner]
  writable := [vault]
  unixTimestamp := 0
  instruction := .setVault ⟨owner, vault⟩ admins

def nominateUser : Call where
  signers := [owner]
  writable := [vault]
  unixTimestamp := 0
  instruction := .transferOwnership ⟨owner, vault⟩ user

def acceptUser : Call where
  signers := [user]
  writable := [vault]
  unixTimestamp := 0
  instruction := .acceptOwnership ⟨user, vault⟩

/-- The bank with the vault open. -/
@[irreducible] def opened : Bank := Trace.exec (step runtime) genesis openVault

theorem openVault_ok : step runtime genesis openVault = .ok opened := by
  have h : Trace.Succeeds (step runtime) genesis openVault := by decide +kernel
  unfold opened
  exact h.step_eq

/-- The bank with the schedule open as well. -/
@[irreducible] def deployed : Bank := Trace.exec (step runtime) opened openSchedule

theorem openSchedule_ok : step runtime opened openSchedule = .ok deployed := by
  have h : Trace.Succeeds (step runtime) opened openSchedule := by decide +kernel
  unfold deployed
  exact h.step_eq

/-! A second vault, of a user without any part in the first. -/

@[irreducible] def otherVault : Pubkey := address [vaultSeed1, [2]]
@[irreducible] def otherSigner : Pubkey := address [signerSeed1, otherVault.bytes]
@[irreducible] def otherSchedule : Pubkey := address [scheduleSeed1, deriveEventId 8]

def openOtherVault : Call where
  signers := [otherUser]
  writable := [otherUser, otherVault]
  unixTimestamp := 0
  instruction := .createVault ⟨otherUser, otherVault, systemProgramId⟩ [2]

def otherRecord : Record := .single ⟨0, otherUser, 0, 10⟩

def otherScheduleArgs (eventId : UInt64) : CreateScheduleArgs where
  userCount := 1
  eventId := eventId
  timestamp := 5
  merkleRoot := hash otherRecord.tryToVec
  useMultiToken := false
  receivingTokenMint := systemProgramId
  receivingTokenAccount := userToken
  sendingTokenMint := mint
  sendingTokenAccount := userToken

/-- A schedule of the second vault, with an event id of its own or with that of the first. -/
def openOtherSchedule (address : Pubkey) (eventId : UInt64) : Call where
  signers := [otherUser]
  writable := [otherUser, address]
  unixTimestamp := 0
  instruction := .createSchedule ⟨otherUser, otherVault, address, systemProgramId⟩
    (otherScheduleArgs eventId)

/-- A redemption from the second vault, with a fee out of the lent account. -/
def redeemOther : Call where
  signers := [otherUser]
  writable := [otherSchedule, otherSigner, otherUser, userToken, lent]
  unixTimestamp := 6
  instruction := .redeemToken
    ⟨otherVault, otherSchedule, otherSigner, userToken, otherUser, userToken, tokenProgramId,
      systemProgramId, [userToken, lent]⟩ ⟨0, 0, [], 0, 10⟩

def withdrawLent : Call where
  signers := [owner]
  writable := [owner, lent, vaultToken]
  unixTimestamp := 6
  instruction := .withdrawToken ⟨owner, vault, vaultSigner, lent, vaultToken, tokenProgramId⟩ 10

@[irreducible] def twoVaults : Bank := Trace.exec (step runtime) opened openOtherVault

end Coin98Vault.Reference

import Coin98Vault.Program.Context

/-!
# The ten instructions

`lib.rs`: each handler reads its accounts, checks access and returns the bank after its
transfers together with the one account it rewrites on exit.
-/

namespace Coin98Vault

/-- The value an instruction leaves in a program-owned account. -/
inductive Value where
  | vault (v : Vault)
  | schedule (s : Schedule)
  deriving DecidableEq

structure Outcome where
  bank : Bank
  written : Option (Pubkey × Value)

/-! ## Access control -/

def isOwner (user : Pubkey) (vault : Vault) : Except Failure Unit :=
  require (user = vault.owner) (.program .unauthorized)

def verifyNewOwner (user : Pubkey) (vault : Vault) : Except Failure Unit :=
  require (user = vault.newOwner) (.program .unauthorized)

def isAdmin (user : Pubkey) (vault : Vault) : Except Failure Unit :=
  if user = vault.owner then .ok ()
  else if vault.admins.findIdx? (· == user) = none then .error (.program .unauthorized)
  else .ok ()

def verifySchedule (schedule : Schedule) (expectedType : ObjType) : Except Failure Unit := do
  require (schedule.objType = expectedType) (.program .invalidAccount)
  require (schedule.isActive = true) (.program .scheduleUnavailable)

/-! ## Proofs -/

/-- The common end of both verifiers: the proof of the encoded record, then its bit. -/
def verifyLeaf (rt : Runtime) (index : UInt16) (redemptionData : Bytes) (proofs : List Hash)
    (schedule : Schedule) : Except Failure Unit := do
  let root ← orFail .panic
    (if h : schedule.merkleRoot.length = 32 then some ⟨schedule.merkleRoot, h⟩ else none)
  let leaf := rt.keccak redemptionData
  require (Shared.verifyProof rt proofs root leaf = true) (.program .unauthorized)
  let redeemed ← orFail .panic schedule.redemptions[index.toNat]?
  require (redeemed = false) (.program .redeemed)

def verifyProof (rt : Runtime) (index : UInt16) (timestamp : Option Int64) (user : Pubkey)
    (receivingAmount sendingAmount : UInt64) (proofs : List Hash) (schedule : Schedule) :
    Except Failure Unit :=
  let redemptionData := match timestamp with
    | some timestamp => RedemptionParamsV2.codec.encode
        { index, timestamp, address := user, receivingAmount, sendingAmount }
    | none => RedemptionParams.codec.encode
        { index, address := user, receivingAmount, sendingAmount }
  verifyLeaf rt index redemptionData proofs schedule

def verifyProofMulti (rt : Runtime) (index : UInt16) (timestamp : Option Int64) (user : Pubkey)
    (receivingTokenMint : Pubkey) (receivingAmount sendingAmount : UInt64) (proofs : List Hash)
    (schedule : Schedule) : Except Failure Unit :=
  let redemptionData := match timestamp with
    | some timestamp => RedemptionMultiParamsV2.codec.encode
        { index, timestamp, address := user, receivingTokenMint, receivingAmount, sendingAmount }
    | none => RedemptionMultiParams.codec.encode
        { index, address := user, receivingTokenMint, receivingAmount, sendingAmount }
  verifyLeaf rt index redemptionData proofs schedule

/-! ## Vaults and schedules -/

def createVault (rt : Runtime) (tx : Tx) (b : Bank) (x : CreateVaultContext)
    (vaultPath : Bytes) : Except Failure Outcome := do
  let (b, vault) ← x.tryAccounts rt tx b vaultPath
  let (_, signerNonce) ← orFail .panic (rt.findProgramAddress [signerSeed1, x.vault.bytes])
  let vault := { vault with
    objType := .vault
    signerNonce
    owner := x.owner
    newOwner := systemProgramId }
  return ⟨b, some (x.vault, .vault vault)⟩

def setVault (tx : Tx) (b : Bank) (x : SetVaultContext) (admins : List Pubkey) :
    Except Failure Outcome := do
  let vault ← x.tryAccounts tx b
  isOwner x.owner vault
  return ⟨b, some (x.vault, .vault { vault with admins })⟩

structure CreateScheduleArgs where
  userCount : UInt16
  eventId : UInt64
  timestamp : Int64
  merkleRoot : Hash
  useMultiToken : Bool
  receivingTokenMint : Pubkey
  receivingTokenAccount : Pubkey
  sendingTokenMint : Pubkey
  sendingTokenAccount : Pubkey

def createSchedule (rt : Runtime) (tx : Tx) (b : Bank) (x : CreateScheduleContext)
    (a : CreateScheduleArgs) : Except Failure Outcome := do
  let (b, vault, schedule, bump) ← x.tryAccounts rt tx b a.userCount a.eventId
  isAdmin x.admin vault
  let schedule := { schedule with
    objType := if a.useMultiToken then .distributionMulti else .distribution
    nonce := bump
    eventId := a.eventId
    vaultId := x.vault
    timestamp := a.timestamp
    merkleRoot := a.merkleRoot.bytes
    receivingTokenMint := a.receivingTokenMint
    receivingTokenAccount := a.receivingTokenAccount
    sendingTokenMint := a.sendingTokenMint
    sendingTokenAccount := a.sendingTokenAccount
    isActive := true
    redemptions := List.replicate a.userCount.toNat false }
  return ⟨b, some (x.schedule, .schedule schedule)⟩

def setScheduleStatus (rt : Runtime) (tx : Tx) (b : Bank) (x : SetScheduleContext)
    (isActive : Bool) : Except Failure Outcome := do
  let (vault, schedule) ← x.tryAccounts rt tx b
  isAdmin x.admin vault
  return ⟨b, some (x.schedule, .schedule { schedule with isActive })⟩

/-! ## Withdrawals -/

/-- The seeds with which the program signs for a vault's assets. -/
def signerSeeds (k : Pubkey) (vault : Vault) : List Bytes :=
  [signerSeed1, k.bytes, [vault.signerNonce]]

def withdrawSol (rt : Runtime) (tx : Tx) (b : Bank) (x : WithdrawSolContext) (amount : UInt64) :
    Except Failure Outcome := do
  let vault ← x.tryAccounts rt tx b
  isAdmin x.admin vault
  let b ← transferLamport rt tx b x.vaultSigner x.recipient amount [signerSeeds x.vault vault]
  return ⟨b, none⟩

def withdrawToken (rt : Runtime) (tx : Tx) (b : Bank) (x : WithdrawTokenContext)
    (amount : UInt64) : Except Failure Outcome := do
  let vault ← x.tryAccounts rt tx b
  isAdmin x.admin vault
  let b ← transferToken rt tx b x.vaultSigner x.sender x.recipient amount
    [signerSeeds x.vault vault]
  return ⟨b, none⟩

/-! ## Redemptions -/

structure RedeemTokenArgs where
  index : UInt16
  timestamp : Int64
  proofs : List Hash
  receivingAmount : UInt64
  sendingAmount : UInt64

structure RedeemTokenMultiArgs extends RedeemTokenArgs where
  receivingTokenMint : Pubkey

/-- The fee of a redemption, paid by the user from the second remaining account. -/
def payFee (rt : Runtime) (tx : Tx) (b : Bank) (schedule : Schedule) (user : Pubkey)
    (accounts : List Pubkey) (sendingAmount : UInt64) : Except Failure Bank :=
  if schedule.sendingTokenMint ≠ systemProgramId ∧ 0 < sendingAmount then do
    let vaultToken1 ← orFail .panic accounts[0]?
    require (vaultToken1 = schedule.sendingTokenAccount) (.program .invalidAccount)
    let userToken1 ← orFail .panic accounts[1]?
    transferToken rt tx b user userToken1 vaultToken1 sendingAmount []
  else pure b

def redeemToken (rt : Runtime) (tx : Tx) (b : Bank) (x : RedeemTokenContext)
    (a : RedeemTokenArgs) : Except Failure Outcome := do
  let (vault, schedule) ← x.tryAccounts rt tx b
  verifySchedule schedule .distribution
  (if schedule.timestamp > 0 then do
    -- older version of merkle node
    require (tx.unixTimestamp ≥ schedule.timestamp) (.program .scheduleLocked)
    verifyProof rt a.index none x.user a.receivingAmount a.sendingAmount a.proofs schedule
  else do
    -- version 2 of merkle node
    require (tx.unixTimestamp ≥ a.timestamp) (.program .scheduleLocked)
    verifyProof rt a.index (some a.timestamp) x.user a.receivingAmount a.sendingAmount a.proofs
      schedule)
  let redeemed := { schedule with redemptions := schedule.redemptions.set a.index.toNat true }
  let b ← payFee rt tx b schedule x.user x.remainingAccounts a.sendingAmount
  let seeds := signerSeeds x.vault vault
  let b ← (if schedule.receivingTokenMint = systemProgramId then
      transferLamport rt tx b x.vaultSigner x.user a.receivingAmount [seeds]
    else
      transferToken rt tx b x.vaultSigner x.vaultToken0 x.userToken0 a.receivingAmount [seeds])
  return ⟨b, some (x.schedule, .schedule redeemed)⟩

/-- The bytes of an account, unpacked as a token account.  A token account is kept unpacked. -/
def unpackTokenAccount (b : Bank) (k : Pubkey) : Option TokenAccount :=
  match (b k).content with
  | .token t => some t
  | .program data | .other data => TokenAccount.unpackFromSlice data
  | .wallet | .multisig => none

def redeemTokenMulti (rt : Runtime) (tx : Tx) (b : Bank) (x : RedeemTokenMultiContext)
    (a : RedeemTokenMultiArgs) : Except Failure Outcome := do
  let (vault, schedule) ← RedeemTokenMultiContext.tryAccounts x rt tx b
  verifySchedule schedule .distributionMulti
  (if schedule.timestamp > 0 then do
    require (tx.unixTimestamp ≥ schedule.timestamp) (.program .scheduleLocked)
    verifyProofMulti rt a.index none x.user a.receivingTokenMint a.receivingAmount a.sendingAmount
      a.proofs schedule
  else do
    require (tx.unixTimestamp ≥ a.timestamp) (.program .scheduleLocked)
    verifyProofMulti rt a.index (some a.timestamp) x.user a.receivingTokenMint a.receivingAmount
      a.sendingAmount a.proofs schedule)
  let redeemed := { schedule with redemptions := schedule.redemptions.set a.index.toNat true }
  let b ← payFee rt tx b schedule x.user x.remainingAccounts a.sendingAmount
  let seeds := signerSeeds x.vault vault
  let b ← (if a.receivingTokenMint = systemProgramId then
      transferLamport rt tx b x.vaultSigner x.user a.receivingAmount [seeds]
    else do
      let vaultToken0Account ← orFail .panic (unpackTokenAccount b x.vaultToken0)
      let userToken0Account ← orFail .panic (unpackTokenAccount b x.userToken0)
      require (vaultToken0Account.mint = a.receivingTokenMint) (.program .invalidAccount)
      require (userToken0Account.mint = a.receivingTokenMint) (.program .invalidAccount)
      transferToken rt tx b x.vaultSigner x.vaultToken0 x.userToken0 a.receivingAmount [seeds])
  return ⟨b, some (x.schedule, .schedule redeemed)⟩

/-! ## Ownership -/

def transferOwnership (tx : Tx) (b : Bank) (x : TransferOwnershipContext) (newOwner : Pubkey) :
    Except Failure Outcome := do
  let vault ← x.tryAccounts tx b
  isOwner x.owner vault
  return ⟨b, some (x.vault, .vault { vault with newOwner })⟩

def acceptOwnership (tx : Tx) (b : Bank) (x : AcceptOwnershipContext) :
    Except Failure Outcome := do
  let vault ← x.tryAccounts tx b
  verifyNewOwner x.newOwner vault
  let vault := { vault with owner := vault.newOwner, newOwner := systemProgramId }
  return ⟨b, some (x.vault, .vault vault)⟩

/-! ## The program -/

inductive Instruction where
  | createVault (accounts : CreateVaultContext) (vaultPath : Bytes)
  | setVault (accounts : SetVaultContext) (admins : List Pubkey)
  | createSchedule (accounts : CreateScheduleContext) (args : CreateScheduleArgs)
  | setScheduleStatus (accounts : SetScheduleContext) (isActive : Bool)
  | withdrawSol (accounts : WithdrawSolContext) (amount : UInt64)
  | withdrawToken (accounts : WithdrawTokenContext) (amount : UInt64)
  | redeemToken (accounts : RedeemTokenContext) (args : RedeemTokenArgs)
  | redeemTokenMulti (accounts : RedeemTokenMultiContext) (args : RedeemTokenMultiArgs)
  | transferOwnership (accounts : TransferOwnershipContext) (newOwner : Pubkey)
  | acceptOwnership (accounts : AcceptOwnershipContext)

structure Call extends Tx where
  instruction : Instruction

def handle (rt : Runtime) (tx : Tx) (b : Bank) : Instruction → Except Failure Outcome
  | .createVault x vaultPath => createVault rt tx b x vaultPath
  | .setVault x admins => setVault tx b x admins
  | .createSchedule x a => createSchedule rt tx b x a
  | .setScheduleStatus x isActive => setScheduleStatus rt tx b x isActive
  | .withdrawSol x amount => withdrawSol rt tx b x amount
  | .withdrawToken x amount => withdrawToken rt tx b x amount
  | .redeemToken x a => redeemToken rt tx b x a
  | .redeemTokenMulti x a => redeemTokenMulti rt tx b x a
  | .transferOwnership x newOwner => transferOwnership tx b x newOwner
  | .acceptOwnership x => acceptOwnership tx b x

/-- Serialise a value over the data of its account. -/
def store {α : Type} (l : Layout α) (b : Bank) (k : Pubkey) (a : α) : Except Failure Bank :=
  match (b k).content with
  | .program data => do
    let data ← orFail (.constraint .serialize) (l.write a data)
    return b.setContent k (.program data)
  | _ => .error (.constraint .serialize)

/-- What Anchor does when a handler returns. -/
def exit (o : Outcome) : Except Failure Bank :=
  match o.written with
  | none => .ok o.bank
  | some (k, .vault v) => store Vault.layout o.bank k v
  | some (k, .schedule s) => store Schedule.layout o.bank k s

def step (rt : Runtime) (b : Bank) (c : Call) : Except Failure Bank := do
  let o ← handle rt c.toTx b c.instruction
  exit o

end Coin98Vault

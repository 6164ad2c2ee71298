import Coin98Vault.Program.Shared

/-!
# Account contexts

The accounts each instruction names and what its context demands of them.
-/

namespace Coin98Vault

def signer (tx : Tx) (k : Pubkey) : Except Failure Unit :=
  require (k ∈ tx.signers) (.constraint .signer)

def writable (tx : Tx) (k : Pubkey) : Except Failure Unit :=
  require (k ∈ tx.writable) (.constraint .mut)

def program (k programId : Pubkey) : Except Failure Unit :=
  require (k = programId) (.constraint .programId)

/-- `Account<'info, T>`: owned by this program and tagged as a `T`. -/
def account {α : Type} (l : Layout α) (b : Bank) (k : Pubkey) : Except Failure α :=
  orFail (.constraint .account) (b.read l k)

def seedsWithBump (rt : Runtime) (seeds : List Bytes) (bump : UInt8) (k : Pubkey) :
    Except Failure Unit :=
  require (rt.createProgramAddress (seeds ++ [[bump]]) = some k) (.constraint .seeds)

/-- The lamports a payer adds to an account that `init` creates. -/
def initFunds (rt : Runtime) (b : Bank) (k : Pubkey) (space : Nat) : UInt64 :=
  if (b k).lamports = 0 then rt.minimumBalance space
  else UInt64.ofNat (max (rt.minimumBalance space).toNat 1 - (b k).lamports)

def fund (rt : Runtime) (tx : Tx) (b : Bank) (payer k : Pubkey) (space : Nat) :
    Except Failure Bank :=
  if (b k).lamports = 0 ∨ 0 < initFunds rt b k space then
    transferLamport rt tx b payer k (initFunds rt b k space) []
  else pure b

/-- `init`: fund the derived address, then let the system program allocate it, which fails on an
account in use and on more bytes than an invoked program can add. -/
def init (rt : Runtime) (tx : Tx) (b : Bank) (payer k : Pubkey) (seeds : List Bytes)
    (space : Nat) : Except Failure (Bank × UInt8) := do
  let (address, bump) ← orFail .panic (rt.findProgramAddress seeds)
  require (k = address) (.constraint .seeds)
  writable tx k
  require ((b k).lamports = 0 ∨ payer ≠ k) (.constraint .init)
  let b ← fund rt tx b payer k space
  require (space ≤ maxPermittedDataIncrease) .invoke
  match (b k).content with
  | .wallet => return (b.setContent k (.program (List.replicate space 0)), bump)
  | _ => .error (.constraint .init)

/-- A fresh account is read without regard to its discriminator. -/
def accountUnchecked {α : Type} (l : Layout α) (b : Bank) (k : Pubkey) : Except Failure α :=
  match (b k).content with
  | .program data => orFail (.constraint .account) ((l.codec.decode (data.drop 8)).map Prod.fst)
  | _ => .error (.constraint .account)

structure CreateVaultContext where
  owner : Pubkey
  vault : Pubkey
  systemProgram : Pubkey

def CreateVaultContext.tryAccounts (x : CreateVaultContext) (rt : Runtime) (tx : Tx) (b : Bank)
    (vaultPath : Bytes) : Except Failure (Bank × Vault) := do
  signer tx x.owner
  writable tx x.owner
  let (b, _) ← init rt tx b x.owner x.vault [vaultSeed1, vaultPath] (16 + Vault.size)
  let vault ← accountUnchecked Vault.layout b x.vault
  program x.systemProgram systemProgramId
  return (b, vault)

structure SetVaultContext where
  owner : Pubkey
  vault : Pubkey

def SetVaultContext.tryAccounts (x : SetVaultContext) (tx : Tx) (b : Bank) :
    Except Failure Vault := do
  signer tx x.owner
  let vault ← account Vault.layout b x.vault
  writable tx x.vault
  return vault

structure CreateScheduleContext where
  admin : Pubkey
  vault : Pubkey
  schedule : Pubkey
  systemProgram : Pubkey

/-- Also returns the bump of the schedule address, `ctx.bumps.schedule`. -/
def CreateScheduleContext.tryAccounts (x : CreateScheduleContext) (rt : Runtime) (tx : Tx)
    (b : Bank) (userCount : UInt16) (eventId : UInt64) :
    Except Failure (Bank × Vault × Schedule × UInt8) := do
  signer tx x.admin
  writable tx x.admin
  let vault ← account Vault.layout b x.vault
  let (b, bump) ← init rt tx b x.admin x.schedule [scheduleSeed1, deriveEventId eventId]
    (16 + Schedule.size userCount)
  let schedule ← accountUnchecked Schedule.layout b x.schedule
  program x.systemProgram systemProgramId
  return (b, vault, schedule, bump)

structure SetScheduleContext where
  admin : Pubkey
  vault : Pubkey
  schedule : Pubkey

/-- A schedule at the address of its own event, linked to the vault passed with it. -/
def scheduleOf (rt : Runtime) (tx : Tx) (b : Bank) (vault k : Pubkey) :
    Except Failure Schedule := do
  let schedule ← account Schedule.layout b k
  writable tx k
  seedsWithBump rt [scheduleSeed1, deriveEventId schedule.eventId] schedule.nonce k
  require (schedule.vaultId = vault) (.program .invalidAccount)
  return schedule

def SetScheduleContext.tryAccounts (x : SetScheduleContext) (rt : Runtime) (tx : Tx) (b : Bank) :
    Except Failure (Vault × Schedule) := do
  signer tx x.admin
  writable tx x.admin
  let vault ← account Vault.layout b x.vault
  let schedule ← scheduleOf rt tx b x.vault x.schedule
  return (vault, schedule)

/-- The PDA that holds a vault's assets. -/
def vaultSignerOf (rt : Runtime) (k : Pubkey) (vault : Vault) (vaultSigner : Pubkey) :
    Except Failure Unit :=
  seedsWithBump rt [signerSeed1, k.bytes] vault.signerNonce vaultSigner

structure WithdrawSolContext where
  admin : Pubkey
  vault : Pubkey
  vaultSigner : Pubkey
  recipient : Pubkey
  systemProgram : Pubkey

def WithdrawSolContext.tryAccounts (x : WithdrawSolContext) (rt : Runtime) (tx : Tx) (b : Bank) :
    Except Failure Vault := do
  signer tx x.admin
  writable tx x.admin
  let vault ← account Vault.layout b x.vault
  writable tx x.vaultSigner
  vaultSignerOf rt x.vault vault x.vaultSigner
  writable tx x.recipient
  program x.systemProgram systemProgramId
  return vault

structure WithdrawTokenContext where
  admin : Pubkey
  vault : Pubkey
  vaultSigner : Pubkey
  sender : Pubkey
  recipient : Pubkey
  tokenProgram : Pubkey

def isTokenProgram (k : Pubkey) : Prop := k = tokenProgramId

instance (k : Pubkey) : Decidable (isTokenProgram k) := inferInstanceAs (Decidable (k = _))

def WithdrawTokenContext.tryAccounts (x : WithdrawTokenContext) (rt : Runtime) (tx : Tx)
    (b : Bank) : Except Failure Vault := do
  signer tx x.admin
  writable tx x.admin
  let vault ← account Vault.layout b x.vault
  vaultSignerOf rt x.vault vault x.vaultSigner
  writable tx x.sender
  writable tx x.recipient
  require (isTokenProgram x.tokenProgram) (.program .invalidAccount)
  return vault

/-- The accounts of both redemption contexts, and the remaining accounts passed with them. -/
structure RedeemTokenContext where
  vault : Pubkey
  schedule : Pubkey
  vaultSigner : Pubkey
  vaultToken0 : Pubkey
  user : Pubkey
  userToken0 : Pubkey
  tokenProgram : Pubkey
  systemProgram : Pubkey
  remainingAccounts : List Pubkey

abbrev RedeemTokenMultiContext := RedeemTokenContext

def RedeemTokenMultiContext.tryAccounts (x : RedeemTokenMultiContext) (rt : Runtime) (tx : Tx)
    (b : Bank) : Except Failure (Vault × Schedule) := do
  let vault ← account Vault.layout b x.vault
  let schedule ← scheduleOf rt tx b x.vault x.schedule
  vaultSignerOf rt x.vault vault x.vaultSigner
  writable tx x.vaultToken0
  signer tx x.user
  writable tx x.userToken0
  require (isTokenProgram x.tokenProgram) (.program .invalidAccount)
  program x.systemProgram systemProgramId
  return (vault, schedule)

/-- Unlike the multi-token context, this one pins the account that pays. -/
def RedeemTokenContext.tryAccounts (x : RedeemTokenContext) (rt : Runtime) (tx : Tx) (b : Bank) :
    Except Failure (Vault × Schedule) := do
  let (vault, schedule) ← RedeemTokenMultiContext.tryAccounts x rt tx b
  require (x.vaultToken0 = schedule.receivingTokenAccount) (.program .invalidAccount)
  return (vault, schedule)

structure TransferOwnershipContext where
  owner : Pubkey
  vault : Pubkey

def TransferOwnershipContext.tryAccounts (x : TransferOwnershipContext) (tx : Tx) (b : Bank) :
    Except Failure Vault := do
  signer tx x.owner
  let vault ← account Vault.layout b x.vault
  writable tx x.vault
  return vault

structure AcceptOwnershipContext where
  newOwner : Pubkey
  vault : Pubkey

def AcceptOwnershipContext.tryAccounts (x : AcceptOwnershipContext) (tx : Tx) (b : Bank) :
    Except Failure Vault := do
  signer tx x.newOwner
  let vault ← account Vault.layout b x.vault
  writable tx x.vault
  return vault

end Coin98Vault

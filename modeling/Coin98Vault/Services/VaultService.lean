import Coin98Vault.Services.InstructionService

/-!
# The vault service

`vault.service.ts`.  An action looks up the accounts that it needs and lets the instruction
service build its one instruction.  The connection is a parameter.
-/

namespace Coin98Vault.Client

/-- An account as the connection reports it. -/
structure AccountInfo where
  owner : Pubkey
  data : Bytes

/-- `Connection.getAccountInfo`, in the state that the bank is in. -/
abbrev Connection := Bank → Pubkey → Option AccountInfo

/-- The accounts of the program are reported as they are. -/
def Connection.Lawful (connection : Connection) (rt : Runtime) : Prop :=
  ∀ b k d, (b k).content = .program d → connection b k = some ⟨rt.programId, d⟩

/-- A property that is a key. -/
def publicKeyOf (o : Object) (name : String) : Option Pubkey :=
  match o.lookup name with
  | some (.publicKey k) => some k
  | _ => none

namespace VaultService

variable (rt : Runtime) (packages : Packages) (connection : Connection)

/-! ## Addresses -/

def findVaultDerivationPath (identifier : String) : Bytes := (packages.sha256 identifier).bytes

/-- The address of a name, or of a derivation path. -/
def findVaultAddress (params : String ⊕ Bytes) (vaultProgramId : Pubkey) :
    Option (Pubkey × UInt8) :=
  let derivationPath :=
    match params with
    | .inl identifier => findVaultDerivationPath packages identifier
    | .inr derivationPath => derivationPath
  VaultInstructionService.findVaultAddress rt packages derivationPath vaultProgramId

/-! ## Accounts -/

def getScheduleAccountInfo (b : Bank) (scheduleAddress : Pubkey) : Option Object := do
  let accountInfo ← connection b scheduleAddress
  let data ← VaultInstructionService.decodeScheduleData packages accountInfo.data
  let (signerAddress, _) ←
    VaultInstructionService.findRootSignerAddress rt packages accountInfo.owner
  return ("signer", .publicKey signerAddress) :: data

def getVaultAccountInfo (b : Bank) (vaultAddress : Pubkey) : Option Object := do
  let accountInfo ← connection b vaultAddress
  let data ← VaultInstructionService.decodeVaultData packages accountInfo.data
  let (signerAddress, _) ←
    VaultInstructionService.findVaultSignerAddress rt packages vaultAddress accountInfo.owner
  return ("signer", .publicKey signerAddress) :: data

/-! ## Actions -/

/-- Also returns the address. -/
def createVault (payerAccount : Pubkey) (vaultName : String) (vaultProgramId : Pubkey) :
    Option (TransactionInstruction × Pubkey) := do
  let vaultDerivationPath := findVaultDerivationPath packages vaultName
  let (vaultAddress, _) ← findVaultAddress rt packages (.inl vaultName) vaultProgramId
  -- the nonce of the signer is not used, but its derivation may throw
  let _ ← VaultInstructionService.findVaultSignerAddress rt packages vaultAddress vaultProgramId
  let ix ← VaultInstructionService.createVault packages payerAccount vaultAddress
    vaultDerivationPath vaultProgramId
  return (ix, vaultAddress)

def setVault (payerAccount vaultAddress : Pubkey) (memberAddresses : List Pubkey)
    (vaultProgramId : Pubkey) : Option TransactionInstruction :=
  VaultInstructionService.setVault packages payerAccount vaultAddress memberAddresses
    vaultProgramId

/-- Also returns the address. -/
def createSchedule (payerAccount vaultAddress : Pubkey) (userCount : UInt16) (eventId : UInt64)
    (timestamp : Int64) (merkleRoot : Hash) (useMultiToken : Bool)
    (receivingTokenMintAddress receivingTokenAccountAddress sendingTokenMintAddress
      sendingTokenAccountAddress : Pubkey) (vaultProgramId : Pubkey) :
    Option (TransactionInstruction × Pubkey) := do
  let (scheduleAddress, _) ←
    VaultInstructionService.findScheduleAddress rt packages eventId vaultProgramId
  let ix ← VaultInstructionService.createSchedule packages payerAccount vaultAddress
    scheduleAddress userCount eventId timestamp merkleRoot useMultiToken receivingTokenMintAddress
    receivingTokenAccountAddress sendingTokenMintAddress sendingTokenAccountAddress vaultProgramId
  return (ix, scheduleAddress)

def setScheduleStatus (payerAccount vaultAddress scheduleAddress : Pubkey) (isActive : Bool)
    (vaultProgramId : Pubkey) : Option TransactionInstruction :=
  VaultInstructionService.setScheduleStatus packages payerAccount vaultAddress scheduleAddress
    isActive vaultProgramId

def withdrawSol (b : Bank) (payerAccount vaultAddress recipientAddress : Pubkey) (amount : UInt64)
    (vaultProgramId : Pubkey) : Option TransactionInstruction := do
  let vault ← getVaultAccountInfo rt packages connection b vaultAddress
  let signer ← publicKeyOf vault "signer"
  VaultInstructionService.withdrawSol packages payerAccount vaultAddress signer recipientAddress
    amount vaultProgramId

def withdrawToken (b : Bank) (payerAccount vaultAddress senderAddress recipientAddress : Pubkey)
    (amount : UInt64) (vaultProgramId : Pubkey) : Option TransactionInstruction := do
  let vault ← getVaultAccountInfo rt packages connection b vaultAddress
  let signer ← publicKeyOf vault "signer"
  VaultInstructionService.withdrawToken packages payerAccount vaultAddress signer senderAddress
    recipientAddress amount vaultProgramId

/-- What both redemptions look up: the signer of the vault, and the two accounts that the schedule
names. -/
def redemptionAccounts (b : Bank) (vaultAddress scheduleAddress : Pubkey) :
    Option (Pubkey × Pubkey × Pubkey) := do
  let vault ← getVaultAccountInfo rt packages connection b vaultAddress
  let schedule ← getScheduleAccountInfo rt packages connection b scheduleAddress
  let signer ← publicKeyOf vault "signer"
  let receivingTokenAccount ← publicKeyOf schedule "receivingTokenAccount"
  let sendingTokenAccount ← publicKeyOf schedule "sendingTokenAccount"
  return (signer, receivingTokenAccount, sendingTokenAccount)

def redeem (b : Bank) (payerAccount vaultAddress scheduleAddress : Pubkey) (index : UInt16)
    (timestamp : Int64) (proofs : List Hash) (receivingAmount sendingAmount : UInt64)
    (recipientAddress feePaymentAddress vaultProgramId : Pubkey) :
    Option TransactionInstruction := do
  let (signer, receivingTokenAccount, sendingTokenAccount) ←
    redemptionAccounts rt packages connection b vaultAddress scheduleAddress
  VaultInstructionService.redeemToken packages vaultAddress scheduleAddress index timestamp proofs
    receivingAmount sendingAmount signer receivingTokenAccount (some sendingTokenAccount)
    payerAccount recipientAddress (some feePaymentAddress) vaultProgramId

def redeemTokenMulti (b : Bank) (payerAccount vaultAddress scheduleAddress : Pubkey)
    (index : UInt16) (timestamp : Int64) (proofs : List Hash) (receivingTokenMint : Pubkey)
    (receivingAmount sendingAmount : UInt64)
    (recipientAddress feePaymentAddress vaultProgramId : Pubkey) :
    Option TransactionInstruction := do
  let (signer, receivingTokenAccount, sendingTokenAccount) ←
    redemptionAccounts rt packages connection b vaultAddress scheduleAddress
  VaultInstructionService.redeemTokenMulti packages vaultAddress scheduleAddress index timestamp
    proofs receivingTokenMint receivingAmount sendingAmount signer receivingTokenAccount
    (some sendingTokenAccount) payerAccount recipientAddress (some feePaymentAddress)
    vaultProgramId

def transferOwnership (payerAccount newOwnerAddress vaultAddress vaultProgramId : Pubkey) :
    Option TransactionInstruction :=
  VaultInstructionService.transferOwnership packages payerAccount vaultAddress newOwnerAddress
    vaultProgramId

def acceptOwnership (payerAccount vaultAddress vaultProgramId : Pubkey) :
    Option TransactionInstruction :=
  VaultInstructionService.acceptOwnership packages payerAccount vaultAddress vaultProgramId

end VaultService

/-- What the program makes of a transaction of one instruction, which its payer has signed: the bank
that it leaves, if it succeeds.  `sendTransaction` also has the runtime check the transaction as a
whole. -/
def deliver (rt : Runtime) (b : Bank) (payerAccount : Pubkey) (unixTimestamp : Int64)
    (ix : TransactionInstruction) : Option Bank := do
  let call ← ix.call rt payerAccount unixTimestamp
  (step rt b call).toOption

end Coin98Vault.Client

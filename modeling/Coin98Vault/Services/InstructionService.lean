import Coin98Vault.Services.Idl
import Coin98Vault.Services.MerkleDistributor

/-!
# The client's instructions

`vault_instruction.service.ts`.  Ten builders write an instruction as account metas and bytes, and
a few functions derive the addresses that go into them.  What they use of the packages is a
parameter; `Lawful` states what is relied on.
-/

namespace Coin98Vault.Client

/-- What the services use of Anchor and of the support library. -/
structure Packages where
  lib : Libraries
  /-- `BorshCoder.instruction.encode`, or `none` where it throws. -/
  encode : String → Object → Option Bytes
  /-- `BorshCoder.accounts.decode`. -/
  decode : String → Bytes → Option Object
  /-- `HashService.sha256` of a text. -/
  sha256 : String → Hash
  /-- `BorshService.serialize` into a buffer of a given size. -/
  serialize : {α : Type} → FieldLayout α → α → Nat → Option Bytes

/-- The coder of accounts checks the discriminator and reads the described fields. -/
def Packages.Decodes {α : Type} (packages : Packages) (name : String) (l : Layout α)
    (fields : Fields) : Prop :=
  ∀ d, packages.decode name d = if d.take 8 = l.discriminator then
    (fields.codec.decode (d.drop 8)).map fun x => fields.object x.1 else none

/-- The coder of instructions picks the properties that the description names, has a buffer of a
thousand bytes for them, and puts the sighash in front; nothing is relied on for properties that
are not of the described types.  Serialising cuts a buffer to the span of what was written. -/
structure Packages.Lawful (packages : Packages) (rt : Runtime) : Prop where
  lib : packages.lib.Lawful rt
  encode : ∀ (m : Method) request data, m.idl.args.select request = some data →
    ((m.idl.args.codec.encode data).length ≤ 1000 → m.idl.args.codec.valid data = true) →
    packages.encode m.idl.name request =
      let bytes := m.idl.args.codec.encode data
      if bytes.length ≤ 1000 then some (m.sighash ++ bytes) else none
  decodeVault : packages.Decodes "Vault" Vault.layout Vault.idl
  decodeSchedule : packages.Decodes "Schedule" Schedule.layout Schedule.idl
  vault : (packages.sha256 "Vault").bytes.take 8 = vaultSeed1
  schedule : (packages.sha256 "Schedule").bytes.take 8 = scheduleSeed1
  signer : (packages.sha256 "Signer").bytes.take 8 = signerSeed1
  serialize : ∀ {α : Type} (layout : FieldLayout α) (a : α) (size : Nat),
    packages.serialize layout a size =
      (layout a (List.replicate size 0) 0).map fun r => r.1.take r.2

structure TransactionInstruction where
  programId : Pubkey
  keys : List AccountMeta
  data : Bytes

namespace VaultInstructionService

/-! ## The builders -/

section
variable (packages : Packages)

/-- The end of every builder. -/
def transactionInstruction (ixName : String) (request : Object) (keys : List AccountMeta)
    (vaultProgramId : Pubkey) : Option TransactionInstruction := do
  let data ← packages.encode ixName request
  return { data, keys, programId := vaultProgramId }

def createVault (payerAddress vaultAddress : Pubkey) (vaultPath : Bytes)
    (vaultProgramId : Pubkey) : Option TransactionInstruction :=
  transactionInstruction packages "createVault" [("vaultPath", .ofBytes vaultPath)] [
    ⟨payerAddress, true, false⟩,
    ⟨vaultAddress, false, true⟩,
    ⟨systemProgramId, false, false⟩] vaultProgramId

def setVault (rootAddress vaultAddress : Pubkey) (admins : List Pubkey)
    (vaultProgramId : Pubkey) : Option TransactionInstruction :=
  transactionInstruction packages "setVault" [("admins", .publicKeys admins)] [
    ⟨rootAddress, true, false⟩,
    ⟨vaultAddress, false, true⟩] vaultProgramId

def createSchedule (rootAddress vaultAddress scheduleAddress : Pubkey) (userCount : UInt16)
    (eventId : UInt64) (timestamp : Int64) (merkleRoot : Hash) (useMultiToken : Bool)
    (receivingTokenMintAddress receivingTokenAccountAddress sendingTokenMintAddress
      sendingTokenAccountAddress : Pubkey) (vaultProgramId : Pubkey) :
    Option TransactionInstruction :=
  transactionInstruction packages "createSchedule" [
    ("userCount", .u16 userCount),
    ("eventId", .u64 eventId),
    ("timestamp", .i64 timestamp),
    ("merkleRoot", .ofBytes merkleRoot.bytes),
    ("useMultiToken", .bool useMultiToken),
    ("receivingTokenMint", .publicKey receivingTokenMintAddress),
    ("receivingTokenAccount", .publicKey receivingTokenAccountAddress),
    ("sendingTokenMint", .publicKey sendingTokenMintAddress),
    ("sendingTokenAccount", .publicKey sendingTokenAccountAddress)] [
    ⟨rootAddress, true, false⟩,
    ⟨vaultAddress, false, false⟩,
    ⟨scheduleAddress, false, true⟩,
    ⟨systemProgramId, false, false⟩] vaultProgramId

def setScheduleStatus (rootAddress vaultAddress scheduleAddress : Pubkey) (isActive : Bool)
    (vaultProgramId : Pubkey) : Option TransactionInstruction :=
  transactionInstruction packages "setScheduleStatus" [("isActive", .bool isActive)] [
    ⟨rootAddress, true, false⟩,
    ⟨vaultAddress, false, false⟩,
    ⟨scheduleAddress, false, true⟩] vaultProgramId

def withdrawSol (ownerAddress vaultAddress vaultSignerAddress recipientAddress : Pubkey)
    (amount : UInt64) (vaultProgramId : Pubkey) : Option TransactionInstruction :=
  transactionInstruction packages "withdrawSol" [("amount", .u64 amount)] [
    ⟨ownerAddress, true, false⟩,
    ⟨vaultAddress, false, false⟩,
    ⟨vaultSignerAddress, false, true⟩,
    ⟨recipientAddress, false, true⟩,
    ⟨systemProgramId, false, false⟩] vaultProgramId

def withdrawToken (ownerAddress vaultAddress vaultSignerAddress senderAddress
    recipientAddress : Pubkey) (amount : UInt64) (vaultProgramId : Pubkey) :
    Option TransactionInstruction :=
  transactionInstruction packages "withdrawToken" [("amount", .u64 amount)] [
    ⟨ownerAddress, true, false⟩,
    ⟨vaultAddress, false, false⟩,
    ⟨vaultSignerAddress, false, false⟩,
    ⟨senderAddress, false, true⟩,
    ⟨recipientAddress, false, true⟩,
    ⟨tokenProgramId, false, false⟩] vaultProgramId

/-- The accounts of both redemptions.  A fee account that is missing leaves no gap. -/
def redemptionKeys (vaultAddress scheduleAddress vaultSignerAddress
    vaultVestingTokenAddress : Pubkey) (vaultFeeTokenAddress : Option Pubkey)
    (userAddress userVestingTokenAddress : Pubkey) (userFeeTokenAddress : Option Pubkey) :
    List AccountMeta :=
  let extraAccounts := (vaultFeeTokenAddress.toList ++ userFeeTokenAddress.toList).map
    fun k => (⟨k, false, true⟩ : AccountMeta)
  [
    ⟨vaultAddress, false, false⟩,
    ⟨scheduleAddress, false, true⟩,
    ⟨vaultSignerAddress, false, true⟩,
    ⟨vaultVestingTokenAddress, false, true⟩,
    ⟨userAddress, true, false⟩,
    ⟨userVestingTokenAddress, false, true⟩,
    ⟨tokenProgramId, false, false⟩,
    ⟨systemProgramId, false, false⟩] ++ extraAccounts

def redeemToken (vaultAddress scheduleAddress : Pubkey) (index : UInt16) (timestamp : Int64)
    (proofs : List Hash) (receivingAmount sendingAmount : UInt64)
    (vaultSignerAddress vaultVestingTokenAddress : Pubkey) (vaultFeeTokenAddress : Option Pubkey)
    (userAddress userVestingTokenAddress : Pubkey) (userFeeTokenAddress : Option Pubkey)
    (vaultProgramId : Pubkey) : Option TransactionInstruction :=
  transactionInstruction packages "redeemToken" [
    ("index", .u16 index),
    ("timestamp", .i64 timestamp),
    ("proofs", .buffers proofs),
    ("receivingAmount", .u64 receivingAmount),
    ("sendingAmount", .u64 sendingAmount)]
    (redemptionKeys vaultAddress scheduleAddress vaultSignerAddress vaultVestingTokenAddress
      vaultFeeTokenAddress userAddress userVestingTokenAddress userFeeTokenAddress) vaultProgramId

def redeemTokenMulti (vaultAddress scheduleAddress : Pubkey) (index : UInt16) (timestamp : Int64)
    (proofs : List Hash) (receivingTokenMint : Pubkey) (receivingAmount sendingAmount : UInt64)
    (vaultSignerAddress vaultVestingTokenAddress : Pubkey) (vaultFeeTokenAddress : Option Pubkey)
    (userAddress userVestingTokenAddress : Pubkey) (userFeeTokenAddress : Option Pubkey)
    (vaultProgramId : Pubkey) : Option TransactionInstruction :=
  transactionInstruction packages "redeemTokenMulti" [
    ("index", .u16 index),
    ("timestamp", .i64 timestamp),
    ("proofs", .buffers proofs),
    ("receivingTokenMint", .publicKey receivingTokenMint),
    ("receivingAmount", .u64 receivingAmount),
    ("sendingAmount", .u64 sendingAmount)]
    (redemptionKeys vaultAddress scheduleAddress vaultSignerAddress vaultVestingTokenAddress
      vaultFeeTokenAddress userAddress userVestingTokenAddress userFeeTokenAddress) vaultProgramId

def transferOwnership (ownerAddress vaultAddress newOwner : Pubkey) (vaultProgramId : Pubkey) :
    Option TransactionInstruction :=
  transactionInstruction packages "transferOwnership" [("newOwner", .publicKey newOwner)] [
    ⟨ownerAddress, true, false⟩,
    ⟨vaultAddress, false, true⟩] vaultProgramId

def acceptOwnership (newOwnerAddress vaultAddress : Pubkey) (vaultProgramId : Pubkey) :
    Option TransactionInstruction :=
  transactionInstruction packages "acceptOwnership" [] [
    ⟨newOwnerAddress, true, false⟩,
    ⟨vaultAddress, false, true⟩] vaultProgramId

end

/-! ## Accounts -/

section
variable (packages : Packages)

def decodeScheduleData (data : Bytes) : Option Object := packages.decode "Schedule" data

def decodeVaultData (data : Bytes) : Option Object := packages.decode "Vault" data

end

/-! ## Addresses -/

section
variable (rt : Runtime) (packages : Packages)

/-- `PublicKey.findProgramAddressSync`, for any program. -/
def findProgramAddressSync (seeds : List Bytes) (programId : Pubkey) : Option (Pubkey × UInt8) :=
  ({ rt with programId } : Runtime).findProgramAddress seeds

def scheduleDerivationPathLayout : FieldLayout UInt64 :=
  packages.lib.struct [packages.lib.u64.property fun eventId : UInt64 => (eventId.toNat : Int)]

def findScheduleDerivationPath (eventId : UInt64) : Option Bytes :=
  packages.serialize (scheduleDerivationPathLayout packages) eventId 16

def findRootSignerAddress (vaultProgramId : Pubkey) : Option (Pubkey × UInt8) :=
  findProgramAddressSync rt
    [(packages.sha256 "Signer").bytes.take 8, (packages.sha256 "global").bytes.take 8]
    vaultProgramId

def findVaultAddress (derivationPath : Bytes) (vaultProgramId : Pubkey) :
    Option (Pubkey × UInt8) :=
  findProgramAddressSync rt [(packages.sha256 "Vault").bytes.take 8, derivationPath] vaultProgramId

def findVaultSignerAddress (vaultAddress vaultProgramId : Pubkey) : Option (Pubkey × UInt8) :=
  findProgramAddressSync rt [(packages.sha256 "Signer").bytes.take 8, vaultAddress.bytes]
    vaultProgramId

def findScheduleAddress (eventId : UInt64) (vaultProgramId : Pubkey) :
    Option (Pubkey × UInt8) := do
  let derivationPath ← findScheduleDerivationPath packages eventId
  findProgramAddressSync rt [(packages.sha256 "Schedule").bytes.take 8, derivationPath]
    vaultProgramId

end

end VaultInstructionService

/-- The call that arrives at the program.  The payer signs the transaction and pays its fee from an
account that is then writable; the other privileges are those of the metas, but for the keys that
the runtime reserves. -/
def TransactionInstruction.call (ix : TransactionInstruction) (rt : Runtime) (payer : Pubkey)
    (unixTimestamp : Int64) : Option Call :=
  if ix.programId = rt.programId then
    (dispatch (ix.keys.map AccountMeta.pubkey) ix.data).map fun instruction =>
      { signers := payer :: (ix.keys.filter AccountMeta.isSigner).map AccountMeta.pubkey
        writable := rt.unreserved
          (payer :: (ix.keys.filter AccountMeta.isWritable).map AccountMeta.pubkey)
        unixTimestamp
        instruction }
  else none

end Coin98Vault.Client

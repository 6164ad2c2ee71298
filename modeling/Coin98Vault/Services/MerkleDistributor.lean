import Mathlib.Algebra.Group.Int.Defs
import Coin98Vault.Framework.Fields
import Coin98Vault.Framework.MerkleLevels
import Coin98Vault.Program.MerkleProof

/-!
# The off-chain tree services

`merkle_distributor.service.ts`.  The three services differ in the layout of their records
only.  What they use of the two libraries is a parameter; `Lawful` states what is relied on.
-/

namespace Coin98Vault

structure MerkleNode where
  hash : Hash

/-- What the services use of `@project-serum/borsh` and of the support library. -/
structure Libraries where
  u16 : FieldLayout Int
  i64 : FieldLayout Int
  u64 : FieldLayout Int
  publicKey : FieldLayout Pubkey
  struct : {α : Type} → List (FieldLayout α) → FieldLayout α
  keckka256 : Bytes → Hash
  MerkleTree : Type
  newMerkleTree : List Hash → MerkleTree
  nodes : MerkleTree → List (List MerkleNode)
  root : MerkleTree → MerkleNode

/-- Numbers are little-endian and keys are their bytes; the levels of a tree start with its
leaves, which may be padded, and end with its root. -/
structure Libraries.Lawful (lib : Libraries) (rt : Runtime) : Prop where
  u16 : ∀ n : Int, 0 ≤ n → n < 2 ^ 16 → lib.u16.Puts n (leBytes 2 n.toNat)
  i64 : ∀ n : Int, -2 ^ 63 ≤ n → n < 2 ^ 63 → lib.i64.Puts n (leBytes 8 (n % 2 ^ 64).toNat)
  u64 : ∀ n : Int, 0 ≤ n → n < 2 ^ 64 → lib.u64.Puts n (leBytes 8 n.toNat)
  publicKey : ∀ k, lib.publicKey.Puts k k.bytes
  struct : ∀ {α : Type} (fields : List (FieldLayout α)), lib.struct fields = FieldLayout.seq fields
  keckka256 : lib.keckka256 = rt.keccak
  levels : ∀ hashes, hashes ≠ [] → ∃ padding levels,
    (lib.nodes (lib.newMerkleTree hashes)).map (List.map MerkleNode.hash) =
      (hashes ++ padding) :: levels ∧
    Merkle.Levels (redemptionScheme rt) ((hashes ++ padding) :: levels)
      (lib.root (lib.newMerkleTree hashes)).hash

namespace MerkleDistributor

/-! ## Records and their layouts -/

structure Schedule where
  index : Int
  timestamp : Int
  address : Pubkey
  sendingAmount : Int
  receivingAmount : Int

def scheduleLayout (lib : Libraries) : FieldLayout Schedule := lib.struct [
  lib.u16.property Schedule.index,
  lib.i64.property Schedule.timestamp,
  lib.publicKey.property Schedule.address,
  lib.u64.property Schedule.receivingAmount,
  lib.u64.property Schedule.sendingAmount]

structure OldVersionSchedule where
  index : Int
  address : Pubkey
  sendingAmount : Int
  receivingAmount : Int

def oldVersionScheduleLayout (lib : Libraries) : FieldLayout OldVersionSchedule := lib.struct [
  lib.u16.property OldVersionSchedule.index,
  lib.publicKey.property OldVersionSchedule.address,
  lib.u64.property OldVersionSchedule.receivingAmount,
  lib.u64.property OldVersionSchedule.sendingAmount]

structure ScheduleMultiToken where
  index : Int
  timestamp : Int
  address : Pubkey
  receivingTokenMint : Pubkey
  receivingAmount : Int
  sendingAmount : Int

def scheduleMultiTokenLayout (lib : Libraries) : FieldLayout ScheduleMultiToken := lib.struct [
  lib.u16.property ScheduleMultiToken.index,
  lib.i64.property ScheduleMultiToken.timestamp,
  lib.publicKey.property ScheduleMultiToken.address,
  lib.publicKey.property ScheduleMultiToken.receivingTokenMint,
  lib.u64.property ScheduleMultiToken.receivingAmount,
  lib.u64.property ScheduleMultiToken.sendingAmount]

/-! ## What the services share -/

/-- `none` where the layout throws. -/
def computeHash {α : Type} (lib : Libraries) (layout : FieldLayout α) (schedule : α) :
    Option Hash := do
  let buffer := List.replicate 1000 0
  let (buffer, span) ← layout schedule buffer 0
  let serialize := buffer.take span
  return lib.keckka256 serialize

def createTree {α : Type} (lib : Libraries) (layout : FieldLayout α) (schedules : List α) :
    Option lib.MerkleTree := do
  let hashes ← schedules.mapM (computeHash lib layout)
  return lib.newMerkleTree hashes

/-- The loop of `getProof`.  A level may turn out to have no such node. -/
def getProofLoop : Nat → List (List MerkleNode) → List (Option MerkleNode)
  | _, [] => []
  | currentIndex, nodes :: levels =>
    let proof := if currentIndex % 2 = 0 then nodes[currentIndex + 1]? else nodes[currentIndex - 1]?
    proof :: getProofLoop ((currentIndex - currentIndex % 2) / 2) levels

/-- The loop stops before the last level. -/
def getProof (lib : Libraries) (tree : lib.MerkleTree) (index : Nat) : List (Option MerkleNode) :=
  getProofLoop index (lib.nodes tree).dropLast

end MerkleDistributor

/-! ## The three services -/

namespace MerkleDistributionService

open MerkleDistributor

def computeHash (lib : Libraries) (schedule : MerkleDistributor.Schedule) : Option Hash :=
  MerkleDistributor.computeHash lib (scheduleLayout lib) schedule

def createTree (lib : Libraries) (schedules : List MerkleDistributor.Schedule) :
    Option lib.MerkleTree :=
  MerkleDistributor.createTree lib (scheduleLayout lib) schedules

def getProof (lib : Libraries) (tree : lib.MerkleTree) (index : Nat) : List (Option MerkleNode) :=
  MerkleDistributor.getProof lib tree index

end MerkleDistributionService

namespace OldMerkleDistributionService

open MerkleDistributor

def computeHash (lib : Libraries) (schedule : OldVersionSchedule) : Option Hash :=
  MerkleDistributor.computeHash lib (oldVersionScheduleLayout lib) schedule

def createTree (lib : Libraries) (schedules : List OldVersionSchedule) : Option lib.MerkleTree :=
  MerkleDistributor.createTree lib (oldVersionScheduleLayout lib) schedules

def getProof (lib : Libraries) (tree : lib.MerkleTree) (index : Nat) : List (Option MerkleNode) :=
  MerkleDistributor.getProof lib tree index

end OldMerkleDistributionService

namespace MerkleDistributionMultiTokenService

open MerkleDistributor

def computeHash (lib : Libraries) (schedule : ScheduleMultiToken) : Option Hash :=
  MerkleDistributor.computeHash lib (scheduleMultiTokenLayout lib) schedule

def createTree (lib : Libraries) (schedules : List ScheduleMultiToken) : Option lib.MerkleTree :=
  MerkleDistributor.createTree lib (scheduleMultiTokenLayout lib) schedules

def getProof (lib : Libraries) (tree : lib.MerkleTree) (index : Nat) : List (Option MerkleNode) :=
  MerkleDistributor.getProof lib tree index

end MerkleDistributionMultiTokenService

end Coin98Vault

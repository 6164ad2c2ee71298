import Coin98Vault.Program.MerkleProof
import Coin98Vault.Program.Reference

/-!
# Exactly the sibling lists of a record are accepted
-/

namespace Coin98Vault

/-- `verify_proof` accepts a record with a list of hashes just when the list is that of the
siblings of a position that holds the record.  Only soundness needs keccak not to collide. -/
theorem verifyProof_accepts_iff (rt : Runtime) (t : Merkle.Tree Record) (d : Record)
    (proofs : List Hash) :
    ((∃ position, t.leafAt position = some d ∧
        t.siblings (redemptionScheme rt) position = proofs) →
      Shared.verifyProof rt proofs (t.root (redemptionScheme rt)) (rt.keccak d.tryToVec) = true) ∧
    (CollisionFree rt.keccak (t.inputs (redemptionScheme rt) ++ proofInputs rt d proofs) →
      (Shared.verifyProof rt proofs (t.root (redemptionScheme rt)) (rt.keccak d.tryToVec) = true ↔
        ∃ position, t.leafAt position = some d ∧
          t.siblings (redemptionScheme rt) position = proofs)) := by
  have hcomplete (h : ∃ position, t.leafAt position = some d ∧
      t.siblings (redemptionScheme rt) position = proofs) :
      Shared.verifyProof rt proofs (t.root (redemptionScheme rt)) (rt.keccak d.tryToVec) = true := by
    obtain ⟨position, hat, rfl⟩ := h
    exact Shared.verifyProof_eq_true.mpr (Merkle.climb_siblings (redemptionScheme rt) hat)
  exact ⟨hcomplete, fun hkeccak => ⟨Shared.position_of_verifyProof hkeccak, hcomplete⟩⟩

/-- A tree of three records, lopsided and of mixed layouts, as an example. -/
def mixedTree : Merkle.Tree Record :=
  .node (.leaf (.single ⟨0, Bytes32.ofNat 1, 5, 0⟩))
    (.node (.leaf (.singleV2 ⟨1, 9, Bytes32.ofNat 2, 6, 1⟩))
      (.leaf (.multiV2 ⟨2, 9, Bytes32.ofNat 3, Bytes32.ofNat 4, 7, 2⟩)))

theorem verifyProof_accepts_iff_mixedTree :
    let d := Record.multiV2 ⟨2, 9, Bytes32.ofNat 3, Bytes32.ofNat 4, 7, 2⟩
    let proofs := mixedTree.siblings (redemptionScheme Reference.runtime) [true, true]
    ∃ position, mixedTree.leafAt position = some d ∧
      mixedTree.siblings (redemptionScheme Reference.runtime) position = proofs :=
  ((verifyProof_accepts_iff Reference.runtime mixedTree _ _).2 (by decide +kernel)).mp
    (by decide +kernel)

end Coin98Vault

import Coin98Vault.Program.Redemption

/-!
# Redemption trees

The hashing of redemption records is a sorted-pair Merkle scheme: the four layouts have four
different lengths, none of them that of an inner node.
-/

namespace Coin98Vault

/-- A leaf hashes the encoding of its record, an inner node its children in ascending order. -/
def redemptionScheme (rt : Runtime) : Merkle.Scheme Record Hash Bytes where
  hash := rt.keccak
  leaf := Record.tryToVec
  node a b := a.bytes ++ b.bytes

namespace Record

theorem tryToVec_length (r : Record) :
    r.tryToVec.length = match r with
      | single _ => 50
      | singleV2 _ => 58
      | multi _ => 82
      | multiV2 _ => 90 := by
  cases r <;>
    simp only [tryToVec, RedemptionParams.codec, RedemptionParamsV2.codec,
      RedemptionMultiParams.codec, RedemptionMultiParamsV2.codec, Codec.iso, Codec.pair,
      List.length_append, Codec.u16_width _, Codec.i64_width _, Codec.bytes32_width _,
      Codec.u64_width _]

/-- No layout is mistaken for another, no record for another of its layout. -/
theorem tryToVec_injective {r r' : Record} (h : r.tryToVec = r'.tryToVec) : r = r' := by
  have hlen := congrArg List.length h
  rw [tryToVec_length, tryToVec_length] at hlen
  cases r <;> cases r' <;> simp only [Nat.reduceEqDiff] at hlen
  case single.single => exact congrArg single (RedemptionParams.codec.encode_inj rfl rfl h)
  case singleV2.singleV2 => exact congrArg singleV2 (RedemptionParamsV2.codec.encode_inj rfl rfl h)
  case multi.multi => exact congrArg multi (RedemptionMultiParams.codec.encode_inj rfl rfl h)
  case multiV2.multiV2 =>
    exact congrArg multiV2 (RedemptionMultiParamsV2.codec.encode_inj rfl rfl h)

private theorem tryToVec_ne_node (r : Record) (a b : Hash) : r.tryToVec ≠ a.bytes ++ b.bytes := by
  intro h
  have hlen := congrArg List.length h
  rw [tryToVec_length] at hlen
  cases r <;> simp at hlen

end Record

theorem redemptionScheme_separated (rt : Runtime) : (redemptionScheme rt).Separated where
  leaf_injective _ _ h := Record.tryToVec_injective h
  node_injective _ _ _ _ h := Bytes32.append_inj h
  leaf_ne_node := Record.tryToVec_ne_node

theorem Shared.hashProof_eq (rt : Runtime) (computedHash proof : Hash) :
    Shared.hashProof rt computedHash proof =
      Merkle.above (redemptionScheme rt) computedHash proof := by
  unfold Shared.hashProof Merkle.above Merkle.pair
  split <;> rfl

/-- The loop of `verify_proof` climbs the tree. -/
theorem Shared.verifyProof_eq_true {rt : Runtime} {proofs : List Hash} {root leaf : Hash} :
    Shared.verifyProof rt proofs root leaf = true ↔
      Merkle.climb (redemptionScheme rt) proofs leaf = root := by
  have hfold : Shared.hashProof rt = Merkle.above (redemptionScheme rt) :=
    funext fun d => funext fun p => Shared.hashProof_eq rt d p
  rw [Shared.verifyProof, hfold, beq_iff_eq]
  rfl

/-- Every byte string hashed to check a record against a list of siblings. -/
def proofInputs (rt : Runtime) (r : Record) (proofs : List Hash) : List Bytes :=
  r.tryToVec :: Merkle.climbInputs (redemptionScheme rt) proofs (rt.keccak r.tryToVec)

/-- Only the siblings of a position that holds the record pass the check. -/
theorem Shared.position_of_verifyProof {rt : Runtime} {t : Merkle.Tree Record} {r : Record}
    {proofs : List Hash}
    (hkeccak : CollisionFree rt.keccak (t.inputs (redemptionScheme rt) ++ proofInputs rt r proofs))
    (h : Shared.verifyProof rt proofs (t.root (redemptionScheme rt)) (rt.keccak r.tryToVec) =
      true) :
    ∃ position, t.leafAt position = some r ∧
      t.siblings (redemptionScheme rt) position = proofs := by
  refine Merkle.exists_position_of_climb (redemptionScheme_separated rt) ?_
    (Shared.verifyProof_eq_true.mp h)
  exact fun x hx y hy => hkeccak x (List.mem_append.mpr hx) y (List.mem_append.mpr hy)

end Coin98Vault

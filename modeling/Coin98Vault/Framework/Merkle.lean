import Mathlib.Data.List.Induction
import Mathlib.Data.Set.Function

/-!
# Merkle trees with sorted pairs

Inner nodes hash the digests of their two children in ascending order, so that a proof is
a bare list of sibling digests without directions.  Leaves and inner nodes carry no domain
tag: what keeps them apart is that no leaf has the bytes of an inner node.
-/

namespace Coin98Vault.Merkle

/-- How leaves and pairs of digests become byte strings, and the hash of those. -/
structure Scheme (Leaf Digest Input : Type*) where
  hash : Input → Digest
  leaf : Leaf → Input
  node : Digest → Digest → Input

/-- Byte strings determine what they were made from. -/
structure Scheme.Separated {Leaf Digest Input : Type*} (S : Scheme Leaf Digest Input) : Prop where
  leaf_injective : ∀ l m, S.leaf l = S.leaf m → l = m
  node_injective : ∀ a b c d, S.node a b = S.node c d → a = c ∧ b = d
  leaf_ne_node : ∀ l a b, S.leaf l ≠ S.node a b

/-- A binary tree of any shape with records at its leaves. -/
inductive Tree (Leaf : Type*) where
  | leaf (l : Leaf)
  | node (left right : Tree Leaf)

namespace Tree

variable {Leaf : Type*}

def leaves : Tree Leaf → List Leaf
  | leaf l => [l]
  | node left right => left.leaves ++ right.leaves

/-- The leaf at a position, given by the turns from the root: `true` goes right. -/
def leafAt : Tree Leaf → List Bool → Option Leaf
  | leaf l, [] => some l
  | node left right, turn :: turns => if turn then right.leafAt turns else left.leafAt turns
  | _, _ => none

theorem mem_leaves_of_leafAt {t : Tree Leaf} {position : List Bool} {l : Leaf}
    (h : t.leafAt position = some l) : l ∈ t.leaves := by
  induction t generalizing position with
  | leaf m =>
    cases position with
    | nil => simpa [leafAt, leaves, eq_comm] using h
    | cons => simp [leafAt] at h
  | node left right ihl ihr =>
    cases position with
    | nil => simp [leafAt] at h
    | cons turn turns =>
      cases turn
      · exact List.mem_append_left _ (ihl (by simpa [leafAt] using h))
      · exact List.mem_append_right _ (ihr (by simpa [leafAt] using h))

end Tree

section
variable {Leaf Digest Input : Type*} [LT Digest] [DecidableLT Digest]
variable (S : Scheme Leaf Digest Input)

/-- The bytes of the inner node above two digests. -/
def pair (a b : Digest) : Input := if a < b then S.node a b else S.node b a

def above (a b : Digest) : Digest := S.hash (pair S a b)

namespace Tree

def root : Tree Leaf → Digest
  | leaf l => S.hash (S.leaf l)
  | node left right => above S (left.root) (right.root)

/-- The sibling digests on the way from a position up to the root. -/
def siblings : Tree Leaf → List Bool → List Digest
  | node left right, turn :: turns =>
      if turn then right.siblings turns ++ [left.root S] else left.siblings turns ++ [right.root S]
  | _, _ => []

/-- Every byte string hashed to compute the root. -/
def inputs : Tree Leaf → List Input
  | leaf l => [S.leaf l]
  | node left right => pair S (left.root S) (right.root S) :: (left.inputs ++ right.inputs)

end Tree

/-- Hash a digest upwards along the given siblings. -/
def climb (proofs : List Digest) (d : Digest) : Digest := proofs.foldl (above S) d

/-- Every byte string hashed on the way up. -/
def climbInputs : List Digest → Digest → List Input
  | [], _ => []
  | p :: proofs, d => pair S d p :: climbInputs proofs (above S d p)

@[simp] theorem climb_nil (d : Digest) : climb S [] d = d := rfl

@[simp] theorem climb_cons (p : Digest) (proofs : List Digest) (d : Digest) :
    climb S (p :: proofs) d = climb S proofs (above S d p) := rfl

theorem climb_concat (proofs : List Digest) (p d : Digest) :
    climb S (proofs ++ [p]) d = above S (climb S proofs d) p := by
  simp [climb]

theorem climbInputs_concat (proofs : List Digest) (p d : Digest) :
    climbInputs S (proofs ++ [p]) d = climbInputs S proofs d ++ [pair S (climb S proofs d) p] := by
  induction proofs generalizing d with
  | nil => rfl
  | cons q proofs ih => simp [climbInputs, ih]

/-- Equal inner nodes have the same children, up to their order. -/
theorem pair_inj {S : Scheme Leaf Digest Input} (hS : S.Separated) {a b c d : Digest}
    (h : pair S a b = pair S c d) : (a = c ∧ b = d) ∨ (a = d ∧ b = c) := by
  unfold pair at h
  split at h <;> split at h
  · exact .inl (hS.node_injective _ _ _ _ h)
  · exact .inr (hS.node_injective _ _ _ _ h)
  · exact .inr (hS.node_injective _ _ _ _ h).symm
  · exact .inl (hS.node_injective _ _ _ _ h).symm

theorem leaf_ne_pair {S : Scheme Leaf Digest Input} (hS : S.Separated) (l : Leaf) (a b : Digest) :
    S.leaf l ≠ pair S a b := by
  unfold pair
  split <;> exact hS.leaf_ne_node _ _ _

/-- Only the siblings of a position that holds the leaf lead from the leaf to the root, as
long as the hash has no collision among the strings of the tree and of the climb. -/
theorem exists_position_of_climb {S : Scheme Leaf Digest Input} (hS : S.Separated) {t : Tree Leaf}
    {l : Leaf} {proofs : List Digest}
    (hinj : Set.InjOn S.hash
      {x | x ∈ t.inputs S ∨ x ∈ S.leaf l :: climbInputs S proofs (S.hash (S.leaf l))})
    (h : climb S proofs (S.hash (S.leaf l)) = t.root S) :
    ∃ position, t.leafAt position = some l ∧ t.siblings S position = proofs := by
  induction t generalizing proofs with
  | leaf m =>
    rcases List.eq_nil_or_concat proofs with rfl | ⟨rest, p, rfl⟩
    · have he : S.leaf l = S.leaf m :=
        hinj (by simp) (by simp [Tree.inputs]) (by simpa [Tree.root] using h)
      exact ⟨[], by rw [hS.leaf_injective l m he]; rfl, rfl⟩
    · -- a proof too long: the climb ends in the bytes of an inner node
      rw [List.concat_eq_append, climb_concat, above] at h
      refine absurd (hinj ?_ ?_ h).symm (leaf_ne_pair hS m _ _)
      · simp [climbInputs_concat]
      · simp [Tree.inputs]
  | node left right ihl ihr =>
    rcases List.eq_nil_or_concat proofs with rfl | ⟨rest, p, rfl⟩
    · -- a proof too short: an inner node would be the leaf
      refine absurd (hinj ?_ ?_ h) (leaf_ne_pair hS l _ _)
      · simp
      · simp [Tree.inputs]
    · rw [List.concat_eq_append] at h hinj ⊢
      rw [climb_concat] at h
      have hpair := hinj (by simp [climbInputs_concat]) (by simp [Tree.inputs]) h
      -- the rest of the climb stays inside one of the two children
      have hchild (child : Tree Leaf)
          (hc : ∀ x ∈ child.inputs S, x ∈ (Tree.node left right).inputs S) :
          Set.InjOn S.hash {x | x ∈ child.inputs S ∨
            x ∈ S.leaf l :: climbInputs S rest (S.hash (S.leaf l))} := by
        apply hinj.mono
        rintro x (hx | hx)
        · exact .inl (hc x hx)
        · right
          rw [climbInputs_concat]
          simp only [List.mem_cons, List.mem_append] at hx ⊢
          tauto
      rcases pair_inj hS hpair with ⟨hc, hp⟩ | ⟨hc, hp⟩
      · obtain ⟨turns, hat, hsib⟩ := ihl (hchild left fun x hx => by simp [Tree.inputs, hx]) hc
        exact ⟨false :: turns, by simpa [Tree.leafAt] using hat, by simp [Tree.siblings, hsib, hp]⟩
      · obtain ⟨turns, hat, hsib⟩ := ihr (hchild right fun x hx => by simp [Tree.inputs, hx]) hc
        exact ⟨true :: turns, by simpa [Tree.leafAt] using hat, by simp [Tree.siblings, hsib, hp]⟩

variable [Std.Asymm (α := Digest) (· < ·)] [Std.Trichotomous (α := Digest) (· < ·)]

theorem pair_comm (a b : Digest) : pair S a b = pair S b a := by
  unfold pair
  by_cases hab : a < b
  · rw [if_pos hab, if_neg (Std.Asymm.asymm a b hab)]
  · by_cases hba : b < a
    · rw [if_neg hab, if_pos hba]
    · rw [Std.Trichotomous.trichotomous (r := fun x y : Digest => x < y) a b hab hba]

theorem above_comm (a b : Digest) : above S a b = above S b a := by
  rw [above, above, pair_comm]

/-- The siblings of a position lead from its leaf to the root. -/
theorem climb_siblings {t : Tree Leaf} {position : List Bool} {l : Leaf}
    (h : t.leafAt position = some l) :
    climb S (t.siblings S position) (S.hash (S.leaf l)) = t.root S := by
  induction t generalizing position with
  | leaf m =>
    cases position with
    | nil =>
      obtain rfl : m = l := by simpa [Tree.leafAt] using h
      rfl
    | cons => simp [Tree.leafAt] at h
  | node left right ihl ihr =>
    cases position with
    | nil => simp [Tree.leafAt] at h
    | cons turn turns =>
      cases turn
      · have hl := @ihl turns (by simpa [Tree.leafAt] using h)
        simp only [Tree.siblings, Bool.false_eq_true, if_false, climb_concat, hl, Tree.root]
      · have hr := @ihr turns (by simpa [Tree.leafAt] using h)
        simp only [Tree.siblings, if_true, climb_concat, hr, Tree.root]
        exact above_comm S _ _

end

end Coin98Vault.Merkle

import Coin98Vault.Framework.Merkle

/-!
# Merkle trees by levels

The same sorted-pair trees, kept as the list of their levels from the leaves up.  The
siblings that an index walk collects on the way are a proof of the leaf it starts from, and the
only one that does not pass through padding.
-/

namespace Coin98Vault.Merkle

section
variable {Leaf Digest Input : Type*} [LT Digest] [DecidableLT Digest]
variable (S : Scheme Leaf Digest Input)

/-- Every level pairs up the one below and may be padded, and the last one is the root alone. -/
inductive Levels : List (List Digest) → Digest → Prop
  | root (d : Digest) : Levels [[d]] d
  | level {low up : List Digest} {levels : List (List Digest)} {d : Digest}
      (even : low.length % 2 = 0)
      (pairs : ∀ j a b, low[2 * j]? = some a → low[2 * j + 1]? = some b →
        up[j]? = some (above S a b))
      (rest : Levels (up :: levels) d) : Levels (low :: up :: levels) d

/-- The other index of a pair. -/
def sibling (index : Nat) : Nat := if index % 2 = 0 then index + 1 else index - 1

/-- What lies beside the path from an index upwards, on every level but the last. -/
def siblingsAt : Nat → List (List Digest) → List (Option Digest)
  | index, low :: up :: levels => low[sibling index]? :: siblingsAt (index / 2) (up :: levels)
  | _, _ => []

variable {S}

/-- In a level that pairs up, every index has a sibling, and the two lie below one node. -/
private theorem exists_sibling [Std.Asymm (α := Digest) (· < ·)]
    [Std.Trichotomous (α := Digest) (· < ·)] {low up : List Digest} {index : Nat} {d : Digest}
    (even : low.length % 2 = 0)
    (pairs : ∀ j a b, low[2 * j]? = some a → low[2 * j + 1]? = some b →
      up[j]? = some (above S a b)) (h : low[index]? = some d) :
    ∃ p, low[sibling index]? = some p ∧ up[index / 2]? = some (above S d p) := by
  have hlt : index < low.length := (List.getElem?_eq_some_iff.mp h).1
  have hget (i : Nat) (hi : i < low.length) : ∃ p, low[i]? = some p :=
    ⟨_, List.getElem?_eq_getElem hi⟩
  unfold sibling
  by_cases hparity : index % 2 = 0
  · obtain ⟨p, hp⟩ := hget (index + 1) (by omega)
    have hindex : 2 * (index / 2) = index := by omega
    refine ⟨p, by rw [if_pos hparity, hp], pairs (index / 2) d p ?_ ?_⟩
    · rw [hindex, h]
    · rw [hindex, hp]
  · obtain ⟨p, hp⟩ := hget (index - 1) (by omega)
    have hindex : 2 * (index / 2) = index - 1 := by omega
    have hnext : index - 1 + 1 = index := by omega
    refine ⟨p, by rw [if_neg hparity, hp], ?_⟩
    rw [above_comm]
    apply pairs (index / 2) p d
    · rw [hindex, hp]
    · rw [hindex, hnext, h]

/-- The walk from a leaf finds a sibling on every level, and they lead from it to the root. -/
theorem Levels.climb [Std.Asymm (α := Digest) (· < ·)] [Std.Trichotomous (α := Digest) (· < ·)]
    {levels : List (List Digest)} {root : Digest} (h : Levels S levels root) {index : Nat}
    {d : Digest} (hd : (levels.headD [])[index]? = some d) :
    ∃ proofs, siblingsAt index levels = proofs.map some ∧ proofs.length + 1 = levels.length ∧
      Merkle.climb S proofs d = root := by
  induction h generalizing index d with
  | root r =>
    have hr : [r][index]? = some d := hd
    obtain ⟨hlt, rfl⟩ := List.getElem?_eq_some_iff.mp hr
    refine ⟨[], rfl, rfl, ?_⟩
    simp
  | level even pairs rest ih =>
    obtain ⟨p, hp, hup⟩ := exists_sibling even pairs hd
    obtain ⟨proofs, hproofs, hlength, hclimb⟩ := ih hup
    refine ⟨p :: proofs, ?_, ?_, ?_⟩
    · rw [siblingsAt, hp, hproofs]
      rfl
    · simpa using hlength
    · rw [climb_cons, hclimb]

end

/-! ## What a climb to the root has met -/

section
variable {Leaf Digest Input : Type*} [LT Digest] [DecidableLT Digest]
variable (S : Scheme Leaf Digest Input)

/-- Every byte string hashed to pair up a level. -/
def pairInputs : List Digest → List Input
  | a :: b :: rest => pair S a b :: pairInputs rest
  | _ => []

/-- Every byte string hashed to make the levels from the first. -/
def levelInputs (levels : List (List Digest)) : List Input :=
  levels.dropLast.flatMap (pairInputs S)

/-- The nodes above the first level that no pair lies below. -/
def paddingAbove : List (List Digest) → List Digest
  | low :: up :: levels => up.drop (low.length / 2) ++ paddingAbove (up :: levels)
  | _ => []

/-- What a climb meets on its way. -/
def climbNodes : List Digest → Digest → List Digest
  | [], d => [d]
  | p :: proofs, d => d :: climbNodes proofs (above S d p)

private theorem climb_mem_climbNodes (below siblings : List Digest) (d : Digest) :
    climb S below d ∈ climbNodes S (below ++ siblings) d := by
  induction below generalizing d with
  | nil => cases siblings <;> simp [climbNodes]
  | cons p below ih => exact List.mem_cons_of_mem _ (ih (above S d p))

private theorem pair_mem_climbInputs (below siblings : List Digest) (p d : Digest) :
    pair S (climb S below d) p ∈ climbInputs S (below ++ p :: siblings) d := by
  induction below generalizing d with
  | nil => exact List.mem_cons_self
  | cons q below ih => exact List.mem_cons_of_mem _ (ih (above S d q))

variable {S}

private theorem pair_mem_pairInputs {low : List Digest} {j : Nat} {a b : Digest}
    (ha : low[2 * j]? = some a) (hb : low[2 * j + 1]? = some b) : pair S a b ∈ pairInputs S low := by
  induction low using pairInputs.induct generalizing j with
  | case1 c d rest ih =>
    rw [pairInputs]
    cases j with
    | zero =>
      obtain rfl : c = a := Option.some.inj ha
      obtain rfl : d = b := Option.some.inj hb
      exact List.mem_cons_self
    | succ j => exact List.mem_cons_of_mem _ (ih ha hb)
  | case2 low hshort =>
    match low with
    | [] => simp at ha
    | [c] => simp at hb
    | c :: d :: rest => exact absurd rfl (hshort c d rest)

/-- A climb to the root meets every level in a node and leaves it with the siblings of that node,
unless it meets padding. -/
theorem Levels.exists_node_of_climb (hS : S.Separated) {levels : List (List Digest)}
    {root : Digest} (h : Levels S levels root) {l : Leaf} {proofs : List Digest}
    (hinj : Set.InjOn S.hash {x | x ∈ levelInputs S levels ∨
      x ∈ S.leaf l :: climbInputs S proofs (S.hash (S.leaf l))})
    (hpadding : ∀ d ∈ climbNodes S proofs (S.hash (S.leaf l)), d ∉ paddingAbove levels)
    (hclimb : Merkle.climb S proofs (S.hash (S.leaf l)) = root) :
    ∃ index below siblings, proofs = below ++ siblings ∧
      (levels.headD [])[index]? = some (Merkle.climb S below (S.hash (S.leaf l))) ∧
      siblingsAt index levels = siblings.map some := by
  induction h with
  | root d =>
    refine ⟨0, proofs, [], by simp, ?_, rfl⟩
    rw [hclimb]
    rfl
  | @level low up levels root even pairs rest ih =>
    have hinputs : levelInputs S (low :: up :: levels) =
        pairInputs S low ++ levelInputs S (up :: levels) := by
      simp [levelInputs]
    rw [hinputs] at hinj
    obtain ⟨index, below, siblings, hproofs, hnode, hsiblings⟩ := ih
      (hinj.mono fun x hx => hx.imp_left (List.mem_append_right _))
      (fun q hq hmem => hpadding q hq (List.mem_append_right _ hmem)) hclimb
    -- the node is not padding, so that it lies above a pair
    have hlt : index < low.length / 2 := by
      by_contra hge
      apply hpadding (Merkle.climb S below (S.hash (S.leaf l)))
      · rw [hproofs]
        exact climb_mem_climbNodes S below siblings _
      · apply List.mem_append_left
        apply List.mem_of_getElem? (i := index - low.length / 2)
        have hsum : low.length / 2 + (index - low.length / 2) = index := by omega
        rw [List.getElem?_drop, hsum]
        exact hnode
    obtain ⟨a, ha⟩ : ∃ a, low[2 * index]? = some a :=
      ⟨_, List.getElem?_eq_getElem (by omega)⟩
    obtain ⟨b, hb⟩ : ∃ b, low[2 * index + 1]? = some b :=
      ⟨_, List.getElem?_eq_getElem (by omega)⟩
    have habove : Merkle.climb S below (S.hash (S.leaf l)) = S.hash (pair S a b) :=
      Option.some.inj (hnode.symm.trans (pairs index a b ha hb))
    have hmem : pair S a b ∈ pairInputs S low ++ levelInputs S (up :: levels) :=
      List.mem_append_left _ (pair_mem_pairInputs ha hb)
    rcases List.eq_nil_or_concat below with rfl | ⟨rest, p, rfl⟩
    · -- the climb has not started: an inner node would be the leaf
      exact absurd (hinj (.inr List.mem_cons_self) (.inl hmem) habove) (leaf_ne_pair hS l a b)
    · have hsplit : proofs = rest ++ p :: siblings := by simpa using hproofs
      rw [List.concat_eq_append, climb_concat] at habove
      have hlast : pair S (Merkle.climb S rest (S.hash (S.leaf l))) p ∈
          climbInputs S proofs (S.hash (S.leaf l)) := by
        rw [hsplit]
        exact pair_mem_climbInputs S rest siblings p _
      have hpair := hinj (.inr (List.mem_cons_of_mem _ hlast)) (.inl hmem) habove
      have heven : 2 * index / 2 = index := by omega
      have hodd : (2 * index + 1) / 2 = index := by omega
      rcases pair_inj hS hpair with ⟨hd, hp⟩ | ⟨hd, hp⟩
      · refine ⟨2 * index, rest, p :: siblings, hsplit, by rw [hd]; exact ha, ?_⟩
        rw [siblingsAt, sibling, if_pos (by omega), hb, heven, hsiblings, hp]
        rfl
      · refine ⟨2 * index + 1, rest, p :: siblings, hsplit, by rw [hd]; exact hb, ?_⟩
        rw [siblingsAt, sibling, if_neg (by omega), Nat.add_sub_cancel, ha, hodd, hsiblings, hp]
        rfl

/-- Only the siblings of a place that holds the leaf lead from the leaf to the root, as long as the
climb meets no padding and the hash has no collision among the strings of both. -/
theorem Levels.exists_index_of_climb (hS : S.Separated) {leaves : List Leaf}
    {padding : List Digest} {levels : List (List Digest)} {root : Digest}
    (h : Levels S ((leaves.map (fun l => S.hash (S.leaf l)) ++ padding) :: levels) root) {l : Leaf}
    {proofs : List Digest}
    (hinj : Set.InjOn S.hash {x | x ∈ leaves.map S.leaf ++
        levelInputs S ((leaves.map (fun l => S.hash (S.leaf l)) ++ padding) :: levels) ∨
      x ∈ S.leaf l :: climbInputs S proofs (S.hash (S.leaf l))})
    (hpadding : ∀ d ∈ climbNodes S proofs (S.hash (S.leaf l)), d ∉ padding ++
      paddingAbove ((leaves.map (fun l => S.hash (S.leaf l)) ++ padding) :: levels))
    (hclimb : Merkle.climb S proofs (S.hash (S.leaf l)) = root) :
    ∃ index, leaves[index]? = some l ∧
      siblingsAt index ((leaves.map (fun l => S.hash (S.leaf l)) ++ padding) :: levels) =
        proofs.map some := by
  obtain ⟨index, below, siblings, rfl, hnode, hsiblings⟩ := h.exists_node_of_climb hS
    (hinj.mono fun x hx => hx.imp_left (List.mem_append_right _))
    (fun d hd hmem => hpadding d hd (List.mem_append_right _ hmem)) hclimb
  have hlt : index < (leaves.map fun l => S.hash (S.leaf l)).length := by
    by_contra hge
    apply hpadding _ (climb_mem_climbNodes S below siblings _)
    apply List.mem_append_left
    rw [List.headD_cons, List.getElem?_append_right (by omega)] at hnode
    exact List.mem_of_getElem? hnode
  rw [List.headD_cons, List.getElem?_append_left hlt, List.getElem?_map,
    Option.map_eq_some_iff] at hnode
  obtain ⟨m, hm, hleaf⟩ := hnode
  have hmem : S.leaf m ∈ leaves.map S.leaf := List.mem_map_of_mem (List.mem_of_getElem? hm)
  rcases List.eq_nil_or_concat below with rfl | ⟨rest, p, rfl⟩
  · have he : S.leaf m = S.leaf l :=
      hinj (.inl (List.mem_append_left _ hmem)) (.inr List.mem_cons_self) hleaf
    rw [hS.leaf_injective m l he] at hm
    exact ⟨index, hm, hsiblings⟩
  · -- a proof too long: the climb starts below the leaves
    rw [List.concat_eq_append, climb_concat] at hleaf
    have hlast : pair S (Merkle.climb S rest (S.hash (S.leaf l))) p ∈
        climbInputs S (rest.concat p ++ siblings) (S.hash (S.leaf l)) := by
      rw [List.concat_eq_append, List.append_assoc]
      exact pair_mem_climbInputs S rest siblings p _
    exact absurd (hinj (.inl (List.mem_append_left _ hmem)) (.inr (List.mem_cons_of_mem _ hlast))
      hleaf) (leaf_ne_pair hS m _ _)

end

end Coin98Vault.Merkle

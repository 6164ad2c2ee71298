import Coin98Vault.Framework.Borsh

/-!
# Packings

A packing writes a value into a cell of fixed size and reads it from there.  A value need not fill
its cell: what it does not use is left as it was and is not read.  A cell is read as a value exactly
when writing the value would not change it.
-/

namespace Coin98Vault

structure Packing (α : Type) where
  size : Nat
  pack : α → Bytes → Bytes
  unpack : Bytes → Option α
  valid : α → Bool
  pack_length : ∀ a cell, cell.length = size → (pack a cell).length = size
  pack_pack : ∀ a cell, cell.length = size → pack a (pack a cell) = pack a cell
  unpack_eq_some : ∀ cell a, cell.length = size →
    (unpack cell = some a ↔ valid a = true ∧ pack a cell = cell)

namespace Packing

variable {α β : Type}

private theorem length_take_of_add {cell : Bytes} {m n : Nat} (h : cell.length = m + n) :
    (cell.take m).length = m := by
  rw [List.length_take]
  omega

private theorem length_drop_of_add {cell : Bytes} {m n : Nat} (h : cell.length = m + n) :
    (cell.drop m).length = n := by
  rw [List.length_drop]
  omega

/-- What is packed is unpacked again. -/
theorem unpack_pack (p : Packing α) {a : α} (ha : p.valid a = true) {cell : Bytes}
    (h : cell.length = p.size) : p.unpack (p.pack a cell) = some a :=
  (p.unpack_eq_some _ _ (p.pack_length a cell h)).mpr ⟨ha, p.pack_pack a cell h⟩

/-- A value of fixed width fills its cell. -/
def ofCodec (c : Codec α) {n : Nat} (h : c.Width n) : Packing α where
  size := n
  pack a _ := c.encode a
  unpack cell := (c.decode cell).map Prod.fst
  valid := c.valid
  pack_length a _ _ := h a
  pack_pack _ _ _ := rfl
  unpack_eq_some cell a hcell := by
    simp only [Option.map_eq_some_iff, Prod.exists, exists_and_right, exists_eq_right]
    constructor
    · rintro ⟨r, hr⟩
      obtain ⟨ha, rfl⟩ := (c.decode_eq_some _ _ _).mp hr
      -- nothing of the cell is left over
      rw [List.length_append, h a] at hcell
      have hnil : r = [] := List.length_eq_zero_iff.mp (by omega)
      simp [ha, hnil]
    · rintro ⟨ha, rfl⟩
      refine ⟨[], ?_⟩
      simpa using c.decode_encode ha []

/-- One cell after the other. -/
def pair (p : Packing α) (q : Packing β) : Packing (α × β) where
  size := p.size + q.size
  pack x cell := p.pack x.1 (cell.take p.size) ++ q.pack x.2 (cell.drop p.size)
  unpack cell := (p.unpack (cell.take p.size)).bind fun a =>
    (q.unpack (cell.drop p.size)).map fun b => (a, b)
  valid x := p.valid x.1 && q.valid x.2
  pack_length x cell h := by
    rw [List.length_append, p.pack_length _ _ (length_take_of_add h),
      q.pack_length _ _ (length_drop_of_add h)]
  pack_pack x cell h := by
    have htake := length_take_of_add h
    have hdrop := length_drop_of_add h
    have hfirst := p.pack_length x.1 _ htake
    rw [List.take_left' hfirst, List.drop_left' hfirst, p.pack_pack _ _ htake,
      q.pack_pack _ _ hdrop]
  unpack_eq_some cell x h := by
    have htake := length_take_of_add h
    have hdrop := length_drop_of_add h
    have hfirst := p.pack_length x.1 _ htake
    obtain ⟨a, b⟩ := x
    simp only [Option.bind_eq_some_iff, Option.map_eq_some_iff, Prod.mk.injEq, Bool.and_eq_true]
    constructor
    · rintro ⟨a', ha, b', hb, rfl, rfl⟩
      obtain ⟨hva, hpa⟩ := (p.unpack_eq_some _ _ htake).mp ha
      obtain ⟨hvb, hpb⟩ := (q.unpack_eq_some _ _ hdrop).mp hb
      exact ⟨⟨hva, hvb⟩, by rw [hpa, hpb, List.take_append_drop]⟩
    · rintro ⟨⟨hva, hvb⟩, heq⟩
      have hcell := congrArg (List.take p.size) heq
      have hrest := congrArg (List.drop p.size) heq
      rw [List.take_left' hfirst] at hcell
      rw [List.drop_left' hfirst] at hrest
      exact ⟨a, (p.unpack_eq_some _ _ htake).mpr ⟨hva, hcell⟩, b,
        (q.unpack_eq_some _ _ hdrop).mpr ⟨hvb, hrest⟩, rfl, rfl⟩

/-- Cells that lie one after the other at the front of a buffer. -/
theorem pair_unpack_take (p : Packing α) (q : Packing β) (src : Bytes) :
    (p.pair q).unpack (src.take (p.pair q).size) = (p.unpack (src.take p.size)).bind fun a =>
      (q.unpack ((src.drop p.size).take q.size)).map fun b => (a, b) := by
  have hfirst : (src.take (p.size + q.size)).take p.size = src.take p.size := by
    rw [List.take_take, Nat.min_eq_left (Nat.le_add_right _ _)]
  have hsecond : (src.take (p.size + q.size)).drop p.size = (src.drop p.size).take q.size := by
    rw [List.drop_take, Nat.add_sub_cancel_left]
  simp only [pair, hfirst, hsecond]

theorem pair_pack_take (p : Packing α) (q : Packing β) (x : α × β) (dst : Bytes) :
    (p.pair q).pack x (dst.take (p.pair q).size) =
      p.pack x.1 (dst.take p.size) ++ q.pack x.2 ((dst.drop p.size).take q.size) := by
  have hfirst : (dst.take (p.size + q.size)).take p.size = dst.take p.size := by
    rw [List.take_take, Nat.min_eq_left (Nat.le_add_right _ _)]
  have hsecond : (dst.take (p.size + q.size)).drop p.size = (dst.drop p.size).take q.size := by
    rw [List.drop_take, Nat.add_sub_cancel_left]
  simp only [pair, hfirst, hsecond]

/-- Change of representation along a bijection. -/
def iso (p : Packing α) (toRep : β → α) (ofRep : α → β) (left : ∀ b, ofRep (toRep b) = b)
    (right : ∀ a, toRep (ofRep a) = a) : Packing β where
  size := p.size
  pack b := p.pack (toRep b)
  unpack cell := (p.unpack cell).map ofRep
  valid b := p.valid (toRep b)
  pack_length b := p.pack_length (toRep b)
  pack_pack b := p.pack_pack (toRep b)
  unpack_eq_some cell b h := by
    rw [← p.unpack_eq_some cell (toRep b) h, Option.map_eq_some_iff]
    constructor
    · rintro ⟨a, ha, rfl⟩
      rw [right]
      exact ha
    · intro ha
      exact ⟨_, ha, left b⟩

def noneTag : Bytes := [0, 0, 0, 0]
def someTag : Bytes := [1, 0, 0, 0]

/-- A tag of four bytes and a body, which is left alone where there is no value. -/
def coption (p : Packing α) : Packing (Option α) where
  size := 4 + p.size
  pack
    | none, cell => noneTag ++ cell.drop 4
    | some a, cell => someTag ++ p.pack a (cell.drop 4)
  unpack cell :=
    if cell.take 4 = noneTag then some none
    else if cell.take 4 = someTag then (p.unpack (cell.drop 4)).map some
    else none
  valid
    | none => true
    | some a => p.valid a
  pack_length a cell h := by
    have hbody := length_drop_of_add h
    cases a with
    | none => rw [List.length_append, hbody]; rfl
    | some a => rw [List.length_append, p.pack_length a _ hbody]; rfl
  pack_pack a cell h := by
    have hbody := length_drop_of_add h
    cases a with
    | none => rfl
    | some a =>
      show someTag ++ p.pack a (p.pack a (cell.drop 4)) = someTag ++ p.pack a (cell.drop 4)
      rw [p.pack_pack a _ hbody]
  unpack_eq_some cell a h := by
    have hbody := length_drop_of_add h
    have hsplit : cell.take 4 ++ cell.drop 4 = cell := List.take_append_drop 4 cell
    have htag {tag body : Bytes} (ht : tag.length = 4) :
        tag ++ body = cell ↔ cell.take 4 = tag ∧ body = cell.drop 4 := by
      constructor
      · rintro rfl
        exact ⟨List.take_left' ht, (List.drop_left' ht).symm⟩
      · rintro ⟨rfl, rfl⟩
        exact hsplit
    have hne : noneTag ≠ someTag := by decide
    cases a with
    | none =>
      dsimp only
      rw [htag rfl]
      simp only [true_and, and_true]
      constructor
      · intro ho
        by_contra hnone
        rw [if_neg hnone] at ho
        split at ho
        · simp at ho
        · cases ho
      · intro hnone
        rw [if_pos hnone]
    | some a =>
      dsimp only
      rw [htag rfl, ← and_assoc, and_right_comm, ← p.unpack_eq_some _ _ hbody]
      constructor
      · intro ho
        by_cases hnone : cell.take 4 = noneTag
        · rw [if_pos hnone] at ho
          cases ho
        · rw [if_neg hnone] at ho
          split at ho
          · rename_i hsome
            obtain ⟨a', ha', he⟩ := Option.map_eq_some_iff.mp ho
            obtain rfl := Option.some.inj he
            exact ⟨ha', hsome⟩
          · cases ho
      · rintro ⟨ha, hsome⟩
        rw [if_neg (hsome ▸ hne.symm), if_pos hsome, ha]
        rfl

end Packing

end Coin98Vault

import Coin98Vault.Framework.Borsh

/-!
# Tagged unions

Values of several kinds, each in a codec of its own behind a tag that names its kind.  Tags are of
one size and differ from each other, so that the union is a codec again.
-/

namespace Coin98Vault

/-- Distinct names of one size for finitely many kinds. -/
structure Tags (ι : Type) where
  kinds : List ι
  mem_kinds : ∀ i, i ∈ kinds
  size : Nat
  tag : ι → Bytes
  tag_length : ∀ i, (tag i).length = size
  tag_injective : ∀ i j, tag i = tag j → i = j

namespace Tags

variable {ι : Type} (t : Tags ι)

/-- The kind that the first bytes name. -/
def find (d : Bytes) : Option ι := t.kinds.find? fun i => t.tag i == d.take t.size

theorem find_eq_some {d : Bytes} {i : ι} : t.find d = some i ↔ d.take t.size = t.tag i := by
  unfold find
  constructor
  · intro h
    have htag := List.find?_some h
    exact (eq_of_beq htag).symm
  · intro h
    cases hfind : t.kinds.find? fun i => t.tag i == d.take t.size with
    | none =>
      have hnone := List.find?_eq_none.mp hfind i (t.mem_kinds i)
      simp [h] at hnone
    | some j =>
      have hbeq := List.find?_some hfind
      have htag : t.tag j = d.take t.size := eq_of_beq hbeq
      rw [t.tag_injective j i (htag.trans h)]

/-- The union of the codecs of all kinds. -/
def codec {β : ι → Type} (c : ∀ i, Codec (β i)) : Codec (Σ i, β i) where
  encode x := t.tag x.1 ++ (c x.1).encode x.2
  decode d := (t.find d).bind fun i =>
    ((c i).decode (d.drop t.size)).map fun x => (⟨i, x.1⟩, x.2)
  valid x := (c x.1).valid x.2
  decode_eq_some d x r := by
    obtain ⟨i, b⟩ := x
    simp only [Option.bind_eq_some_iff, Option.map_eq_some_iff, Prod.exists, Prod.mk.injEq]
    constructor
    · rintro ⟨j, hj, b', s, hb, hx, rfl⟩
      obtain ⟨rfl, hb'⟩ := Sigma.mk.inj hx
      obtain rfl := eq_of_heq hb'
      obtain ⟨hvalid, hrest⟩ := ((c j).decode_eq_some _ _ _).mp hb
      refine ⟨hvalid, ?_⟩
      rw [List.append_assoc, ← hrest, ← t.find_eq_some.mp hj, List.take_append_drop]
    · rintro ⟨hvalid, rfl⟩
      have hlen := t.tag_length i
      refine ⟨i, t.find_eq_some.mpr ?_, b, r, ?_, rfl, rfl⟩
      · rw [List.append_assoc, List.take_left' hlen]
      · rw [List.append_assoc, List.drop_left' hlen]
        exact (c i).decode_encode hvalid r

end Tags

end Coin98Vault

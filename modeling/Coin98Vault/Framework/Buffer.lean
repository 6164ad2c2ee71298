import Coin98Vault.Framework.Borsh

/-!
# Tagged values in fixed buffers

A value is kept as a tag and its encoding at the front of a buffer whose size never
changes.  A write does not clear what lies behind the new value, and a read ignores it.
-/

namespace Coin98Vault

/-- How a type of value is laid out in a buffer: eight bytes that name the type, then the value. -/
structure Layout (α : Type) where
  discriminator : Bytes
  discriminator_length : discriminator.length = 8
  codec : Codec α

namespace Layout

variable {α β : Type} (l : Layout α)

/-- The bytes a write puts at the front of the buffer. -/
def image (a : α) : Bytes := l.discriminator ++ l.codec.encode a

def read (d : Bytes) : Option α :=
  if d.take 8 = l.discriminator then (l.codec.decode (d.drop 8)).map Prod.fst else none

/-- Writing past the end of the buffer fails. -/
def write (a : α) (d : Bytes) : Option Bytes :=
  if l.codec.valid a = true ∧ (l.image a).length ≤ d.length then
    some (l.image a ++ d.drop (l.image a).length)
  else none

variable {l}

theorem image_length (a : α) : (l.image a).length = 8 + (l.codec.encode a).length := by
  simp only [image, List.length_append, l.discriminator_length]

theorem read_eq_some {d : Bytes} {a : α} :
    l.read d = some a ↔ l.codec.valid a = true ∧ ∃ r, d = l.image a ++ r := by
  have hlen := l.discriminator_length
  unfold read
  constructor
  · intro h
    split at h
    · rename_i htag
      simp only [Option.map_eq_some_iff, Prod.exists, exists_and_right, exists_eq_right] at h
      obtain ⟨r, h⟩ := h
      obtain ⟨hv, he⟩ := (l.codec.decode_eq_some _ _ _).mp h
      refine ⟨hv, r, ?_⟩
      rw [image, List.append_assoc, ← he, ← htag, List.take_append_drop]
    · simp at h
  · rintro ⟨hv, r, rfl⟩
    rw [image, List.append_assoc, List.take_left' hlen, List.drop_left' hlen, if_pos rfl,
      l.codec.decode_encode hv]
    rfl

theorem write_eq_some {a : α} {d d' : Bytes} :
    l.write a d = some d' ↔ l.codec.valid a = true ∧ (l.image a).length ≤ d.length ∧
      d' = l.image a ++ d.drop (l.image a).length := by
  unfold write
  split
  · rename_i h
    simp only [h, true_and, Option.some.injEq, eq_comm]
  · rename_i h
    simp only [reduceCtorEq, false_iff]
    exact fun hc => h ⟨hc.1, hc.2.1⟩

/-- A value just written reads back, whatever lay in the buffer before. -/
theorem read_of_write {a : α} {d d' : Bytes} (h : l.write a d = some d') : l.read d' = some a := by
  obtain ⟨hv, -, rfl⟩ := write_eq_some.mp h
  exact read_eq_some.mpr ⟨hv, _, rfl⟩

theorem length_of_write {a : α} {d d' : Bytes} (h : l.write a d = some d') :
    d'.length = d.length := by
  obtain ⟨-, hl, rfl⟩ := write_eq_some.mp h
  simp only [List.length_append, List.length_drop]
  omega

/-- A value read from a buffer fits in it. -/
theorem image_length_le {a : α} {d : Bytes} (h : l.read d = some a) :
    (l.image a).length ≤ d.length := by
  obtain ⟨-, r, rfl⟩ := read_eq_some.mp h
  simp

/-- Where a value was read, any value that is no longer can be written. -/
theorem write_of_read {a b : α} {d : Bytes} (h : l.read d = some a) (hb : l.codec.valid b = true)
    (hlen : (l.codec.encode b).length ≤ (l.codec.encode a).length) : ∃ d', l.write b d = some d' := by
  have hfit := image_length_le h
  refine ⟨_, write_eq_some.mpr ⟨hb, ?_, rfl⟩⟩
  rw [image_length] at hfit ⊢
  omega

/-- Writing what was read changes nothing. -/
theorem write_self {a : α} {d : Bytes} (h : l.read d = some a) : l.write a d = some d := by
  obtain ⟨hv, r, rfl⟩ := read_eq_some.mp h
  exact write_eq_some.mpr ⟨hv, by simp, by rw [List.drop_left]⟩

/-- A write over a write of the same length leaves no trace of the first. -/
theorem write_write {a b : α} {d d' : Bytes} (h : l.write a d = some d')
    (hlen : (l.codec.encode a).length = (l.codec.encode b).length) : l.write b d' = l.write b d := by
  obtain ⟨-, hl, rfl⟩ := write_eq_some.mp h
  have himage : (l.image a).length = (l.image b).length := by
    rw [image_length, image_length, hlen]
  have hdrop : (l.image a ++ d.drop (l.image a).length).drop (l.image b).length =
      d.drop (l.image b).length := by
    rw [← himage, List.drop_left]
  unfold write
  rw [hdrop]
  congr 2
  simp only [List.length_append, List.length_drop, eq_iff_iff]
  omega

/-- A buffer tagged for one type reads as nothing of another type. -/
theorem read_other {m : Layout β} {d : Bytes} {a : α} (h : l.read d = some a)
    (hne : l.discriminator ≠ m.discriminator) : m.read d = none := by
  obtain ⟨-, r, rfl⟩ := read_eq_some.mp h
  unfold read
  rw [image, List.append_assoc, List.take_left' l.discriminator_length, if_neg hne]

end Layout

end Coin98Vault

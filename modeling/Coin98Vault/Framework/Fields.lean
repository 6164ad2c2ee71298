import Coin98Vault.Framework.Bytes

/-!
# Fields in a byte buffer

A field layout writes a value into a buffer at an offset and tells how many bytes it took.
Fields written one after the other leave their bytes one after the other.
-/

namespace Coin98Vault

/-- Put bytes in the place of those at an offset. -/
def overwrite (buffer : Bytes) (offset : Nat) (bytes : Bytes) : Bytes :=
  buffer.take offset ++ bytes ++ buffer.drop (offset + bytes.length)

/-- Write a value at an offset: the buffer it leaves and the span of the value. -/
abbrev FieldLayout (α : Type) := α → Bytes → Nat → Option (Bytes × Nat)

theorem overwrite_length {buffer bytes : Bytes} {offset : Nat}
    (h : offset + bytes.length ≤ buffer.length) :
    (overwrite buffer offset bytes).length = buffer.length := by
  simp only [overwrite, List.length_append, List.length_take, List.length_drop]
  omega

/-- Adjacent writes are one write. -/
theorem overwrite_overwrite {buffer x y : Bytes} {offset : Nat}
    (h : offset + x.length + y.length ≤ buffer.length) :
    overwrite (overwrite buffer offset x) (offset + x.length) y = overwrite buffer offset (x ++ y) := by
  have hhead : (buffer.take offset ++ x).length = offset + x.length := by
    rw [List.length_append, List.length_take]
    omega
  unfold overwrite
  rw [List.take_left' hhead, List.drop_append, hhead, List.drop_drop, List.length_append,
    List.drop_eq_nil_of_le (by omega)]
  simp only [List.append_assoc, List.nil_append, List.append_cancel_left_eq]
  congr 1
  omega

/-- What was written at the front is read from the front. -/
theorem take_overwrite (buffer bytes : Bytes) :
    (overwrite buffer 0 bytes).take bytes.length = bytes := by
  simp [overwrite]

namespace FieldLayout

variable {α β : Type} {field : FieldLayout α} {fields : List (FieldLayout α)} {a : α} {x y : Bytes}

/-- Write a property of a value. -/
def property (field : FieldLayout β) (get : α → β) : FieldLayout α := fun a => field (get a)

/-- Write fields one after the other. -/
def seq : List (FieldLayout α) → FieldLayout α
  | [], _, buffer, _ => some (buffer, 0)
  | field :: fields, a, buffer, offset => do
    let (buffer, n) ← field a buffer offset
    let (buffer, m) ← seq fields a buffer (offset + n)
    return (buffer, n + m)

/-- Wherever there is room, the layout puts down these bytes. -/
def Puts (field : FieldLayout α) (a : α) (bytes : Bytes) : Prop :=
  ∀ buffer offset, offset + bytes.length ≤ buffer.length →
    field a buffer offset = some (overwrite buffer offset bytes, bytes.length)

theorem Puts.property {field : FieldLayout β} {get : α → β} (h : Puts field (get a) x) :
    Puts (field.property get) a x :=
  h

theorem Puts.nil (a : α) : Puts (seq []) a [] := by
  intro buffer offset h
  simp [seq, overwrite]

theorem Puts.cons (hfirst : Puts field a x) (hrest : Puts (seq fields) a y) :
    Puts (seq (field :: fields)) a (x ++ y) := by
  intro buffer offset h
  rw [List.length_append] at h
  have hx := hfirst buffer offset (by omega)
  have hy := hrest (overwrite buffer offset x) (offset + x.length)
    (by rw [overwrite_length (by omega)]; omega)
  rw [overwrite_overwrite (by omega)] at hy
  simp only [seq, hx, hy, List.length_append, Option.bind_eq_bind, Option.bind_some, Option.pure_def]

/-- A value written to the front of a large enough buffer is the span that was written. -/
theorem Puts.slice (h : Puts field a x) {buffer : Bytes} (hroom : x.length ≤ buffer.length) :
    (field a buffer 0).map (fun r => r.1.take r.2) = some x := by
  rw [h buffer 0 (by omega), Option.map_some, take_overwrite]

end FieldLayout

end Coin98Vault

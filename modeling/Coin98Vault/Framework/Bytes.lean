import Mathlib.Algebra.Group.Nat.Defs
import Mathlib.Data.List.Basic

/-!
# Byte strings

Little-endian words and the 32-byte arrays which hold keys and hashes, in the byte order
that compares them.
-/

namespace Coin98Vault

abbrev Bytes := List UInt8

/-- The `width` low bytes of a number, least significant first. -/
def leBytes : Nat → Nat → Bytes
  | 0, _ => []
  | width + 1, n => UInt8.ofNat n :: leBytes width (n / 256)

/-- The number that little-endian bytes spell. -/
def leValue : Bytes → Nat
  | [] => 0
  | b :: bs => b.toNat + 256 * leValue bs

@[simp] theorem leBytes_length (width n : Nat) : (leBytes width n).length = width := by
  induction width generalizing n with
  | zero => rfl
  | succ width ih => simp [leBytes, ih]

theorem leValue_lt (bs : Bytes) : leValue bs < 256 ^ bs.length := by
  induction bs with
  | nil => simp [leValue]
  | cons b bs ih =>
    have hb := b.toNat_lt
    simp only [leValue, List.length_cons, Nat.pow_succ]
    omega

theorem leValue_leBytes {width n : Nat} (h : n < 256 ^ width) : leValue (leBytes width n) = n := by
  induction width generalizing n with
  | zero => simp only [Nat.pow_zero, Nat.lt_one_iff] at h; simp [leBytes, leValue, h]
  | succ width ih =>
    have hdiv : n / 256 < 256 ^ width :=
      Nat.div_lt_of_lt_mul (by rw [Nat.pow_succ] at h; omega)
    simp only [leBytes, leValue, ih hdiv, UInt8.toNat_ofNat', Nat.reducePow]
    omega

theorem leBytes_leValue (bs : Bytes) : leBytes bs.length (leValue bs) = bs := by
  induction bs with
  | nil => rfl
  | cons b bs ih =>
    have hb := b.toNat_lt
    have hdiv : (b.toNat + 256 * leValue bs) / 256 = leValue bs := by omega
    have hhead : UInt8.ofNat (b.toNat + 256 * leValue bs) = b := by
      apply UInt8.toNat_inj.mp
      simp only [UInt8.toNat_ofNat', Nat.reducePow]
      omega
    simp only [List.length_cons, leBytes, leValue, hdiv, hhead, ih]

/-- A `[u8; 32]`: the bytes of a key or of a hash. -/
structure Bytes32 where
  bytes : Bytes
  length_bytes : bytes.length = 32
  deriving DecidableEq

namespace Bytes32

attribute [simp] length_bytes

theorem bytes_injective {a b : Bytes32} (h : a.bytes = b.bytes) : a = b := by
  cases a; cases b; simpa using h

/-- The array whose leading bytes are the little-endian digits of `n`. -/
def ofNat (n : Nat) : Bytes32 := ⟨leBytes 32 n, leBytes_length 32 n⟩

instance : Inhabited Bytes32 := ⟨ofNat 0⟩

/-- Arrays compare byte by byte from the front. -/
instance : LT Bytes32 := ⟨fun a b => a.bytes < b.bytes⟩

instance : DecidableLT Bytes32 := fun a b => inferInstanceAs (Decidable (a.bytes < b.bytes))

instance : Std.Asymm (α := Bytes32) (· < ·) :=
  ⟨fun a b => Std.Asymm.asymm (r := fun x y : Bytes => x < y) a.bytes b.bytes⟩

instance : Std.Trichotomous (α := Bytes32) (· < ·) :=
  ⟨fun a b hab hba => bytes_injective
    (Std.Trichotomous.trichotomous (r := fun x y : Bytes => x < y) a.bytes b.bytes hab hba)⟩

/-- Concatenated arrays can be told apart. -/
theorem append_inj {a b c d : Bytes32} (h : a.bytes ++ b.bytes = c.bytes ++ d.bytes) :
    a = c ∧ b = d := by
  have hs := List.append_inj h (by simp)
  exact ⟨bytes_injective hs.1, bytes_injective hs.2⟩

end Bytes32

end Coin98Vault

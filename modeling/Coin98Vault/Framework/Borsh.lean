import Coin98Vault.Framework.Bytes

/-!
# Borsh codecs

A codec carries the law that makes it one: what it decodes is exactly what it encodes.
Injectivity, round trips and the stability of stored values under stale trailing bytes all
follow from that law, and the combinators keep it.
-/

namespace Coin98Vault

/-- An encoding of `α` that a decoder recovers from the front of any byte string. -/
structure Codec (α : Type) where
  encode : α → Bytes
  decode : Bytes → Option (α × Bytes)
  valid : α → Bool
  decode_eq_some : ∀ d a r, decode d = some (a, r) ↔ valid a = true ∧ d = encode a ++ r

namespace Codec

variable {α β : Type}

theorem decode_encode (c : Codec α) {a : α} (h : c.valid a = true) (r : Bytes) :
    c.decode (c.encode a ++ r) = some (a, r) :=
  (c.decode_eq_some _ _ _).mpr ⟨h, rfl⟩

/-- No encoding is a prefix of another one. -/
theorem encode_append_inj (c : Codec α) {a b : α} {r s : Bytes} (ha : c.valid a = true)
    (hb : c.valid b = true) (h : c.encode a ++ r = c.encode b ++ s) : a = b ∧ r = s := by
  have hd := c.decode_encode ha r
  rw [h, c.decode_encode hb s] at hd
  simpa [eq_comm] using hd

theorem encode_inj (c : Codec α) {a b : α} (ha : c.valid a = true) (hb : c.valid b = true)
    (h : c.encode a = c.encode b) : a = b :=
  (c.encode_append_inj (r := []) (s := []) ha hb (by simpa using h)).1

/-- Every value of the codec takes `n` bytes. -/
def Width (c : Codec α) (n : Nat) : Prop := ∀ a, (c.encode a).length = n

/-- Nothing to write. -/
def unit : Codec Unit where
  encode _ := []
  decode d := some ((), d)
  valid _ := true
  decode_eq_some d a r := by simp [eq_comm]

/-- Change of representation along a bijection. -/
def iso (c : Codec α) (toRep : β → α) (ofRep : α → β) (left : ∀ b, ofRep (toRep b) = b)
    (right : ∀ a, toRep (ofRep a) = a) : Codec β where
  encode b := c.encode (toRep b)
  decode d := (c.decode d).map fun x => (ofRep x.1, x.2)
  valid b := c.valid (toRep b)
  decode_eq_some d b r := by
    simp only [Option.map_eq_some_iff, Prod.exists, Prod.mk.injEq]
    constructor
    · rintro ⟨a, s, h, rfl, rfl⟩
      simpa [right] using (c.decode_eq_some d a s).mp h
    · intro h
      exact ⟨toRep b, r, (c.decode_eq_some d _ r).mpr h, left b, rfl⟩

/-- One field after the other. -/
def pair (c : Codec α) (d : Codec β) : Codec (α × β) where
  encode x := c.encode x.1 ++ d.encode x.2
  decode bs := (c.decode bs).bind fun x => (d.decode x.2).map fun y => ((x.1, y.1), y.2)
  valid x := c.valid x.1 && d.valid x.2
  decode_eq_some bs x r := by
    obtain ⟨a, b⟩ := x
    simp only [Option.bind_eq_some_iff, Option.map_eq_some_iff, Prod.exists, Prod.mk.injEq,
      Bool.and_eq_true]
    constructor
    · rintro ⟨a', s, ha, b', t, hb, ⟨rfl, rfl⟩, rfl⟩
      obtain ⟨hva, rfl⟩ := (c.decode_eq_some _ _ _).mp ha
      obtain ⟨hvb, rfl⟩ := (d.decode_eq_some _ _ _).mp hb
      exact ⟨⟨hva, hvb⟩, by rw [List.append_assoc]⟩
    · rintro ⟨⟨hva, hvb⟩, rfl⟩
      refine ⟨a, d.encode b ++ r, ?_, b, r, d.decode_encode hvb r, ⟨rfl, rfl⟩, rfl⟩
      rw [List.append_assoc]
      exact c.decode_encode hva _

/-- A number of `width` little-endian bytes. -/
def nat (width : Nat) : Codec Nat where
  encode n := leBytes width n
  decode d := if width ≤ d.length then some (leValue (d.take width), d.drop width) else none
  valid n := decide (n < 256 ^ width)
  decode_eq_some d n r := by
    simp only [decide_eq_true_eq]
    constructor
    · intro h
      split at h
      · rename_i hw
        simp only [Option.some.injEq, Prod.mk.injEq] at h
        obtain ⟨rfl, rfl⟩ := h
        have hl : (d.take width).length = width := by simp [hw]
        have hlt := leValue_lt (d.take width)
        have hbytes := leBytes_leValue (d.take width)
        rw [hl] at hlt hbytes
        exact ⟨hlt, by rw [hbytes, List.take_append_drop]⟩
      · simp at h
    · rintro ⟨hn, rfl⟩
      rw [if_pos (by simp), List.take_left' (by simp), List.drop_left' (by simp),
        leValue_leBytes hn]

/-- A fixed-width word, read through its numeric value. -/
def word (width : Nat) (toNat : β → Nat) (ofNat : Nat → β) (hlt : ∀ b, toNat b < 256 ^ width)
    (left : ∀ b, ofNat (toNat b) = b) (right : ∀ n, n < 256 ^ width → toNat (ofNat n) = n) :
    Codec β where
  encode b := leBytes width (toNat b)
  decode d := ((nat width).decode d).map fun x => (ofNat x.1, x.2)
  valid _ := true
  decode_eq_some d b r := by
    simp only [Option.map_eq_some_iff, Prod.exists, Prod.mk.injEq, true_and]
    constructor
    · rintro ⟨n, s, h, rfl, rfl⟩
      obtain ⟨hn, rfl⟩ := ((nat width).decode_eq_some d n s).mp h
      have hn' : n < 256 ^ width := by simpa [nat] using hn
      rw [right n hn']
      rfl
    · rintro rfl
      exact ⟨toNat b, r, ((nat width).decode_eq_some _ _ _).mpr
        ⟨by simpa [nat] using hlt b, rfl⟩, left b, rfl⟩

private theorem word_width {width : Nat} {toNat : β → Nat} {ofNat : Nat → β} {hlt left right} :
    (word width toNat ofNat hlt left right).Width width := fun b => leBytes_length width (toNat b)

def u8 : Codec UInt8 := word 1 UInt8.toNat UInt8.ofNat (fun b => b.toNat_lt)
  (fun _ => UInt8.ofNat_toNat) (fun _ h => by simpa using h)

def u16 : Codec UInt16 := word 2 UInt16.toNat UInt16.ofNat (fun b => b.toNat_lt)
  (fun _ => UInt16.ofNat_toNat) (fun _ h => by simpa using h)

def u64 : Codec UInt64 := word 8 UInt64.toNat UInt64.ofNat (fun b => b.toNat_lt)
  (fun _ => UInt64.ofNat_toNat) (fun _ h => by simpa using h)

/-- Two's complement. -/
def i64 : Codec Int64 :=
  u64.iso Int64.toUInt64 UInt64.toInt64 (fun _ => rfl) (fun _ => rfl)

theorem u8_width : u8.Width 1 := word_width
theorem u16_width : u16.Width 2 := word_width
theorem u64_width : u64.Width 8 := word_width
theorem i64_width : i64.Width 8 := fun a => u64_width a.toUInt64

/-- A byte that tags one of finitely many values; other bytes are refused. -/
def tag (toByte : β → UInt8) (ofByte : UInt8 → Option β)
    (h : ∀ n b, ofByte n = some b ↔ n = toByte b) : Codec β where
  encode b := [toByte b]
  decode
    | [] => none
    | n :: r => (ofByte n).map fun b => (b, r)
  valid _ := true
  decode_eq_some d b r := by
    cases d with
    | nil => simp
    | cons n d =>
      simp only [Option.map_eq_some_iff, Prod.mk.injEq, h, true_and, List.cons_append,
        List.nil_append, List.cons.injEq]
      constructor
      · rintro ⟨b, rfl, rfl, rfl⟩; exact ⟨rfl, rfl⟩
      · rintro ⟨rfl, rfl⟩; exact ⟨b, rfl, rfl, rfl⟩

theorem tag_width {toByte : β → UInt8} {ofByte : UInt8 → Option β} {h} :
    (tag toByte ofByte h).Width 1 := fun _ => rfl

def boolByte (b : Bool) : UInt8 := if b then 1 else 0

def boolOfByte (n : UInt8) : Option Bool :=
  if n = 0 then some false else if n = 1 then some true else none

def bool : Codec Bool := tag boolByte boolOfByte fun n b => by
  unfold boolOfByte boolByte
  cases b <;> (repeat' split) <;> simp_all

theorem bool_width : bool.Width 1 := tag_width

/-- A `[u8; 32]` is its bytes. -/
def bytes32 : Codec Bytes32 where
  encode a := a.bytes
  decode d := if h : 32 ≤ d.length then some (⟨d.take 32, by simp [h]⟩, d.drop 32) else none
  valid _ := true
  decode_eq_some d a r := by
    simp only [true_and]
    constructor
    · intro h
      split at h
      · simp only [Option.some.injEq, Prod.mk.injEq] at h
        obtain ⟨rfl, rfl⟩ := h
        exact (List.take_append_drop 32 d).symm
      · simp at h
    · rintro rfl
      rw [dif_pos (by simp)]
      simp only [Option.some.injEq, Prod.mk.injEq]
      exact ⟨Bytes32.bytes_injective (List.take_left' (by simp)), List.drop_left' (by simp)⟩

theorem bytes32_width : bytes32.Width 32 := fun a => a.length_bytes

def encodeAll (c : Codec α) : List α → Bytes
  | [] => []
  | a :: as => c.encode a ++ encodeAll c as

def decodeAll (c : Codec α) : Nat → Bytes → Option (List α × Bytes)
  | 0, d => some ([], d)
  | n + 1, d => (c.decode d).bind fun x => (decodeAll c n x.2).map fun y => (x.1 :: y.1, y.2)

theorem decodeAll_eq_some (c : Codec α) (n : Nat) (d : Bytes) (as : List α) (r : Bytes) :
    decodeAll c n d = some (as, r) ↔
      as.length = n ∧ as.all c.valid = true ∧ d = encodeAll c as ++ r := by
  induction n generalizing d as with
  | zero =>
    simp only [decodeAll, Option.some.injEq, Prod.mk.injEq, List.length_eq_zero_iff]
    constructor
    · rintro ⟨rfl, rfl⟩; simp [encodeAll]
    · rintro ⟨rfl, -, rfl⟩; simp
  | succ n ih =>
    simp only [decodeAll, Option.bind_eq_some_iff, Option.map_eq_some_iff, Prod.exists,
      Prod.mk.injEq]
    constructor
    · rintro ⟨a, s, ha, as', t, has, rfl, rfl⟩
      obtain ⟨hva, rfl⟩ := (c.decode_eq_some _ _ _).mp ha
      obtain ⟨rfl, hvas, rfl⟩ := (ih s as').mp has
      exact ⟨rfl, by simp [hva, hvas], by simp [encodeAll]⟩
    · rintro ⟨hl, hv, rfl⟩
      cases as with
      | nil => simp at hl
      | cons a as =>
        simp only [List.all_cons, Bool.and_eq_true] at hv
        refine ⟨a, encodeAll c as ++ r, ?_, as, r, ?_, rfl, rfl⟩
        · rw [encodeAll, List.append_assoc]
          exact c.decode_encode hv.1 _
        · exact (ih _ as).mpr ⟨by simpa using hl, hv.2, rfl⟩

/-- A vector: its length as a `u32`, then its elements. -/
def vec (c : Codec α) : Codec (List α) where
  encode as := leBytes 4 as.length ++ encodeAll c as
  decode d := ((nat 4).decode d).bind fun x => decodeAll c x.1 x.2
  valid as := decide (as.length < 256 ^ 4) && as.all c.valid
  decode_eq_some d as r := by
    simp only [Option.bind_eq_some_iff, Prod.exists, Bool.and_eq_true, decide_eq_true_eq]
    constructor
    · rintro ⟨n, s, hn, has⟩
      obtain ⟨hlt, rfl⟩ := ((nat 4).decode_eq_some _ _ _).mp hn
      obtain ⟨rfl, hv, rfl⟩ := (decodeAll_eq_some c _ _ _ _).mp has
      exact ⟨⟨by simpa [nat] using hlt, hv⟩, by rw [List.append_assoc]; rfl⟩
    · rintro ⟨⟨hlt, hv⟩, rfl⟩
      refine ⟨as.length, encodeAll c as ++ r, ?_, (decodeAll_eq_some c _ _ _ _).mpr ⟨rfl, hv, rfl⟩⟩
      rw [List.append_assoc]
      exact (nat 4).decode_encode (by simpa [nat] using hlt) _

private theorem encodeAll_length {c : Codec α} {n : Nat} (h : c.Width n) (as : List α) :
    (encodeAll c as).length = n * as.length := by
  induction as with
  | nil => rfl
  | cons a as ih => rw [encodeAll, List.length_append, h a, ih, List.length_cons, Nat.mul_succ]; omega

theorem vec_length {c : Codec α} {n : Nat} (h : c.Width n) (as : List α) :
    (c.vec.encode as).length = 4 + n * as.length := by
  simp only [vec, List.length_append, leBytes_length, encodeAll_length h]

/-- A codec that encodes every value. -/
def Total (c : Codec α) : Prop := ∀ a, c.valid a = true

theorem u8_total : u8.Total := fun _ => rfl
theorem u16_total : u16.Total := fun _ => rfl
theorem u64_total : u64.Total := fun _ => rfl
theorem i64_total : i64.Total := fun _ => rfl
theorem bool_total : bool.Total := fun _ => rfl
theorem bytes32_total : bytes32.Total := fun _ => rfl

theorem vec_valid {c : Codec α} (h : c.Total) (as : List α) :
    c.vec.valid as = true ↔ as.length < 2 ^ 32 := by
  have hall : as.all c.valid = true := List.all_eq_true.mpr fun a _ => h a
  have hpow : (256 : Nat) ^ 4 = 2 ^ 32 := by decide
  simp only [vec, hall, hpow, Bool.and_true, decide_eq_true_eq]

end Codec

end Coin98Vault

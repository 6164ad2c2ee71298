import Coin98Vault.Framework.Borsh

/-!
# Described formats

An interface description names the types of some fields.  What it describes is a codec of data
without static types; a typed codec is one of its views if its values, seen as such data, have the
same bytes.
-/

namespace Coin98Vault

/-- The types of an interface description. -/
inductive Schema where
  | u8
  | u16
  | u64
  | i64
  | bool
  | publicKey
  | array (element : Schema) (length : Nat)
  | vec (element : Schema)
  | enum (variants : List String)
  deriving DecidableEq

/-- A string of bytes. -/
abbrev Schema.bytes : Schema := .vec .u8

/-- Data without static types; a buffer is the list of its bytes. -/
inductive Datum where
  | number (n : Int)
  | bool (b : Bool)
  | publicKey (k : Bytes32)
  | list (elements : List Datum)
  | variant (name : String)

/-- The data of a buffer. -/
def Datum.ofBytes (bytes : Bytes) : Datum := .list (bytes.map fun n => .number n.toNat)

namespace Codec

variable {α β γ δ : Type}

/-- Change of representation along a partial bijection. -/
def convert (c : Codec α) (make : α → Option β) (take : β → Option α)
    (h : ∀ a b, make a = some b ↔ take b = some a) : Codec β where
  encode b := ((take b).map c.encode).getD []
  decode d := (c.decode d).bind fun x => (make x.1).map fun b => (b, x.2)
  valid b := ((take b).map c.valid).getD false
  decode_eq_some d b r := by
    simp only [Option.bind_eq_some_iff, Option.map_eq_some_iff, Prod.exists, Prod.mk.injEq]
    constructor
    · rintro ⟨a, s, hd, b, hb, rfl, rfl⟩
      obtain ⟨hvalid, hbytes⟩ := (c.decode_eq_some _ _ _).mp hd
      rw [(h a b).mp hb]
      exact ⟨hvalid, hbytes⟩
    · rintro ⟨hvalid, hbytes⟩
      cases ha : take b with
      | none => simp [ha] at hvalid
      | some a =>
        rw [ha] at hvalid hbytes
        exact ⟨a, r, (c.decode_eq_some _ _ _).mpr ⟨hvalid, hbytes⟩, b, (h a b).mpr ha, rfl, rfl⟩

/-- A known number of values. -/
def array (c : Codec α) (n : Nat) : Codec (List α) where
  encode := encodeAll c
  decode := decodeAll c n
  valid as := decide (as.length = n) && as.all c.valid
  decode_eq_some d as r := by
    rw [decodeAll_eq_some, Bool.and_eq_true, decide_eq_true_eq, and_assoc]

private theorem u8_encode (n : UInt8) : u8.encode n = [n] := by
  simp [u8, word, leBytes]

private theorem encodeAll_u8 (bytes : Bytes) : encodeAll u8 bytes = bytes := by
  induction bytes with
  | nil => rfl
  | cons n bytes ih => simp [encodeAll, u8_encode, ih]

/-! ## Data -/

/-- Data of another shape. -/
def datum (c : Codec α) (make : α → Datum) (take : Datum → Option α)
    (h : ∀ a b, make a = b ↔ take b = some a) : Codec Datum :=
  c.convert (fun a => some (make a)) take (fun a b => by rw [Option.some.injEq, h])

def number (c : Codec α) (toInt : α → Int) (ofInt : Int → α) (left : ∀ a, ofInt (toInt a) = a) :
    Codec Datum :=
  c.datum (fun a => .number (toInt a))
    (fun
      | .number n => if toInt (ofInt n) = n then some (ofInt n) else none
      | _ => none)
    (fun a b => by
      constructor
      · rintro rfl
        simp [left]
      · intro h
        split at h
        · split at h
          · rename_i n hn
            obtain rfl := Option.some.inj h
            rw [hn]
          · cases h
        · cases h)

def listDatum (c : Codec (List Datum)) : Codec Datum :=
  c.datum .list
    (fun
      | .list elements => some elements
      | _ => none)
    (fun a b => by
      constructor
      · rintro rfl
        rfl
      · intro h
        split at h
        · rw [Option.some.inj h]
        · cases h)

/-- One of some names, by its position. -/
def enumDatum (variants : List String) : Codec Datum :=
  u8.convert
    (fun i => variants[i.toNat]?.bind fun name =>
      if variants.idxOf name = i.toNat then some (.variant name) else none)
    (fun
      | .variant name =>
        if name ∈ variants ∧ variants.idxOf name < 256 then
          some (UInt8.ofNat (variants.idxOf name))
        else none
      | _ => none)
    (fun i b => by
      constructor
      · intro h
        obtain ⟨name, hname, hb⟩ := Option.bind_eq_some_iff.mp h
        split at hb
        · rename_i hposition
          obtain rfl := Option.some.inj hb
          have hlt := i.toNat_lt
          dsimp only
          rw [if_pos ⟨List.mem_of_getElem? hname, by omega⟩, hposition, UInt8.ofNat_toNat]
        · cases hb
      · intro h
        split at h
        · split at h
          · rename_i name hname
            obtain rfl := Option.some.inj h
            have hposition : (UInt8.ofNat (variants.idxOf name)).toNat = variants.idxOf name := by
              rw [UInt8.toNat_ofNat']
              exact Nat.mod_eq_of_lt hname.2
            have hlt := List.idxOf_lt_length_of_mem hname.1
            simp [hposition, List.getElem?_eq_getElem hlt]
          · cases h
        · cases h)

end Codec

namespace Schema

/-- The codec that a type stands for. -/
def codec : Schema → Codec Datum
  | u8 => Codec.u8.number (fun n => n.toNat) (fun n => UInt8.ofNat n.toNat) (fun n => by simp)
  | u16 => Codec.u16.number (fun n => n.toNat) (fun n => UInt16.ofNat n.toNat) (fun n => by simp)
  | u64 => Codec.u64.number (fun n => n.toNat) (fun n => UInt64.ofNat n.toNat) (fun n => by simp)
  | i64 => Codec.i64.number Int64.toInt Int64.ofInt (fun n => by simp)
  | bool => Codec.bool.datum .bool
      (fun
        | .bool b => some b
        | _ => none)
      (fun a b => by cases b <;> simp [eq_comm])
  | publicKey => Codec.bytes32.datum .publicKey
      (fun
        | .publicKey k => some k
        | _ => none)
      (fun a b => by cases b <;> simp [eq_comm])
  | array element length => (element.codec.array length).listDatum
  | vec element => element.codec.vec.listDatum
  | enum variants => Codec.enumDatum variants

/-- Fields by position. -/
def fields : List Schema → Codec (List Datum)
  | [] => Codec.unit.convert (fun _ => some [])
      (fun
        | [] => some ()
        | _ :: _ => none)
      (fun a b => by cases b <;> simp)
  | s :: rest => (s.codec.pair (fields rest)).convert (fun x => some (x.1 :: x.2))
      (fun
        | a :: as => some (a, as)
        | [] => none)
      (fun a b => by cases b <;> simp [Prod.ext_iff, eq_comm])

end Schema

/-! ## Named fields -/

/-- The fields of a described structure. -/
abbrev Fields := List (String × Schema)

/-- A value with named properties. -/
abbrev Object := List (String × Datum)

namespace Fields

def codec (fields : Fields) : Codec (List Datum) := Schema.fields (fields.map Prod.snd)

/-- The properties that the fields name, in the order of the fields. -/
def select (fields : Fields) (o : Object) : Option (List Datum) :=
  fields.mapM fun field => o.lookup field.1

def object (fields : Fields) (data : List Datum) : Object := (fields.map Prod.fst).zip data

end Fields

/-! ## Views -/

/-- The values of a codec, seen as data of another one, have the same bytes. -/
structure Codec.Views {α β : Type} (c : Codec α) (d : Codec β) (view : α → β) : Prop where
  valid : ∀ b, d.valid b = true ↔ ∃ a, c.valid a = true ∧ view a = b
  encode : ∀ a, d.encode (view a) = c.encode a

namespace Codec.Views

variable {α β γ δ : Type} {c : Codec α} {d : Codec β} {view : α → β}

theorem of_valid (h : c.Views d view) {a : α} (ha : c.valid a = true) : d.valid (view a) = true :=
  (h.valid _).mpr ⟨a, ha, rfl⟩

/-- No two values are seen as one. -/
theorem inj (h : c.Views d view) {a b : α} (ha : c.valid a = true) (hb : c.valid b = true)
    (hab : view a = view b) : a = b := by
  apply c.encode_inj ha hb
  rw [← h.encode a, hab, h.encode b]

theorem valid_iff_existsUnique (h : c.Views d view) (b : β) :
    d.valid b = true ↔ ∃! a, c.valid a = true ∧ view a = b := by
  rw [h.valid b]
  constructor
  · intro hb
    obtain ⟨a, ha, hview⟩ := hb
    exact ⟨a, ⟨ha, hview⟩, fun a' h' => h.inj h'.1 ha (h'.2.trans hview.symm)⟩
  · exact ExistsUnique.exists

/-- Whatever is read, is read alike. -/
theorem decode (h : c.Views d view) (bytes : Bytes) :
    d.decode bytes = (c.decode bytes).map fun x => (view x.1, x.2) := by
  ext ⟨b, r⟩
  rw [d.decode_eq_some, h.valid, Option.map_eq_some_iff]
  constructor
  · rintro ⟨⟨a, ha, rfl⟩, rfl⟩
    rw [h.encode a]
    exact ⟨(a, r), c.decode_encode ha r, rfl⟩
  · rintro ⟨⟨a, s⟩, hread, hview⟩
    obtain ⟨rfl, rfl⟩ := Prod.mk.inj hview
    obtain ⟨ha, hbytes⟩ := (c.decode_eq_some _ _ _).mp hread
    refine ⟨⟨a, ha, rfl⟩, ?_⟩
    rw [h.encode a]
    exact hbytes

private theorem convert (hc : c.Views d view) {make : β → Option γ} {take : γ → Option β}
    {f : β → γ} (h : ∀ a b, make a = some b ↔ take b = some a) (hmake : ∀ a, make a = some (f a)) :
    c.Views (d.convert make take h) fun a => f (view a) := by
  have htake (a : β) : take (f a) = some a := (h a (f a)).mp (hmake a)
  constructor
  · intro b
    constructor
    · intro hb
      cases ha : take b with
      | none => simp [Codec.convert, ha] at hb
      | some a =>
        have hvalid : d.valid a = true := by simpa [Codec.convert, ha] using hb
        obtain ⟨a', ha', rfl⟩ := (hc.valid a).mp hvalid
        have hmade := (h _ b).mpr ha
        rw [hmake] at hmade
        exact ⟨a', ha', Option.some.inj hmade⟩
    · rintro ⟨a, ha, rfl⟩
      simpa [Codec.convert, htake] using hc.of_valid ha
  · intro a
    simpa [Codec.convert, htake] using hc.encode a

theorem refl (c : Codec α) : c.Views c id where
  valid b := by simp
  encode a := rfl

theorem trans {e : Codec γ} {view' : β → γ} (h : c.Views d view) (h' : d.Views e view') :
    c.Views e fun a => view' (view a) where
  valid b := by
    rw [h'.valid]
    constructor
    · intro hb
      obtain ⟨x, hx, rfl⟩ := hb
      obtain ⟨a, ha, rfl⟩ := (h.valid x).mp hx
      exact ⟨a, ha, rfl⟩
    · intro hb
      obtain ⟨a, ha, rfl⟩ := hb
      exact ⟨view a, h.of_valid ha, rfl⟩
  encode a := by rw [h'.encode, h.encode]

private theorem datum (hc : c.Views d view) {make : β → Datum} {take : Datum → Option β}
    (h : ∀ a b, make a = b ↔ take b = some a) :
    c.Views (d.datum make take h) fun a => make (view a) :=
  hc.convert _ fun _ => rfl

theorem number {toInt : α → Int} {ofInt : Int → α} (left : ∀ a, ofInt (toInt a) = a) :
    c.Views (c.number toInt ofInt left) fun a => .number (toInt a) :=
  (refl c).datum _

theorem iso {toRep : γ → α} {ofRep : α → γ} {left : ∀ b, ofRep (toRep b) = b}
    {right : ∀ a, toRep (ofRep a) = a} (h : c.Views d view) :
    (c.iso toRep ofRep left right).Views d fun b => view (toRep b) where
  valid b := by
    rw [h.valid]
    constructor
    · rintro ⟨a, ha, rfl⟩
      refine ⟨ofRep a, ?_, by rw [right]⟩
      show c.valid (toRep (ofRep a)) = true
      rw [right]
      exact ha
    · rintro ⟨b', hb', rfl⟩
      exact ⟨toRep b', hb', rfl⟩
  encode b := h.encode (toRep b)

/-! ### Lists -/

private theorem all_valid (h : c.Views d view) (bs : List β) :
    bs.all d.valid = true ↔ ∃ as : List α, as.all c.valid = true ∧ as.map view = bs := by
  induction bs with
  | nil => simp
  | cons b bs ih =>
    rw [List.all_cons, Bool.and_eq_true, h.valid, ih]
    constructor
    · rintro ⟨⟨a, ha, rfl⟩, as, has, rfl⟩
      exact ⟨a :: as, by simp [ha, has], rfl⟩
    · rintro ⟨as, has, hmap⟩
      obtain ⟨a, as, rfl, rfl, rfl⟩ := List.map_eq_cons_iff.mp hmap
      rw [List.all_cons, Bool.and_eq_true] at has
      exact ⟨⟨a, has.1, rfl⟩, as, has.2, rfl⟩

theorem encodeAll (h : c.Views d view) (as : List α) :
    Codec.encodeAll d (as.map view) = Codec.encodeAll c as := by
  induction as with
  | nil => rfl
  | cons a as ih => simp only [List.map_cons, Codec.encodeAll, h.encode, ih]

theorem vec (h : c.Views d view) : c.vec.Views d.vec fun as => as.map view where
  valid bs := by
    simp only [Codec.vec, Bool.and_eq_true, decide_eq_true_eq, h.all_valid]
    constructor
    · rintro ⟨hlen, as, has, rfl⟩
      exact ⟨as, ⟨by simpa using hlen, has⟩, rfl⟩
    · rintro ⟨as, ⟨hlen, has⟩, rfl⟩
      exact ⟨by simpa using hlen, as, has, rfl⟩
  encode as := by simp only [Codec.vec, List.length_map, h.encodeAll]

private theorem listDatum {d : Codec (List Datum)} {view : α → List Datum} (h : c.Views d view) :
    c.Views d.listDatum fun a => .list (view a) :=
  h.datum _

/-! ### The types -/

theorem u8 : Codec.u8.Views Schema.u8.codec fun n => .number n.toNat :=
  number _

theorem u16 : Codec.u16.Views Schema.u16.codec fun n => .number n.toNat :=
  number _

theorem u64 : Codec.u64.Views Schema.u64.codec fun n => .number n.toNat :=
  number _

theorem i64 : Codec.i64.Views Schema.i64.codec fun n => .number n.toInt :=
  number _

theorem bool : Codec.bool.Views Schema.bool.codec .bool := (refl Codec.bool).datum _

theorem publicKey : Codec.bytes32.Views Schema.publicKey.codec .publicKey :=
  (refl Codec.bytes32).datum _

/-- A vector of elements that are viewed as a type. -/
theorem vecOf {s : Schema} {view : α → Datum} (h : c.Views s.codec view) :
    c.vec.Views s.vec.codec fun as => .list (as.map view) :=
  h.vec.listDatum

theorem bytes : Codec.u8.vec.Views Schema.bytes.codec .ofBytes := u8.vecOf

/-- Two codecs side by side. -/
theorem pair {c' : Codec γ} {d' : Codec δ} {view' : γ → δ} (h : c.Views d view)
    (h' : c'.Views d' view') : (c.pair c').Views (d.pair d') fun x => (view x.1, view' x.2) where
  valid b := by
    simp only [Codec.pair, Bool.and_eq_true, h.valid, h'.valid, Prod.exists]
    constructor
    · intro hb
      obtain ⟨⟨a, ha, hview⟩, a', ha', hview'⟩ := hb
      exact ⟨a, a', ⟨ha, ha'⟩, Prod.ext hview hview'⟩
    · intro hb
      obtain ⟨a, a', ⟨ha, ha'⟩, rfl⟩ := hb
      exact ⟨⟨a, ha, rfl⟩, a', ha', rfl⟩
  encode x := by simp only [Codec.pair, h.encode, h'.encode]

theorem array (h : c.Views d view) (n : Nat) :
    (c.array n).Views (d.array n) fun as => as.map view where
  valid bs := by
    simp only [Codec.array, Bool.and_eq_true, decide_eq_true_eq, h.all_valid]
    constructor
    · intro hb
      obtain ⟨hlen, as, has, rfl⟩ := hb
      exact ⟨as, ⟨by simpa using hlen, has⟩, rfl⟩
    · intro hb
      obtain ⟨as, ⟨hlen, has⟩, rfl⟩ := hb
      exact ⟨by simpa using hlen, as, has, rfl⟩
  encode as := h.encodeAll as

/-- A string of 32 bytes is an array of them. -/
theorem bytes32 : Codec.bytes32.Views (Codec.u8.array 32) Bytes32.bytes where
  valid bs := by
    have hall : bs.all Codec.u8.valid = true := List.all_eq_true.mpr fun b _ => Codec.u8_total b
    simp only [Codec.array, hall, Bool.and_true, decide_eq_true_eq]
    constructor
    · intro hlen
      exact ⟨⟨bs, hlen⟩, rfl, rfl⟩
    · intro hb
      obtain ⟨a, -, rfl⟩ := hb
      exact a.length_bytes
  encode a := Codec.encodeAll_u8 a.bytes

theorem byteArray : Codec.bytes32.Views (Schema.array .u8 32).codec fun a => .ofBytes a.bytes :=
  (bytes32.trans (u8.array 32)).listDatum

/-- Tags are named by their position. -/
theorem enum {variants : List String} {toByte : α → UInt8} {ofByte : UInt8 → Option α}
    {name : α → String}
    {h : ∀ n a, ofByte n = some a ↔ n = toByte a}
    (hname : ∀ a, variants[(toByte a).toNat]? = some (name a)) (hnodup : variants.Nodup)
    (hall : ∀ s ∈ variants, ∃ a, name a = s) :
    (Codec.tag toByte ofByte h).Views (Schema.enum variants).codec fun a => .variant (name a) := by
  have hposition (a : α) : variants.idxOf (name a) = (toByte a).toNat := by
    obtain ⟨hlt, hget⟩ := List.getElem?_eq_some_iff.mp (hname a)
    rw [← hget, hnodup.idxOf_getElem]
  have hmem (a : α) : name a ∈ variants ∧ variants.idxOf (name a) < 256 := by
    constructor
    · exact List.mem_of_getElem? (hname a)
    · rw [hposition]
      exact (toByte a).toNat_lt
  constructor
  · intro b
    constructor
    · intro hb
      cases b with
      | variant s =>
        by_cases hs : s ∈ variants ∧ variants.idxOf s < 256
        · obtain ⟨a, rfl⟩ := hall s hs.1
          exact ⟨a, rfl, rfl⟩
        · simp [Schema.codec, Codec.enumDatum, Codec.convert, hs] at hb
      | _ => cases hb
    · intro hb
      obtain ⟨a, -, rfl⟩ := hb
      simp [Schema.codec, Codec.enumDatum, Codec.convert, hmem a, Codec.u8_total _]
  · intro a
    have hlt : (toByte a).toNat < 256 := (toByte a).toNat_lt
    simp [Schema.codec, Codec.enumDatum, Codec.convert, hmem a, hposition a, hlt, Codec.u8_encode,
      Codec.tag]

/-! ### Fields -/

theorem noFields : Codec.unit.Views (Schema.fields []) fun _ => [] :=
  (refl Codec.unit).convert _ fun _ => rfl

theorem field {s : Schema} {rest : List Schema} {c' : Codec γ} {view : α → Datum}
    {view' : γ → List Datum} (h : c.Views s.codec view) (h' : c'.Views (Schema.fields rest) view') :
    (c.pair c').Views (Schema.fields (s :: rest)) fun x => view x.1 :: view' x.2 :=
  (h.pair h').convert _ fun _ => rfl

private theorem withUnit (c : Codec α) : c.Views (c.pair Codec.unit) fun a => (a, ()) where
  valid b := by simp [Codec.pair, Codec.unit, Prod.ext_iff]
  encode a := by simp [Codec.pair, Codec.unit]

theorem lastField {s : Schema} {view : α → Datum} (h : c.Views s.codec view) :
    c.Views (Schema.fields [s]) fun a => [view a] :=
  (withUnit c).trans (h.field noFields)

end Codec.Views

end Coin98Vault

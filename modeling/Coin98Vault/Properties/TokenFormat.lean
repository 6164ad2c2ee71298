import Mathlib.Data.Option.Basic
import Coin98Vault.Framework.Packing
import Coin98Vault.Program.SplToken

/-!
# The bytes of a token account

A token account packs its fields into the first 165 bytes of the account's data.  Keys and amounts
that are not there leave their bytes as they were.
-/

namespace Coin98Vault

open Packing

private theorem AccountState.tryFromPrimitive_eq_some (n : UInt8) (state : AccountState) :
    tryFromPrimitive n = some state ↔ n = state.toByte := by
  unfold tryFromPrimitive toByte
  cases state <;> (repeat' split) <;> simp_all

def AccountState.packing : Packing AccountState :=
  ofCodec (Codec.tag toByte tryFromPrimitive tryFromPrimitive_eq_some) Codec.tag_width

def keyPacking : Packing Pubkey := ofCodec Codec.bytes32 Codec.bytes32_width

def amountPacking : Packing Nat := ofCodec (Codec.nat 8) fun n => leBytes_length 8 n

/-! ## Single fields -/

@[simp] theorem keyPacking_size : keyPacking.size = 32 := rfl
@[simp] theorem amountPacking_size : amountPacking.size = 8 := rfl
@[simp] theorem AccountState.packing_size : AccountState.packing.size = 1 := rfl
@[simp] theorem Packing.coption_size {α : Type} (p : Packing α) : p.coption.size = 4 + p.size := rfl

@[simp] theorem keyPacking_pack (k : Pubkey) (cell : Bytes) :
    keyPacking.pack k cell = k.bytes := rfl

@[simp] theorem amountPacking_pack (n : Nat) (cell : Bytes) :
    amountPacking.pack n cell = leBytes 8 n := rfl

@[simp] theorem AccountState.packing_pack (state : AccountState) (cell : Bytes) :
    packing.pack state cell = [state.toByte] := rfl

@[simp] theorem keyPacking_coption_pack (key : Option Pubkey) (cell : Bytes) :
    keyPacking.coption.pack key cell = packCoptionKey key cell := by
  cases key <;> rfl

@[simp] theorem amountPacking_coption_pack (n : Option Nat) (cell : Bytes) :
    amountPacking.coption.pack n cell = packCoptionU64 n cell := by
  cases n <;> rfl

@[simp] theorem keyPacking_unpack_take (src : Bytes) :
    keyPacking.unpack (src.take 32) = unpackKey src := by
  by_cases h : 32 ≤ src.length
  · simp [keyPacking, ofCodec, unpackKey, Codec.bytes32, h, List.take_take]
  · rw [List.take_of_length_le (by omega)]
    rfl

private theorem amountPacking_unpack_take {src : Bytes} (h : 8 ≤ src.length) :
    amountPacking.unpack (src.take 8) = some (leValue (src.take 8)) := by
  simp [amountPacking, ofCodec, Codec.nat, h, List.take_take]

@[simp] theorem keyPacking_coption_unpack_take (src : Bytes) :
    keyPacking.coption.unpack (src.take 36) = unpackCoptionKey src := by
  have htag : (src.take 36).take 4 = src.take 4 := by simp [List.take_take]
  have hbody : (src.take 36).drop 4 = (src.drop 4).take 32 := by rw [List.drop_take]
  simp only [coption, htag, hbody, keyPacking_unpack_take]
  rfl

private theorem amountPacking_coption_unpack_take {src : Bytes} (h : 12 ≤ src.length) :
    amountPacking.coption.unpack (src.take 12) = unpackCoptionU64 src := by
  have htag : (src.take 12).take 4 = src.take 4 := by simp [List.take_take]
  have hbody : (src.take 12).drop 4 = (src.drop 4).take 8 := by rw [List.drop_take]
  have hlen : 8 ≤ (src.drop 4).length := by
    rw [List.length_drop]
    omega
  simp only [coption, htag, hbody, amountPacking_unpack_take hlen]
  rfl

private theorem AccountState.packing_unpack_take (src : Bytes) (n : Nat) :
    packing.unpack ((src.drop n).take 1) = (src[n]?).bind tryFromPrimitive := by
  rw [← List.head?_drop]
  cases src.drop n with
  | nil => rfl
  | cons x rest => simp [packing, ofCodec, Codec.tag, Option.map_map, Function.comp_def]

/-! ## The account -/

namespace TokenAccount

/-- The fields in the order and in the sizes of `array_refs!`. -/
def packing : Packing TokenAccount :=
  (keyPacking.pair <| keyPacking.pair <| amountPacking.pair <| keyPacking.coption.pair <|
    AccountState.packing.pair <| amountPacking.coption.pair <|
    amountPacking.pair keyPacking.coption).iso
    (fun t => (t.mint, t.owner, t.amount, t.delegate, t.state, t.isNative, t.delegatedAmount,
      t.closeAuthority))
    (fun (mint, owner, amount, delegate, state, isNative, delegatedAmount, closeAuthority) =>
      { mint, owner, amount, delegate, state, isNative, delegatedAmount, closeAuthority })
    (fun _ => rfl) (fun _ => rfl)

/-- The amounts are words of 64 bits. -/
structure InRange (t : TokenAccount) : Prop where
  amount : t.amount < 2 ^ 64
  isNative : ∀ n, t.isNative = some n → n < 2 ^ 64
  delegatedAmount : t.delegatedAmount < 2 ^ 64

private theorem packing_valid {t : TokenAccount} : packing.valid t = true ↔ t.InRange := by
  have hkey : keyPacking.coption.valid t.delegate = true ∧
      keyPacking.coption.valid t.closeAuthority = true := by
    constructor
    · cases t.delegate <;> rfl
    · cases t.closeAuthority <;> rfl
  have hnative : amountPacking.coption.valid t.isNative = true ↔
      ∀ n, t.isNative = some n → n < 2 ^ 64 := by
    cases t.isNative with
    | none => simp [coption]
    | some n => simp [coption, amountPacking, ofCodec, Codec.nat]
  have hvalid : packing.valid t = true ↔ t.amount < 2 ^ 64 ∧
      amountPacking.coption.valid t.isNative = true ∧ t.delegatedAmount < 2 ^ 64 := by
    simp only [packing, iso, pair, Bool.and_eq_true, hkey]
    simp [keyPacking, amountPacking, AccountState.packing, ofCodec, Codec.nat, Codec.bytes32,
      Codec.tag]
  rw [hvalid, hnative]
  constructor
  · rintro ⟨h₁, h₂, h₃⟩
    exact ⟨h₁, h₂, h₃⟩
  · intro h
    exact ⟨h.amount, h.isNative, h.delegatedAmount⟩

private theorem packing_size : packing.size = 165 := rfl

private theorem packIntoSlice_eq {t : TokenAccount} {dst : Bytes} (h : 165 ≤ dst.length) :
    t.packIntoSlice dst = some (packing.pack t (dst.take 165) ++ dst.drop 165) := by
  have hpack : packing.pack t (dst.take 165) =
      t.mint.bytes ++ (t.owner.bytes ++ (leBytes 8 t.amount ++
        (packCoptionKey t.delegate ((dst.drop 72).take 36) ++ ([t.state.toByte] ++
        (packCoptionU64 t.isNative ((dst.drop 109).take 12) ++ (leBytes 8 t.delegatedAmount ++
        packCoptionKey t.closeAuthority ((dst.drop 129).take 36))))))) := by
    rw [← packing_size, packing]
    simp only [iso, pair_pack_take, keyPacking_pack, amountPacking_pack,
      AccountState.packing_pack, keyPacking_coption_pack, amountPacking_coption_pack,
      coption_size, keyPacking_size, amountPacking_size, AccountState.packing_size, List.drop_drop,
      Nat.reduceAdd]
  rw [hpack, packIntoSlice, guard, if_pos h]
  simp

private theorem unpackFromSlice_eq {src : Bytes} (h : 165 ≤ src.length) :
    unpackFromSlice src = packing.unpack (src.take 165) := by
  rw [← packing_size]
  unfold unpackFromSlice packing
  have hfour : 8 ≤ (src.drop 64).length := by rw [List.length_drop]; omega
  have hnative : 12 ≤ (src.drop 109).length := by rw [List.length_drop]; omega
  have hdelegated : 8 ≤ (src.drop 121).length := by rw [List.length_drop]; omega
  simp only [iso, pair_unpack_take, keyPacking_unpack_take, AccountState.packing_unpack_take,
    keyPacking_coption_unpack_take, coption_size, keyPacking_size, amountPacking_size,
    AccountState.packing_size, List.drop_drop, Nat.reduceAdd, amountPacking_unpack_take hfour,
    amountPacking_coption_unpack_take hnative, amountPacking_unpack_take hdelegated]
  rw [guard, if_pos h]
  simp only [Option.map_eq_bind, Option.bind_assoc, Option.bind_some, Function.comp_def,
    Option.bind_eq_bind, Option.pure_def]

private theorem packIntoSlice_eq_none {t : TokenAccount} {dst : Bytes} (h : dst.length < 165) :
    t.packIntoSlice dst = none := by
  rw [packIntoSlice, guard, if_neg (Nat.not_le.mpr h)]
  rfl

private theorem unpackFromSlice_eq_none {src : Bytes} (h : src.length < 165) :
    unpackFromSlice src = none := by
  rw [unpackFromSlice, guard, if_neg (Nat.not_le.mpr h)]
  rfl

end TokenAccount

/-- A buffer is read as a token account exactly when it has room for one and to pack that account
would not change it: tags other than zero and one are refused, and bytes without a value are free. -/
theorem token_account_accepted_iff (src : Bytes) (t : TokenAccount) :
    TokenAccount.unpackFromSlice src = some t ↔ t.InRange ∧ t.packIntoSlice src = some src := by
  by_cases h : 165 ≤ src.length
  · have hcell : (src.take 165).length = TokenAccount.packing.size := by
      rw [List.length_take, Nat.min_eq_left h, TokenAccount.packing_size]
    rw [TokenAccount.unpackFromSlice_eq h, TokenAccount.packIntoSlice_eq h, Option.some.injEq,
      TokenAccount.packing.unpack_eq_some _ _ hcell, TokenAccount.packing_valid]
    apply and_congr_right
    intro _
    constructor
    · intro hsame
      rw [hsame, List.take_append_drop]
    · intro hsame
      have hpacked : (TokenAccount.packing.pack t (src.take 165)).length = 165 :=
        TokenAccount.packing.pack_length t _ hcell
      have htake := congrArg (List.take 165) hsame
      rwa [List.take_left' hpacked] at htake
  · rw [TokenAccount.unpackFromSlice_eq_none (by omega),
      TokenAccount.packIntoSlice_eq_none (by omega)]
    simp

/-- Packing a token account into a buffer of any sufficient length changes its first 165 bytes
only; those are read as the account again, whatever they held before and whatever follows. -/
theorem token_account_round_trip {t : TokenAccount} (ht : t.InRange) {dst : Bytes}
    (h : 165 ≤ dst.length) :
    ∃ d, t.packIntoSlice dst = some d ∧ d.length = dst.length ∧ d.drop 165 = dst.drop 165 ∧
      t.packIntoSlice d = some d ∧
      ∀ rest, TokenAccount.unpackFromSlice (d.take 165 ++ rest) = some t := by
  have hcell : (dst.take 165).length = TokenAccount.packing.size := by
    rw [List.length_take, Nat.min_eq_left h, TokenAccount.packing_size]
  have hpacked : (TokenAccount.packing.pack t (dst.take 165)).length = 165 :=
    TokenAccount.packing.pack_length t _ hcell
  refine ⟨_, TokenAccount.packIntoSlice_eq h, ?_, List.drop_left' hpacked, ?_, ?_⟩
  · rw [List.length_append, hpacked, List.length_drop]
    omega
  · rw [TokenAccount.packIntoSlice_eq, List.take_left' hpacked, List.drop_left' hpacked,
      TokenAccount.packing.pack_pack t _ hcell]
    rw [List.length_append, hpacked]
    omega
  · intro rest
    rw [List.take_left' hpacked, TokenAccount.unpackFromSlice_eq, List.take_left' hpacked]
    · exact TokenAccount.packing.unpack_pack (TokenAccount.packing_valid.mpr ht) hcell
    · rw [List.length_append, hpacked]
      omega

theorem token_account_round_trip_frozen :
    let t : TokenAccount := ⟨Bytes32.ofNat 10, Bytes32.ofNat 2, 2 ^ 64 - 1, none, .frozen,
      some 2039280, 0, none⟩
    ∃ d, t.packIntoSlice (List.replicate 170 7) = some d ∧
      TokenAccount.unpackFromSlice (d.take 165) = some t := by
  intro t
  have hrange : t.InRange := ⟨by decide, by simp [t], by decide⟩
  obtain ⟨d, hd, -, -, -, hread⟩ := token_account_round_trip hrange
    (show 165 ≤ (List.replicate 170 (7 : UInt8)).length from List.length_replicate ▸ by decide)
  refine ⟨d, hd, ?_⟩
  have h := hread []
  rwa [List.append_nil] at h

end Coin98Vault

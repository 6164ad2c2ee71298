import Coin98Vault.Program.Reference
import Coin98Vault.Services.Idl

/-!
# Instructions and accounts as bytes

The bytes and accounts that dispatch to an instruction, and the interface description as a codec of
the same bytes.
-/

namespace Coin98Vault

section
variable {i : Instruction} {accounts : List Pubkey}

theorem Method.instruction_eq_some {x : Σ m : Method, m.Args} :
    x.1.instruction x.2 accounts = some i ↔
      i.request = x ∧
      ∃ extra, accounts = i.accounts ++ extra ∧ (i.keepsRest = true → extra = []) := by
  constructor
  · intro h
    obtain ⟨m, a⟩ := x
    cases m
    -- a redemption keeps all accounts, the others leave the rest
    case redeemToken | redeemTokenMulti =>
      simp only [Method.instruction] at h
      split at h
      · obtain rfl := Option.some.inj h
        refine ⟨rfl, [], ?_, fun _ => rfl⟩
        rw [List.append_nil]
        rfl
      · cases h
    all_goals
      simp only [Method.instruction] at h
      split at h
      · obtain rfl := Option.some.inj h
        exact ⟨rfl, _, rfl, nofun⟩
      · cases h
  · rintro ⟨rfl, extra, rfl, hrest⟩
    cases i with
    | redeemToken x a | redeemTokenMulti x a =>
      rw [hrest rfl, List.append_nil]
      rfl
    | _ => rfl

end

/-- The program is called with an instruction exactly if the bytes start with the bytes of that
instruction and the accounts with its accounts; the rest is dropped. -/
theorem dispatch_iff (accounts : List Pubkey) (data : Bytes) (i : Instruction) :
    dispatch accounts data = some i ↔
      i.Encodable ∧ (∃ rest, data = i.data ++ rest) ∧
      ∃ extra, accounts = i.accounts ++ extra ∧ (i.keepsRest = true → extra = []) := by
  have hdecode (x : Σ m : Method, m.Args) (rest : Bytes) := Method.codec.decode_eq_some data x rest
  unfold dispatch
  rw [Option.bind_eq_some_iff]
  constructor
  · rintro ⟨⟨x, rest⟩, hread, hi⟩
    obtain ⟨rfl, hextra⟩ := Method.instruction_eq_some.mp hi
    obtain ⟨hvalid, hdata⟩ := (hdecode _ _).mp hread
    exact ⟨hvalid, ⟨rest, hdata⟩, hextra⟩
  · rintro ⟨hvalid, ⟨rest, hdata⟩, hextra⟩
    exact ⟨(i.request, rest), (hdecode _ _).mpr ⟨hvalid, hdata⟩,
      Method.instruction_eq_some.mpr ⟨rfl, hextra⟩⟩

/-! ## The interface description -/

/-- `d` decodes what `c` decodes, as data, and encodes it to the same bytes; each valid datum of `d`
stands for one valid value of `c`. -/
structure Codec.Describes {α β : Type} (d : Codec β) (c : Codec α) (data : α → β) : Prop where
  read : ∀ bytes, d.decode bytes = (c.decode bytes).map fun x => (data x.1, x.2)
  written : ∀ a, d.encode (data a) = c.encode a
  valid : ∀ b, d.valid b = true ↔ ∃! a, c.valid a = true ∧ data a = b

private theorem Codec.Views.describes {α β : Type} {c : Codec α} {d : Codec β} {data : α → β}
    (h : c.Views d data) : d.Describes c data where
  read := h.decode
  written := h.encode
  valid := h.valid_iff_existsUnique

/-- The interface description describes the program's codecs of all arguments and accounts. -/
theorem idl_describes :
    (∀ m : Method, m.idl.args.codec.Describes m.args m.data) ∧
    Schedule.idl.codec.Describes Schedule.codec Schedule.data ∧
    Vault.idl.codec.Describes Vault.codec Vault.data :=
  ⟨fun m => m.idl_views.describes, Schedule.idl_views.describes, Vault.idl_views.describes⟩

end Coin98Vault

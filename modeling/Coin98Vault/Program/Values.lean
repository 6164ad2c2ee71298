import Coin98Vault.Program.Transfers

/-!
# The accounts of the program

What its accounts hold, how a value is stored in one, and how one is created.
-/

namespace Coin98Vault

def Bank.value? (b : Bank) (k : Pubkey) : Option Value :=
  match b.vault? k with
  | some v => some (.vault v)
  | none => (b.schedule? k).map .schedule

/-- The data of an account of the program. -/
def Bank.data? (b : Bank) (k : Pubkey) : Option Bytes :=
  match (b k).content with
  | .program d => some d
  | _ => none

theorem Bank.data?_eq_some {b : Bank} {k : Pubkey} {d : Bytes} :
    b.data? k = some d ↔ (b k).content = .program d := by
  unfold Bank.data?
  split <;> simp_all

theorem Bank.schedule?_eq_none {b : Bank} {k : Pubkey} {v : Vault} (h : b.vault? k = some v) :
    b.schedule? k = none := by
  unfold Bank.vault? Bank.schedule? Bank.read at *
  split at h
  · exact Layout.read_other h Vault.discriminator_ne_schedule
  · simp at h

@[simp] theorem Bank.value?_eq_vault {b : Bank} {k : Pubkey} {v : Vault} :
    b.value? k = some (.vault v) ↔ b.vault? k = some v := by
  unfold Bank.value?
  cases b.vault? k <;> simp

@[simp] theorem Bank.value?_eq_schedule {b : Bank} {k : Pubkey} {s : Schedule} :
    b.value? k = some (.schedule s) ↔ b.schedule? k = some s := by
  unfold Bank.value?
  cases h : b.vault? k with
  | none => simp
  | some v => simp [Bank.schedule?_eq_none h]

theorem Bank.value?_of_evolves {b b' : Bank} {k : Pubkey}
    (h : (b k).content.Evolves (b' k).content) : b'.value? k = b.value? k := by
  simp only [Bank.value?, Bank.vault?, Bank.schedule?, Bank.read_of_evolves h]

/-- Serialise a value over the data of its account. -/
def Value.write : Value → Bytes → Option Bytes
  | .vault v, d => Vault.layout.write v d
  | .schedule s, d => Schedule.layout.write s d

theorem Value.value?_of_write {b : Bank} {k : Pubkey} {val : Value} {d d' : Bytes}
    (h : val.write d = some d') (hk : (b k).content = .program d') : b.value? k = some val := by
  cases val with
  | vault v =>
    rw [Bank.value?_eq_vault, Bank.vault?, Bank.read, hk]
    exact Layout.read_of_write h
  | schedule s =>
    rw [Bank.value?_eq_schedule, Bank.schedule?, Bank.read, hk]
    exact Layout.read_of_write h

theorem Value.length_of_write {val : Value} {d d' : Bytes} (h : val.write d = some d') :
    d'.length = d.length := by
  cases val with
  | vault v => exact Layout.length_of_write h
  | schedule s => exact Layout.length_of_write h

theorem store_eq_ok {α : Type} {l : Layout α} {b b' : Bank} {k : Pubkey} {a : α} :
    store l b k a = .ok b' ↔ ∃ d d', (b k).content = .program d ∧ l.write a d = some d' ∧
      b' = b.setContent k (.program d') := by
  unfold store
  split
  · rename_i d hd
    simp only [bind_eq_ok, orFail_eq_ok, pure_eq_ok, hd, Content.program.injEq]
    constructor
    · rintro ⟨d', hw, rfl⟩
      exact ⟨d, d', rfl, hw, rfl⟩
    · rintro ⟨_, d', rfl, hw, rfl⟩
      exact ⟨d', hw, rfl⟩
  · rename_i h
    simp only [reduceCtorEq, false_iff]
    rintro ⟨d, d', hd, -⟩
    exact h d hd

theorem exit_none {bank b' : Bank} : exit ⟨bank, none⟩ = .ok b' ↔ b' = bank := by
  simp [exit, eq_comm]

theorem exit_some {bank b' : Bank} {k : Pubkey} {val : Value} :
    exit ⟨bank, some (k, val)⟩ = .ok b' ↔ ∃ d d', (bank k).content = .program d ∧
      val.write d = some d' ∧ b' = bank.setContent k (.program d') := by
  cases val <;> exact store_eq_ok

/-- The schedule with other bits. -/
def Schedule.marked (s : Schedule) (bits : List Bool) : Schedule := { s with redemptions := bits }

/-- Rewriting a schedule with as many bits as before succeeds. -/
theorem store_marked {b : Bank} {k : Pubkey} {s : Schedule} {bits : List Bool}
    (hs : b.schedule? k = some s) (hlen : bits.length = s.redemptions.length) :
    ∃ b₁, store Schedule.layout b k (s.marked bits) = .ok b₁ := by
  unfold Bank.schedule? Bank.read at hs
  split at hs
  · rename_i d hd
    have hvalid := (Schedule.codec_valid s).mp (Layout.read_eq_some.mp hs).1
    have hwrite : ∃ d', Schedule.layout.write (s.marked bits) d = some d' := by
      apply Layout.write_of_read hs
      · exact (Schedule.codec_valid _).mpr ⟨hvalid.1, by rw [← hlen] at hvalid; exact hvalid.2⟩
      · show (Schedule.codec.encode _).length ≤ (Schedule.codec.encode _).length
        rw [Schedule.encode_length, Schedule.encode_length]
        simp only [Schedule.marked, hlen, le_refl]
    obtain ⟨d', hd'⟩ := hwrite
    exact ⟨_, store_eq_ok.mpr ⟨d, d', hd, hd', rfl⟩⟩
  · cases hs

section
variable {b b₁ : Bank} {k : Pubkey} {s : Schedule} {bits bits' : List Bool}

theorem store_self (hs : b.schedule? k = some s) : store Schedule.layout b k s = .ok b := by
  unfold Bank.schedule? Bank.read at hs
  split at hs
  · rename_i d hd
    refine store_eq_ok.mpr ⟨d, d, hd, Layout.write_self hs, ?_⟩
    funext x
    by_cases hx : x = k
    · subst hx
      rw [Bank.setContent, Bank.set_self, ← hd]
    · rw [Bank.setContent_of_ne _ _ hx]
  · cases hs

/-- A schedule rewritten twice is the schedule rewritten once. -/
theorem store_store (hlen : bits.length = bits'.length)
    (h : store Schedule.layout b k (s.marked bits) = .ok b₁) :
    store Schedule.layout b₁ k (s.marked bits') = store Schedule.layout b k (s.marked bits') := by
  obtain ⟨d, d', hd, hwrite, rfl⟩ := store_eq_ok.mp h
  have hsame : (Schedule.codec.encode (s.marked bits)).length =
      (Schedule.codec.encode (s.marked bits')).length := by
    rw [Schedule.encode_length, Schedule.encode_length]
    simp only [Schedule.marked, hlen]
  have hover := Layout.write_write hwrite hsame
  unfold store
  rw [Bank.setContent_content_self, hd]
  dsimp only
  rw [hover]
  cases Schedule.layout.write (s.marked bits') d with
  | none => rfl
  | some d'' => simp only [orFail, bind, Except.bind, pure, Except.pure, Bank.setContent_setContent]

theorem store_others {a : Schedule} (h : store Schedule.layout b k a = .ok b₁) (x : Pubkey) :
    b₁.token? x = b.token? x ∧ (x ≠ k → b₁ x = b x) ∧
      ((b x).content ≠ .multisig → (b₁ x).content ≠ .multisig) ∧
      ((b x).content = .wallet → (b₁ x).content = .wallet) := by
  obtain ⟨d, d', hd, -, rfl⟩ := store_eq_ok.mp h
  by_cases hx : x = k
  · subst hx
    simp [Bank.token?, hd]
  · have hsame : b.setContent k (.program d') x = b x := Bank.setContent_of_ne _ _ hx
    simp [Bank.token?, hsame]

end

/-! ## Fresh accounts -/

/-- What a fresh vault account decodes to. -/
def Vault.zero : Vault := ⟨.distribution, 0, systemProgramId, systemProgramId, []⟩

def Schedule.zero : Schedule :=
  ⟨.distribution, 0, 0, systemProgramId, 0, [], systemProgramId, systemProgramId, systemProgramId,
    systemProgramId, false, []⟩

theorem Codec.decode_zeros {α : Type} (c : Codec α) {a : α} {m n : Nat} (hv : c.valid a = true)
    (he : c.encode a = List.replicate m 0) (h : m ≤ n) :
    (c.decode (List.replicate n 0)).map Prod.fst = some a := by
  have hsplit : List.replicate n (0 : UInt8) = c.encode a ++ List.replicate (n - m) 0 := by
    rw [he, List.replicate_append_replicate, Nat.add_sub_cancel' h]
  rw [hsplit, c.decode_encode hv]
  rfl

theorem Vault.decode_zeros {n : Nat} (h : 70 ≤ n) :
    (Vault.codec.decode (List.replicate n 0)).map Prod.fst = some Vault.zero :=
  Vault.codec.decode_zeros (by simp [Vault.zero]) (by decide +kernel) h

theorem Schedule.decode_zeros {n : Nat} (h : 187 ≤ n) :
    (Schedule.codec.decode (List.replicate n 0)).map Prod.fst = some Schedule.zero :=
  Schedule.codec.decode_zeros (by simp [Schedule.zero]) (by decide +kernel) h

theorem accountUnchecked_zeros {α : Type} {l : Layout α} {b : Bank} {k : Pubkey} {space : Nat}
    {a : α} (h : (l.codec.decode (List.replicate (space - 8) 0)).map Prod.fst = some a) :
    accountUnchecked l (b.setContent k (.program (List.replicate space 0))) k = .ok a := by
  simp only [accountUnchecked, Bank.setContent_content_self, List.drop_replicate, h, orFail]

theorem init_eq_ok {rt : Runtime} {tx : Tx} {b b' : Bank} {payer k : Pubkey} {seeds : List Bytes}
    {space : Nat} {bump : UInt8} (hrt : rt.Lawful) :
    init rt tx b payer k seeds space = .ok (b', bump) ↔
      rt.findProgramAddress seeds = some (k, bump) ∧ k ∈ tx.writable ∧
      ((b k).lamports = 0 ∨ payer ≠ k) ∧ (b k).content = .wallet ∧
      space ≤ maxPermittedDataIncrease ∧ ∃ b₁, fund rt tx b payer k space = .ok b₁ ∧
        b' = b₁.setContent k (.program (List.replicate space 0)) := by
  have hfund {b₁ : Bank} (h : fund rt tx b payer k space = .ok b₁) :
      (b₁ k).content = (b k).content := by
    unfold fund at h
    split at h
    · obtain ⟨-, -, -, -, -, -, rfl⟩ := (transferLamport_eq_ok hrt).mp h
      exact Bank.moveLamports_content _ _ _ _ _
    · rw [pure_eq_ok.mp h]
  simp only [init, bind_eq_ok, orFail_eq_ok, require_eq_ok, writable, exists_const, Prod.exists]
  constructor
  · rintro ⟨address, bump', hfind, rfl, hw, hp, b₁, hb₁, hspace, h⟩
    rw [hfund hb₁] at h
    split at h
    · rename_i hwallet
      simp only [pure_eq_ok, Prod.mk.injEq] at h
      obtain ⟨rfl, rfl⟩ := h
      exact ⟨hfind, hw, hp, hwallet, hspace, b₁, hb₁, rfl⟩
    · simp at h
  · rintro ⟨hfind, hw, hp, hwallet, hspace, b₁, hb₁, rfl⟩
    refine ⟨k, bump, hfind, rfl, hw, hp, b₁, hb₁, hspace, ?_⟩
    rw [hfund hb₁, hwallet]
    rfl

end Coin98Vault

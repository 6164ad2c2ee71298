import Mathlib.Logic.Relation
import Coin98Vault.Program.Redemption

/-!
# What transfers can change

Money moves through the two foreign programs only.  Their transfers leave every kind of
account what it is, and take nothing from a key that did not authorise them.
-/

namespace Coin98Vault

theorem Bank.token?_eq_some {b : Bank} {k : Pubkey} {t : TokenAccount} :
    b.token? k = some t ↔ (b k).content = .token t := by
  unfold Bank.token?
  split <;> simp_all

theorem unpackTokenAccount_of_token? {b : Bank} {k : Pubkey} {t : TokenAccount}
    (h : b.token? k = some t) : unpackTokenAccount b k = some t := by
  rw [Bank.token?_eq_some] at h
  simp only [unpackTokenAccount, h]

theorem Bank.read_congr {α : Type} {l : Layout α} {b b' : Bank} {k : Pubkey}
    (h : (b' k).content = (b k).content) : b'.read l k = b.read l k := by
  simp only [Bank.read, h]

/-- What is read lies in an account of the program. -/
theorem Bank.data_of_read {α : Type} {l : Layout α} {b : Bank} {k : Pubkey} {a : α}
    (h : b.read l k = some a) : ∃ d, (b k).content = .program d := by
  unfold Bank.read at h
  split at h
  · exact ⟨_, ‹_›⟩
  · cases h

theorem Bank.token?_congr {b b' : Bank} {k : Pubkey} (h : (b' k).content = (b k).content) :
    b'.token? k = b.token? k := by
  simp only [Bank.token?, h]

theorem Bank.token?_of_program {b : Bank} {k : Pubkey} {d : Bytes}
    (h : (b k).content = .program d) : b.token? k = none := by
  simp only [Bank.token?, h]

theorem Bank.token?_of_read {α : Type} {l : Layout α} {b : Bank} {k : Pubkey} {a : α}
    (h : b.read l k = some a) : b.token? k = none := by
  unfold Bank.read at h
  split at h
  · rename_i d hd
    exact Bank.token?_of_program hd
  · cases h

/-- A token account is none of the accounts that are not. -/
theorem Bank.ne_of_token? {b : Bank} {k x : Pubkey} {t : TokenAccount} (ht : b.token? x = some t)
    (hk : b.token? k = none) : x ≠ k := by
  intro he
  rw [he, hk] at ht
  cases ht

@[simp] theorem Bank.setContent_lamports (b : Bank) (k x : Pubkey) (c : Content) :
    (b.setContent k c x).lamports = (b x).lamports := by
  unfold Bank.setContent Bank.set
  split <;> simp [*]

@[simp] theorem Bank.setContent_content_self (b : Bank) (k : Pubkey) (c : Content) :
    (b.setContent k c k).content = c := by
  simp [Bank.setContent]

theorem Bank.setContent_of_ne (b : Bank) {k x : Pubkey} (c : Content) (h : x ≠ k) :
    b.setContent k c x = b x :=
  b.set_of_ne _ h

theorem Bank.setContent_setContent (b : Bank) (k : Pubkey) (c d : Content) :
    (b.setContent k c).setContent k d = b.setContent k d := by
  funext x
  by_cases hx : x = k
  · subst hx
    simp [Bank.setContent]
  · rw [Bank.setContent_of_ne _ _ hx, Bank.setContent_of_ne _ _ hx, Bank.setContent_of_ne _ _ hx]

theorem Bank.setContent_token? (b : Bank) {k x : Pubkey} (c : Content) (h : x ≠ k) :
    (b.setContent k c).token? x = b.token? x :=
  Bank.token?_congr (congrArg Account.content (b.setContent_of_ne c h))

theorem Bank.moveLamports_content (b : Bank) (source target : Pubkey) (n : Nat) (x : Pubkey) :
    (b.moveLamports source target n x).content = (b x).content := by
  simp only [Bank.moveLamports, Bank.set]
  split
  · split <;> simp [*]
  · split <;> simp [*]

theorem Bank.moveLamports_lamports (b : Bank) (source target : Pubkey) {n : Nat}
    (h : n ≤ (b source).lamports) (x : Pubkey) :
    (b.moveLamports source target n x).lamports + (if x = source then n else 0) =
      (b x).lamports + (if x = target then n else 0) := by
  by_cases hs : x = source
  · by_cases ht : x = target
    · subst hs; subst ht
      simp only [Bank.moveLamports, Bank.set, if_true]
      omega
    · subst hs
      simp only [Bank.moveLamports, Bank.set, if_true, if_neg ht]
      omega
  · by_cases ht : x = target
    · subst ht
      simp only [Bank.moveLamports, Bank.set, if_true, if_neg hs]
      omega
    · simp only [Bank.moveLamports, Bank.set, if_neg hs, if_neg ht]

/-! ## Kinds of accounts -/

/-- What a transfer may change of a token account besides its amount: its delegation. -/
structure TokenAccount.Evolves (t t' : TokenAccount) : Prop where
  mint : t'.mint = t.mint
  owner : t'.owner = t.owner
  state : t'.state = t.state
  delegate : t'.delegate = t.delegate ∨ t'.delegate = none

theorem TokenAccount.Evolves.refl (t : TokenAccount) : t.Evolves t := ⟨rfl, rfl, rfl, .inl rfl⟩

theorem TokenAccount.Evolves.trans {t u v : TokenAccount} (h : t.Evolves u) (h' : u.Evolves v) :
    t.Evolves v where
  mint := h'.mint.trans h.mint
  owner := h'.owner.trans h.owner
  state := h'.state.trans h.state
  delegate := by
    rcases h'.delegate with hd | hd
    · rw [hd]; exact h.delegate
    · exact .inr hd

inductive Content.Evolves : Content → Content → Prop
  | refl (c : Content) : Evolves c c
  | token {t t' : TokenAccount} (h : t.Evolves t') : Evolves (.token t) (.token t')

theorem Content.Evolves.trans {c d e : Content} (h : c.Evolves d) (h' : d.Evolves e) :
    c.Evolves e := by
  cases h with
  | refl => exact h'
  | token h =>
    cases h' with
    | refl => exact .token h
    | token h' => exact .token (h.trans h')

theorem Content.Evolves.of_eq {c d : Content} (h : d = c) : c.Evolves d := h ▸ .refl c

theorem Bank.read_of_evolves {α : Type} {l : Layout α} {b b' : Bank} {k : Pubkey}
    (h : (b k).content.Evolves (b' k).content) : b'.read l k = b.read l k := by
  unfold Bank.read
  generalize (b k).content = c at h
  generalize (b' k).content = c' at h
  cases h <;> rfl

theorem Bank.content_of_evolves {b b' : Bank} {k : Pubkey}
    (h : (b k).content.Evolves (b' k).content) (ht : b.token? k = none) :
    (b' k).content = (b k).content := by
  generalize hc : (b k).content = c at h
  generalize (b' k).content = c' at h
  cases h with
  | refl => rfl
  | token => simp [Bank.token?, hc] at ht

theorem Bank.token?_of_evolves {b b' : Bank} {k : Pubkey} {t : TokenAccount}
    (h : (b k).content.Evolves (b' k).content) (ht : b.token? k = some t) :
    ∃ t', b'.token? k = some t' ∧ t.Evolves t' := by
  rw [Bank.token?_eq_some] at ht
  rw [ht] at h
  generalize hc : (b' k).content = c at h
  cases h with
  | refl => exact ⟨t, Bank.token?_eq_some.mpr hc, .refl t⟩
  | token h => exact ⟨_, Bank.token?_eq_some.mpr hc, h⟩

/-- Only token accounts have changed their contents. -/
def Bank.Evolves (b b' : Bank) : Prop := ∀ k, (b k).content.Evolves (b' k).content

namespace Bank.Evolves

theorem refl (b : Bank) : b.Evolves b := fun k => .refl (b k).content

theorem trans {b b' b'' : Bank} (h : b.Evolves b') (h' : b'.Evolves b'') : b.Evolves b'' :=
  fun k => (h k).trans (h' k)

theorem token {b b' : Bank} (h : b.Evolves b') {k : Pubkey} {t : TokenAccount}
    (ht : b.token? k = some t) : ∃ t', b'.token? k = some t' ∧ t.Evolves t' :=
  Bank.token?_of_evolves (h k) ht

theorem content {b b' : Bank} (h : b.Evolves b') {k : Pubkey} (ht : b.token? k = none) :
    (b' k).content = (b k).content :=
  Bank.content_of_evolves (h k) ht

end Bank.Evolves

/-! ## Transfers -/

/-- One transfer by a foreign program, with the key that authorises it. -/
inductive Transfer (rt : Runtime) (b : Bank) (key : Pubkey) (b' : Bank) : Prop
  | lamports (target : Pubkey) (amount : UInt64)
      (h : rt.process b (systemTransfer key target amount) = some b')
  | tokens (source target : Pubkey) (amount : UInt64)
      (h : rt.process b (tokenTransfer key source target amount) = some b')

/-- Transfers one after the other, each authorised by one of the keys. -/
def Transfers (rt : Runtime) (keys : Pubkey → Prop) : Bank → Bank → Prop :=
  Relation.ReflTransGen fun b b' => ∃ k, keys k ∧ Transfer rt b k b'

/-- Only the key can debit the account. -/
def TokenAccount.OnlyFor (t : TokenAccount) (p : Pubkey) : Prop :=
  t.owner = p ∧ (t.delegate = none ∨ t.delegate = some p)

theorem TokenAccount.OnlyFor.eq_of_authorizes {t : TokenAccount} {p k : Pubkey} (h : t.OnlyFor p)
    (hk : t.Authorizes k) : k = p := by
  rcases hk with ho | hd
  · rw [← ho, h.1]
  · rcases h.2 with hn | hp
    · simp [hn] at hd
    · exact Option.some.inj (hd.symm.trans hp)

/-- The account has been credited, if anything. -/
def TokenAccount.Grows (t t' : TokenAccount) : Prop :=
  t' = { t with amount := t'.amount } ∧ t.amount ≤ t'.amount

theorem TokenAccount.Grows.refl (t : TokenAccount) : t.Grows t := ⟨rfl, le_rfl⟩

theorem TokenAccount.Grows.trans {t u v : TokenAccount} (h : t.Grows u) (h' : u.Grows v) :
    t.Grows v := by
  refine ⟨?_, h.2.trans h'.2⟩
  rw [h'.1, h.1]

theorem TokenAccount.Grows.authorizes {t t' : TokenAccount} {p : Pubkey} (h : t.Grows t')
    (hp : t'.Authorizes p) : t.Authorizes p := by
  rw [h.1] at hp
  exact hp

/-- Nothing has been taken from the idle keys: neither their lamports nor tokens that nobody else
can debit. -/
structure Bank.Keeps (idle : Pubkey → Prop) (b b' : Bank) : Prop where
  lamports : ∀ p, idle p → (b p).lamports ≤ (b' p).lamports
  tokens : ∀ k t, b.token? k = some t → (∀ p, t.Authorizes p → idle p) →
    ∃ t', b'.token? k = some t' ∧ t.Grows t'

theorem Bank.Keeps.refl (idle : Pubkey → Prop) (b : Bank) : Bank.Keeps idle b b :=
  ⟨fun _ _ => le_rfl, fun _ t ht _ => ⟨t, ht, .refl t⟩⟩

theorem Bank.Keeps.trans {idle : Pubkey → Prop} {b b' b'' : Bank} (h : Bank.Keeps idle b b')
    (h' : Bank.Keeps idle b' b'') : Bank.Keeps idle b b'' := by
  refine ⟨fun p hp => (h.lamports p hp).trans (h'.lamports p hp), fun k t ht hidle => ?_⟩
  obtain ⟨t', ht', hg⟩ := h.tokens k t ht hidle
  obtain ⟨t'', ht'', hg'⟩ := h'.tokens k t' ht' (fun p hp => hidle p (hg.authorizes hp))
  exact ⟨t'', ht'', hg.trans hg'⟩

theorem Bank.Keeps.mono {idle idle' : Pubkey → Prop} {b b' : Bank} (h : Bank.Keeps idle b b')
    (hsub : ∀ p, idle' p → idle p) : Bank.Keeps idle' b b' :=
  ⟨fun p hp => h.lamports p (hsub p hp),
    fun k t ht hidle => h.tokens k t ht fun p hp => hsub p (hidle p hp)⟩

/-- What has not been taken from a single key. -/
theorem Bank.Keeps.of_onlyFor {p : Pubkey} {b b' : Bank} (h : Bank.Keeps (· = p) b b') {k : Pubkey}
    {t : TokenAccount} (ht : b.token? k = some t) (hp : t.OnlyFor p) :
    ∃ t', b'.token? k = some t' ∧ t.Grows t' :=
  h.tokens k t ht fun _ => hp.eq_of_authorizes

section
variable {rt : Runtime} (hrt : rt.Lawful)
include hrt

theorem Transfer.evolves {b b' : Bank} {k : Pubkey} (h : Transfer rt b k b') : b.Evolves b' := by
  cases h with
  | lamports target amount h =>
    obtain ⟨-, -, rfl⟩ := (hrt.system _ _ _ _ _).mp h
    exact fun x => .of_eq (Bank.moveLamports_content _ _ _ _ x)
  | tokens source target amount h =>
    intro x
    obtain ⟨s, t, hs, ht, -⟩ := hrt.token.requires h
    have hmoves (y : TokenAccount) (hy : b.token? x = some y) :
        (b x).content.Evolves (b' x).content := by
      obtain ⟨y', hy', -, hm, ho, hst, hd, -⟩ := hrt.token.moves h hy
      rw [Bank.token?_eq_some.mp hy, Bank.token?_eq_some.mp hy']
      exact .token ⟨hm, ho, hst, hd⟩
    by_cases hxs : x = source
    · exact hmoves s (hxs ▸ hs)
    · by_cases hxt : x = target
      · exact hmoves t (hxt ▸ ht)
      · exact .of_eq (congrArg Account.content (hrt.token.frame h hxs hxt))

theorem Transfer.keeps {idle : Pubkey → Prop} {b b' : Bank} {k : Pubkey} (h : Transfer rt b k b')
    (hk : ¬ idle k) : Bank.Keeps idle b b' := by
  cases h with
  | lamports target amount h =>
    obtain ⟨-, hle, rfl⟩ := (hrt.system _ _ _ _ _).mp h
    refine ⟨fun p hp => ?_, fun x t ht _ => ⟨t, ?_, .refl t⟩⟩
    · have hmoved := b.moveLamports_lamports k target hle p
      have hne : p ≠ k := by
        rintro rfl
        exact hk hp
      rw [if_neg hne] at hmoved
      omega
    · rw [Bank.token?_congr (Bank.moveLamports_content _ _ _ _ x), ht]
  | tokens source target amount h =>
    refine ⟨fun p _ => (hrt.token.lamports h p).ge, fun x t ht hidle => ?_⟩
    obtain ⟨t', ht', hamount, -, -, -, -, hsame⟩ := hrt.token.moves h ht
    -- an account that only idle keys can debit is not the source
    have hx : x ≠ source := by
      rintro rfl
      obtain ⟨s, _, hs, -, -, hdebit, -⟩ := hrt.token.requires h
      obtain rfl : s = t := Option.some.inj (hs.symm.trans ht)
      exact hk (hidle k hdebit.authorizes)
    rw [if_neg hx] at hamount
    refine ⟨t', ht', hsame.resolve_left fun hs => hx hs.1, ?_⟩
    omega

theorem Transfers.evolves {keys : Pubkey → Prop} {b b' : Bank} (h : Transfers rt keys b b') :
    b.Evolves b' := by
  induction h with
  | refl => exact .refl b
  | tail _ h ih =>
    obtain ⟨k, -, h⟩ := h
    exact ih.trans (h.evolves hrt)

theorem Transfers.keeps {keys : Pubkey → Prop} {b b' : Bank} (h : Transfers rt keys b b') :
    Bank.Keeps (fun p => ¬ keys p) b b' := by
  induction h with
  | refl => exact .refl _ b
  | tail _ h ih =>
    obtain ⟨k, hk, h⟩ := h
    exact ih.trans (h.keeps hrt (not_not_intro hk))

end

theorem Transfers.single {rt : Runtime} {keys : Pubkey → Prop} {b b' : Bank} {k : Pubkey}
    (hk : keys k) (h : Transfer rt b k b') : Transfers rt keys b b' :=
  Relation.ReflTransGen.single ⟨k, hk, h⟩

end Coin98Vault

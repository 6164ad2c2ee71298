import Coin98Vault.Program.SplToken

/-!
# The bank and its runtime

What the program sees of Solana: accounts, derived addresses and the two foreign programs
it invokes.  Hashes, the curve, rent, the reserved keys and the foreign programs are parameters;
`Lawful` states what their documentation promises and the program relies on.  The model ends
where the program returns: the fee of a transaction, its size, and the rent states that the
runtime compares when it is over are outside.
-/

namespace Coin98Vault

/-- What an account holds, by the program that owns it. -/
inductive Content where
  /-- Owned by the system program and without data, or not existing at all. -/
  | wallet
  /-- Owned by the vault program. -/
  | program (data : Bytes)
  /-- A token account of the token program. -/
  | token (account : TokenAccount)
  /-- A multisig of the token program: its own signature debits nothing. -/
  | multisig
  /-- Anything else. -/
  | other (data : Bytes)
  deriving DecidableEq

/-- The lamports that back a wrapped SOL account count as its token amount, not here. -/
structure Account where
  lamports : Nat
  content : Content

abbrev Bank := Pubkey → Account

namespace Bank

def set (b : Bank) (k : Pubkey) (a : Account) : Bank := fun x => if x = k then a else b x

@[simp] theorem set_self (b : Bank) (k : Pubkey) (a : Account) : b.set k a k = a := if_pos rfl

theorem set_of_ne (b : Bank) {k x : Pubkey} (a : Account) (h : x ≠ k) : b.set k a x = b x :=
  if_neg h

def setContent (b : Bank) (k : Pubkey) (c : Content) : Bank := b.set k { b k with content := c }

def token? (b : Bank) (k : Pubkey) : Option TokenAccount :=
  match (b k).content with
  | .token t => some t
  | _ => none

/-- The value of a program-owned account. -/
def read {α : Type} (l : Layout α) (b : Bank) (k : Pubkey) : Option α :=
  match (b k).content with
  | .program data => l.read data
  | _ => none

abbrev vault? (b : Bank) (k : Pubkey) : Option Vault := b.read Vault.layout k
abbrev schedule? (b : Bank) (k : Pubkey) : Option Schedule := b.read Schedule.layout k

def moveLamports (b : Bank) (source target : Pubkey) (n : Nat) : Bank :=
  let b := b.set source { b source with lamports := (b source).lamports - n }
  b.set target { b target with lamports := (b target).lamports + n }

end Bank

/-! ## Instructions of other programs -/

structure AccountMeta where
  pubkey : Pubkey
  isSigner : Bool
  isWritable : Bool
  deriving DecidableEq

/-- An instruction for another program. -/
structure CpiInstruction where
  programId : Pubkey
  accounts : List AccountMeta
  data : Bytes
  deriving DecidableEq

structure TransferTokenParams where
  instruction : UInt8
  amount : UInt64

def TransferTokenParams.codec : Codec TransferTokenParams :=
  (Codec.u8.pair Codec.u64).iso (fun p => (p.instruction, p.amount)) (fun (a, b) => ⟨a, b⟩)
    (fun _ => rfl) (fun _ => rfl)

/-- The token program's `Transfer`, as `transfer_token` builds it. -/
def tokenTransfer (owner source target : Pubkey) (amount : UInt64) : CpiInstruction where
  programId := tokenProgramId
  accounts := [⟨source, false, true⟩, ⟨target, false, true⟩, ⟨owner, true, false⟩]
  data := TransferTokenParams.codec.encode ⟨3, amount⟩

/-- The system program's `Transfer`. -/
def systemTransfer (source target : Pubkey) (lamports : UInt64) : CpiInstruction where
  programId := systemProgramId
  accounts := [⟨source, true, true⟩, ⟨target, false, true⟩]
  data := [2, 0, 0, 0] ++ Codec.u64.encode lamports

structure Runtime where
  keccak : Bytes → Hash
  sha256 : Bytes → Hash
  onCurve : Pubkey → Bool
  programId : Pubkey
  minimumBalance : Nat → UInt64
  /-- The keys that are passed read-only whatever a transaction asks for: those of native programs
  and sysvars, and of the program that it calls. -/
  reserved : Pubkey → Bool
  /-- What a foreign program does with an instruction whose signatures have been checked. -/
  process : Bank → CpiInstruction → Option Bank

/-- What the token program promises of `Transfer`. -/
structure TokenProgramLaws (process : Bank → CpiInstruction → Option Bank) : Prop where
  /-- A transfer runs between live accounts of one mint, is debited by an authority of the
  source and is covered by it. -/
  requires : ∀ {b b' authority source target amount},
    process b (tokenTransfer authority source target amount) = some b' →
    ∃ s t, b.token? source = some s ∧ b.token? target = some t ∧ s.mint = t.mint ∧
      s.CanDebit authority amount.toNat ∧ amount.toNat ≤ s.amount ∧
      s.state = .initialized ∧ t.state = .initialized ∧ (b authority).content ≠ .multisig
  /-- It moves the amount; a delegate loses its allowance and may lose its office. -/
  moves : ∀ {b b' authority source target amount k t},
    process b (tokenTransfer authority source target amount) = some b' → b.token? k = some t →
    ∃ t', b'.token? k = some t' ∧
      t'.amount + (if k = source then amount.toNat else 0) =
        t.amount + (if k = target then amount.toNat else 0) ∧
      t'.mint = t.mint ∧ t'.owner = t.owner ∧ t'.state = t.state ∧
      (t'.delegate = t.delegate ∨ t'.delegate = none) ∧
      ((k = source ∧ t.delegate = some authority) ∨ t' = { t with amount := t'.amount })
  frame : ∀ {b b' authority source target amount k},
    process b (tokenTransfer authority source target amount) = some b' →
    k ≠ source → k ≠ target → b' k = b k
  lamports : ∀ {b b' authority source target amount},
    process b (tokenTransfer authority source target amount) = some b' →
    ∀ k, (b' k).lamports = (b k).lamports
  accepts : ∀ {b authority source target amount s t},
    b.token? source = some s → b.token? target = some t → s.mint = t.mint →
    s.CanDebit authority amount.toNat → amount.toNat ≤ s.amount →
    s.state = .initialized → t.state = .initialized → (b authority).content ≠ .multisig →
    ∃ b', process b (tokenTransfer authority source target amount) = some b'

/-- What the system program promises of `Transfer`: it debits wallets only. -/
def SystemProgramLaw (process : Bank → CpiInstruction → Option Bank) : Prop :=
  ∀ b b' source target lamports, process b (systemTransfer source target lamports) = some b' ↔
    (b source).content = .wallet ∧ lamports.toNat ≤ (b source).lamports ∧
      b' = b.moveLamports source target lamports.toNat

structure Runtime.Lawful (rt : Runtime) : Prop where
  token : TokenProgramLaws rt.process
  system : SystemProgramLaw rt.process

/-- `MAX_PERMITTED_DATA_INCREASE`: the bytes by which an invoked program can grow an account. -/
def maxPermittedDataIncrease : Nat := 10240

/-- The keys that can be passed as writable. -/
def Runtime.unreserved (rt : Runtime) (keys : List Pubkey) : List Pubkey :=
  keys.filter fun k => !rt.reserved k

@[simp] theorem Runtime.mem_unreserved {rt : Runtime} {keys : List Pubkey} {k : Pubkey} :
    k ∈ rt.unreserved keys ↔ k ∈ keys ∧ rt.reserved k = false := by
  simp [Runtime.unreserved]

/-- None of the keys is reserved. -/
def Runtime.CanWrite (rt : Runtime) (keys : List Pubkey) : Prop := ∀ k ∈ keys, rt.reserved k = false

instance (rt : Runtime) (keys : List Pubkey) : Decidable (rt.CanWrite keys) := by
  unfold Runtime.CanWrite; infer_instance

/-- No two of the strings have one hash. -/
def CollisionFree (hash : Bytes → Hash) (inputs : List Bytes) : Prop :=
  ∀ x ∈ inputs, ∀ y ∈ inputs, hash x = hash y → x = y

instance (hash : Bytes → Hash) (inputs : List Bytes) : Decidable (CollisionFree hash inputs) := by
  unfold CollisionFree; infer_instance

theorem CollisionFree.mono {hash : Bytes → Hash} {inputs inputs' : List Bytes}
    (h : CollisionFree hash inputs) (hsub : ∀ x ∈ inputs', x ∈ inputs) :
    CollisionFree hash inputs' :=
  fun x hx y hy => h x (hsub x hx) y (hsub y hy)

/-! ## Derived addresses -/

namespace Runtime

variable (rt : Runtime)

/-- "ProgramDerivedAddress" -/
def pdaMarker : Bytes :=
  [80, 114, 111, 103, 114, 97, 109, 68, 101, 114, 105, 118, 101, 100, 65, 100, 100, 114, 101, 115,
    115]

/-- The string hashed to derive an address: nothing separates its parts. -/
def derivation (seeds : List Bytes) : Bytes := seeds.flatten ++ rt.programId.bytes ++ pdaMarker

def createProgramAddress (seeds : List Bytes) : Option Pubkey :=
  if seeds.length ≤ 16 ∧ (∀ seed ∈ seeds, seed.length ≤ 32) ∧
      rt.onCurve (rt.sha256 (rt.derivation seeds)) = false then
    some (rt.sha256 (rt.derivation seeds))
  else none

/-- The first bump from 255 downwards that leads off the curve. -/
def findProgramAddress (seeds : List Bytes) : Option (Pubkey × UInt8) :=
  (List.range 255).findSome? fun i =>
    (rt.createProgramAddress (seeds ++ [[UInt8.ofNat (255 - i)]])).map
      fun k => (k, UInt8.ofNat (255 - i))

/-- Some seeds of this program lead to the key. -/
def IsDerived (k : Pubkey) : Prop := ∃ seeds, rt.createProgramAddress seeds = some k

theorem createProgramAddress_eq_some {seeds : List Bytes} {k : Pubkey} :
    rt.createProgramAddress seeds = some k ↔
      (seeds.length ≤ 16 ∧ (∀ seed ∈ seeds, seed.length ≤ 32) ∧ rt.onCurve k = false) ∧
        rt.sha256 (rt.derivation seeds) = k := by
  unfold createProgramAddress
  split
  · rename_i h
    simp only [Option.some.injEq]
    constructor
    · rintro rfl; exact ⟨h, rfl⟩
    · exact fun h => h.2
  · rename_i h
    simp only [reduceCtorEq, false_iff]
    rintro ⟨hk, rfl⟩
    exact h hk

theorem create_of_find {seeds : List Bytes} {k : Pubkey} {bump : UInt8}
    (h : rt.findProgramAddress seeds = some (k, bump)) :
    rt.createProgramAddress (seeds ++ [[bump]]) = some k := by
  obtain ⟨i, -, hi⟩ := List.exists_of_findSome?_eq_some h
  simp only [Option.map_eq_some_iff, Prod.mk.injEq] at hi
  obtain ⟨k', hk, rfl, rfl⟩ := hi
  exact hk

theorem isDerived_of_find {seeds : List Bytes} {k : Pubkey} {bump : UInt8}
    (h : rt.findProgramAddress seeds = some (k, bump)) : rt.IsDerived k :=
  ⟨_, rt.create_of_find h⟩

end Runtime

/-! ## Failure -/

/-- What an account context asks of the accounts passed to it. -/
inductive Constraint where
  | signer
  | mut
  | seeds
  | init
  | account
  | programId
  | serialize
  deriving DecidableEq, Repr

inductive Failure where
  | program (code : ErrorCode)
  | constraint (violated : Constraint)
  | invoke
  | panic
  deriving DecidableEq, Repr

def require (p : Prop) [Decidable p] (e : Failure) : Except Failure Unit :=
  if p then .ok () else .error e

/-- `unwrap`, or an index into a vector. -/
def orFail {α : Type} (e : Failure) : Option α → Except Failure α
  | some a => .ok a
  | none => .error e

@[simp] theorem require_eq_ok {p : Prop} [Decidable p] {e : Failure} {u : Unit} :
    require p e = .ok u ↔ p := by
  unfold require; split <;> simp [*]

@[simp] theorem orFail_eq_ok {α : Type} {e : Failure} {o : Option α} {a : α} :
    orFail e o = .ok a ↔ o = some a := by
  cases o <;> simp [orFail]

@[simp] theorem bind_eq_ok {ε α β : Type} {x : Except ε α} {f : α → Except ε β} {b : β} :
    (x >>= f) = .ok b ↔ ∃ a, x = .ok a ∧ f a = .ok b := by
  cases x <;> simp [bind, Except.bind]

@[simp] theorem pure_eq_ok {ε α : Type} {a b : α} :
    (pure a : Except ε α) = .ok b ↔ a = b := by
  simp [pure, Except.pure]

theorem require_eq_error {p : Prop} [Decidable p] {e e' : Failure} :
    require p e = .error e' ↔ ¬ p ∧ e = e' := by
  unfold require
  split <;> simp [*]

theorem orFail_eq_error {α : Type} {e e' : Failure} {o : Option α} :
    orFail e o = .error e' ↔ o = none ∧ e = e' := by
  cases o <;> simp [orFail]

/-- The first failure is the answer. -/
theorem bind_eq_error {ε α β : Type} {x : Except ε α} {f : α → Except ε β} {e : ε} :
    (x >>= f) = .error e ↔ x = .error e ∨ ∃ a, x = .ok a ∧ f a = .error e := by
  cases x <;> simp [bind, Except.bind]

end Coin98Vault

import Coin98Vault.Program.State

/-!
# Token accounts

The layout of an SPL token account, as the program unpacks it.
-/

namespace Coin98Vault

inductive AccountState where
  | uninitialized
  | initialized
  | frozen
  deriving DecidableEq, Repr

/-- The balances of a mint add up to its supply, a `u64`, so that no credit overflows and
an amount is kept as a number. -/
structure TokenAccount where
  mint : Pubkey
  owner : Pubkey
  amount : Nat
  delegate : Option Pubkey
  state : AccountState
  isNative : Option Nat
  delegatedAmount : Nat
  closeAuthority : Option Pubkey
  deriving DecidableEq

def AccountState.tryFromPrimitive (n : UInt8) : Option AccountState :=
  if n = 0 then some uninitialized
  else if n = 1 then some initialized
  else if n = 2 then some frozen
  else none

def unpackKey (src : Bytes) : Option Pubkey := (Codec.bytes32.decode src).map Prod.fst

def unpackCoptionKey (src : Bytes) : Option (Option Pubkey) :=
  if src.take 4 = [0, 0, 0, 0] then some none
  else if src.take 4 = [1, 0, 0, 0] then (unpackKey (src.drop 4)).map some
  else none

def unpackCoptionU64 (src : Bytes) : Option (Option Nat) :=
  if src.take 4 = [0, 0, 0, 0] then some none
  else if src.take 4 = [1, 0, 0, 0] then some (some (leValue ((src.drop 4).take 8)))
  else none

/-- `none` where the source panics or refuses the bytes. -/
def TokenAccount.unpackFromSlice (src : Bytes) : Option TokenAccount := do
  guard (165 ≤ src.length)
  let mint ← unpackKey src
  let owner ← unpackKey (src.drop 32)
  let amount := leValue ((src.drop 64).take 8)
  let delegate ← unpackCoptionKey (src.drop 72)
  let state ← (src[108]?).bind AccountState.tryFromPrimitive
  let isNative ← unpackCoptionU64 (src.drop 109)
  let delegatedAmount := leValue ((src.drop 121).take 8)
  let closeAuthority ← unpackCoptionKey (src.drop 129)
  return { mint, owner, amount, delegate, state, isNative, delegatedAmount, closeAuthority }

/-- Where there is no key, the body of `dst` stays as it is. -/
def packCoptionKey (src : Option Pubkey) (dst : Bytes) : Bytes :=
  match src with
  | some key => [1, 0, 0, 0] ++ key.bytes
  | none => [0, 0, 0, 0] ++ dst.drop 4

def packCoptionU64 (src : Option Nat) (dst : Bytes) : Bytes :=
  match src with
  | some amount => [1, 0, 0, 0] ++ leBytes 8 amount
  | none => [0, 0, 0, 0] ++ dst.drop 4

def AccountState.toByte : AccountState → UInt8
  | uninitialized => 0
  | initialized => 1
  | frozen => 2

namespace TokenAccount

/-- `none` where the source panics. -/
def packIntoSlice (t : TokenAccount) (dst : Bytes) : Option Bytes := do
  guard (165 ≤ dst.length)
  let delegateDst := (dst.drop 72).take 36
  let isNativeDst := (dst.drop 109).take 12
  let closeAuthorityDst := (dst.drop 129).take 36
  return t.mint.bytes ++ t.owner.bytes ++ leBytes 8 t.amount ++
    packCoptionKey t.delegate delegateDst ++ [t.state.toByte] ++
    packCoptionU64 t.isNative isNativeDst ++ leBytes 8 t.delegatedAmount ++
    packCoptionKey t.closeAuthority closeAuthorityDst ++ dst.drop 165

/-- The key may debit `n` from the account: as its delegate within the allowance, else as
its owner.  A delegate is looked at first. -/
def CanDebit (t : TokenAccount) (authority : Pubkey) (n : Nat) : Prop :=
  (t.delegate = some authority ∧ n ≤ t.delegatedAmount) ∨
    (t.delegate ≠ some authority ∧ t.owner = authority)

instance (t : TokenAccount) (authority : Pubkey) (n : Nat) :
    Decidable (t.CanDebit authority n) := by
  unfold CanDebit; infer_instance

/-- The keys that may debit the account. -/
def Authorizes (t : TokenAccount) (authority : Pubkey) : Prop :=
  t.owner = authority ∨ t.delegate = some authority

theorem CanDebit.authorizes {t : TokenAccount} {authority : Pubkey} {n : Nat}
    (h : t.CanDebit authority n) : t.Authorizes authority :=
  h.elim (fun hd => .inr hd.1) (fun ho => .inl ho.2)

end TokenAccount

end Coin98Vault

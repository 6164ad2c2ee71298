import Mathlib.Data.List.Forall2
import Coin98Vault.Framework.Merkle
import Coin98Vault.Program.Runtime

/-!
# Shared helpers and invocations

`shared.rs` and the two transfer wrappers of `external/`.
-/

namespace Coin98Vault

structure DeriveEventIdParam where
  eventId : UInt64

def DeriveEventIdParam.codec : Codec DeriveEventIdParam :=
  Codec.u64.iso DeriveEventIdParam.eventId DeriveEventIdParam.mk (fun _ => rfl) (fun _ => rfl)

def deriveEventId (eventId : UInt64) : Bytes := DeriveEventIdParam.codec.encode ⟨eventId⟩

namespace Shared

/-- One turn of the loop of `verify_proof`. -/
def hashProof (rt : Runtime) (computedHash proof : Hash) : Hash :=
  if computedHash < proof then rt.keccak (computedHash.bytes ++ proof.bytes)
  else rt.keccak (proof.bytes ++ computedHash.bytes)

/-- Whether the leaf can be proved to be part of the Merkle tree with the given root. -/
def verifyProof (rt : Runtime) (proofs : List Hash) (root leaf : Hash) : Bool :=
  proofs.foldl (hashProof rt) leaf == root

end Shared

/-- The transaction a call runs in: who signed it, what it may write, and the clock. -/
structure Tx where
  signers : List Pubkey
  writable : List Pubkey
  unixTimestamp : Int64

/-- Invoke another program.  Signer and writable privileges come from the transaction, or
from the seeds of addresses derived by this program. -/
def invokeSigned (rt : Runtime) (tx : Tx) (b : Bank) (ix : CpiInstruction)
    (signerSeeds : List (List Bytes)) : Except Failure Bank := do
  let derived ← orFail .invoke (signerSeeds.mapM rt.createProgramAddress)
  require (∀ m ∈ ix.accounts, m.isWritable = true → m.pubkey ∈ tx.writable) .invoke
  require (∀ m ∈ ix.accounts, m.isSigner = true → m.pubkey ∈ tx.signers ∨ m.pubkey ∈ derived)
    .invoke
  orFail .invoke (rt.process b ix)

def transferLamport (rt : Runtime) (tx : Tx) (b : Bank) (owner recipient : Pubkey)
    (amount : UInt64) (signerSeeds : List (List Bytes)) : Except Failure Bank :=
  invokeSigned rt tx b (systemTransfer owner recipient amount) signerSeeds

def transferToken (rt : Runtime) (tx : Tx) (b : Bank) (owner source target : Pubkey)
    (amount : UInt64) (signerSeeds : List (List Bytes)) : Except Failure Bank :=
  invokeSigned rt tx b (tokenTransfer owner source target amount) signerSeeds

/-- The key signed the transaction, or the program signs for it with one of the seeds. -/
def MaySign (rt : Runtime) (tx : Tx) (signerSeeds : List (List Bytes)) (k : Pubkey) : Prop :=
  k ∈ tx.signers ∨ ∃ seeds ∈ signerSeeds, rt.createProgramAddress seeds = some k

theorem mapM_eq_some_iff {α β : Type} {f : α → Option β} {as : List α} {bs : List β} :
    as.mapM f = some bs ↔ List.Forall₂ (fun a b => f a = some b) as bs := by
  induction as generalizing bs with
  | nil => simp [List.forall₂_nil_left_iff, eq_comm]
  | cons a as ih =>
    simp only [List.mapM_cons, Option.pure_def, Option.bind_eq_bind, Option.bind_eq_some_iff,
      Option.some.injEq, ih]
    constructor
    · rintro ⟨b, hb, bs, hbs, rfl⟩
      exact .cons hb hbs
    · rintro (_ | ⟨hb, hbs⟩)
      exact ⟨_, hb, _, hbs, rfl⟩

/-- An invocation runs when every seed derives an address and every privilege is held. -/
theorem invokeSigned_eq_ok {rt : Runtime} {tx : Tx} {b b' : Bank} {ix : CpiInstruction}
    {signerSeeds : List (List Bytes)} :
    invokeSigned rt tx b ix signerSeeds = .ok b' ↔
      (∀ seeds ∈ signerSeeds, ∃ k, rt.createProgramAddress seeds = some k) ∧
      (∀ m ∈ ix.accounts, m.isWritable = true → m.pubkey ∈ tx.writable) ∧
      (∀ m ∈ ix.accounts, m.isSigner = true → MaySign rt tx signerSeeds m.pubkey) ∧
      rt.process b ix = some b' := by
  simp only [invokeSigned, bind_eq_ok, orFail_eq_ok, require_eq_ok, exists_const,
    mapM_eq_some_iff]
  have hmem {derived : List Pubkey} (h : List.Forall₂
      (fun seeds k => rt.createProgramAddress seeds = some k) signerSeeds derived) (k : Pubkey) :
      k ∈ derived ↔ ∃ seeds ∈ signerSeeds, rt.createProgramAddress seeds = some k := by
    induction h with
    | nil => simp
    | cons hd _ ih => simp [ih, hd, eq_comm]
  constructor
  · rintro ⟨derived, hd, hw, hs, hp⟩
    refine ⟨?_, hw, fun m hm hsig => ?_, hp⟩
    · intro seeds hseeds
      clear hmem hs
      induction hd with
      | nil => simp at hseeds
      | cons hk _ ih =>
        rcases List.mem_cons.mp hseeds with rfl | hseeds
        · exact ⟨_, hk⟩
        · exact ih hseeds
    · exact (hs m hm hsig).imp_right (hmem hd m.pubkey).mp
  · rintro ⟨hseeds, hw, hs, hp⟩
    obtain ⟨derived, hd⟩ : ∃ derived, List.Forall₂
        (fun seeds k => rt.createProgramAddress seeds = some k) signerSeeds derived := by
      clear hs hmem
      induction signerSeeds with
      | nil => exact ⟨[], .nil⟩
      | cons seeds rest ih =>
        obtain ⟨k, hk⟩ := hseeds seeds (by simp)
        obtain ⟨ks, hks⟩ := ih fun s hs => hseeds s (by simp [hs])
        exact ⟨k :: ks, .cons hk hks⟩
    exact ⟨derived, hd, hw, fun m hm hsig => (hs m hm hsig).imp_right (hmem hd m.pubkey).mpr, hp⟩

theorem transferLamport_eq_ok {rt : Runtime} (hrt : rt.Lawful) {tx : Tx} {b b' : Bank}
    {owner recipient : Pubkey} {amount : UInt64} {signerSeeds : List (List Bytes)} :
    transferLamport rt tx b owner recipient amount signerSeeds = .ok b' ↔
      (∀ seeds ∈ signerSeeds, ∃ k, rt.createProgramAddress seeds = some k) ∧
      owner ∈ tx.writable ∧ recipient ∈ tx.writable ∧ MaySign rt tx signerSeeds owner ∧
      (b owner).content = .wallet ∧ amount.toNat ≤ (b owner).lamports ∧
      b' = b.moveLamports owner recipient amount.toNat := by
  rw [transferLamport, invokeSigned_eq_ok, hrt.system]
  simp [systemTransfer, and_assoc]

theorem transferToken_eq_ok {rt : Runtime} {tx : Tx} {b b' : Bank} {owner source target : Pubkey}
    {amount : UInt64} {signerSeeds : List (List Bytes)} :
    transferToken rt tx b owner source target amount signerSeeds = .ok b' ↔
      (∀ seeds ∈ signerSeeds, ∃ k, rt.createProgramAddress seeds = some k) ∧
      source ∈ tx.writable ∧ target ∈ tx.writable ∧ MaySign rt tx signerSeeds owner ∧
      rt.process b (tokenTransfer owner source target amount) = some b' := by
  rw [transferToken, invokeSigned_eq_ok]
  simp [tokenTransfer, and_assoc]

end Coin98Vault

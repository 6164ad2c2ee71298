import Coin98Vault.Program.Reference
import Coin98Vault.Services.VaultService

/-!
# Libraries to run the services on
-/

namespace Coin98Vault.Reference

/-- A layout of the given bytes, which throws for other values and past the end. -/
def layoutOf {α : Type} (bytes : α → Option Bytes) : FieldLayout α := fun a buffer offset =>
  match bytes a with
  | some x =>
    if offset + x.length ≤ buffer.length then some (overwrite buffer offset x, x.length) else none
  | none => none

def numberLayout (width : Nat) (low high : Int) : FieldLayout Int :=
  layoutOf fun n =>
    if low ≤ n ∧ n < high then some (leBytes width (n % 2 ^ (8 * width)).toNat) else none

/-- Pair the digests of a level. -/
def pairUp : List Hash → List Hash
  | [] => []
  | [_] => []
  | a :: b :: rest => Merkle.above (redemptionScheme runtime) a b :: pairUp rest

def pad (level : List Hash) : List Hash :=
  if level.length % 2 = 0 then level else level ++ [systemProgramId]

/-- The levels above some leaves; the number bounds their height. -/
def levels : Nat → List Hash → List (List Hash)
  | 0, level => [level]
  | n + 1, level =>
    if level.length ≤ 1 then [level] else pad level :: levels n (pairUp (pad level))

def rootOf (levels : List (List Hash)) : Hash := (levels.getLast?.bind List.head?).getD systemProgramId

def libraries : Libraries where
  u16 := numberLayout 2 0 (2 ^ 16)
  i64 := numberLayout 8 (-2 ^ 63) (2 ^ 63)
  u64 := numberLayout 8 0 (2 ^ 64)
  publicKey := layoutOf fun k => some k.bytes
  struct := FieldLayout.seq
  keckka256 := hash
  MerkleTree := List Hash
  newMerkleTree hashes := hashes
  nodes hashes := (levels hashes.length hashes).map (List.map MerkleNode.mk)
  root hashes := ⟨rootOf (levels hashes.length hashes)⟩

private theorem layoutOf_puts {α : Type} {bytes : α → Option Bytes} {a : α} {x : Bytes}
    (h : bytes a = some x) : (layoutOf bytes).Puts a x := by
  intro buffer offset hroom
  simp only [layoutOf, h, if_pos hroom]

private theorem numberLayout_puts {width : Nat} {low high n : Int} (hlow : low ≤ n)
    (hhigh : n < high) :
    (numberLayout width low high).Puts n (leBytes width (n % 2 ^ (8 * width)).toNat) :=
  layoutOf_puts (if_pos ⟨hlow, hhigh⟩)

private theorem pairUp_length (level : List Hash) : (pairUp level).length = level.length / 2 := by
  induction level using pairUp.induct with
  | case1 => rfl
  | case2 a => simp [pairUp]
  | case3 a b rest ih =>
    rw [pairUp, List.length_cons, ih, List.length_cons, List.length_cons]
    omega

private theorem pairUp_pairs {level : List Hash} {j : Nat} {a b : Hash}
    (ha : level[2 * j]? = some a) (hb : level[2 * j + 1]? = some b) :
    (pairUp level)[j]? = some (Merkle.above (redemptionScheme runtime) a b) := by
  induction level using pairUp.induct generalizing j with
  | case1 => simp at ha
  | case2 c => simp at hb
  | case3 c d rest ih =>
    rw [pairUp]
    cases j with
    | zero =>
      obtain rfl : c = a := Option.some.inj ha
      obtain rfl : d = b := Option.some.inj hb
      rfl
    | succ j =>
      rw [List.getElem?_cons_succ]
      apply ih
      · exact ha
      · exact hb

private theorem pad_spec (level : List Hash) :
    ∃ padding, pad level = level ++ padding ∧ (pad level).length % 2 = 0 ∧ padding.length ≤ 1 := by
  unfold pad
  split
  · rename_i heven
    exact ⟨[], by simp, heven, by simp⟩
  · rename_i hodd
    refine ⟨[systemProgramId], rfl, ?_, by simp⟩
    rw [List.length_append, List.length_singleton]
    omega

private theorem eq_singleton {level : List Hash} (hne : level ≠ []) (h : level.length ≤ 1) :
    ∃ d, level = [d] := by
  have hpos := List.length_pos_of_ne_nil hne
  exact List.length_eq_one_iff.mp (by omega)

private theorem rootOf_eq {rows : List (List Hash)} {d : Hash}
    (h : Merkle.Levels (redemptionScheme runtime) rows d) : rootOf rows = d := by
  induction h with
  | root d => rfl
  | level even pairs rest ih =>
    rw [rootOf, List.getLast?_cons_cons]
    exact ih

private theorem levels_spec (n : Nat) {level : List Hash} (hne : level ≠ [])
    (hn : level.length ≤ n + 1) :
    ∃ padding rows, levels n level = (level ++ padding) :: rows ∧
      ∃ d, Merkle.Levels (redemptionScheme runtime) (levels n level) d := by
  induction n generalizing level with
  | zero =>
    obtain ⟨d, rfl⟩ := eq_singleton hne hn
    exact ⟨[], [], rfl, d, .root d⟩
  | succ n ih =>
    rw [levels]
    split
    · rename_i hle
      obtain ⟨d, rfl⟩ := eq_singleton hne hle
      exact ⟨[], [], rfl, d, .root d⟩
    · rename_i hlt
      obtain ⟨padding, hpad, heven, hshort⟩ := pad_spec level
      have hup := pairUp_length (pad level)
      have hlen : (pad level).length = level.length + padding.length := by
        rw [hpad, List.length_append]
      have hupne : pairUp (pad level) ≠ [] := by
        intro hnil
        rw [hnil, List.length_nil] at hup
        omega
      obtain ⟨padding', rows, hrows, d, hlevels⟩ := ih hupne (by omega)
      refine ⟨padding, levels n (pairUp (pad level)), by rw [hpad], d, ?_⟩
      rw [hrows] at hlevels ⊢
      refine .level heven ?_ hlevels
      intro j a b ha hb
      have hpair := pairUp_pairs ha hb
      rw [List.getElem?_append_left (List.getElem?_eq_some_iff.mp hpair).1]
      exact hpair

theorem libraries_lawful : libraries.Lawful runtime where
  u16 n hlow hhigh := by
    have h := @numberLayout_puts 2 _ _ _ hlow hhigh
    rwa [Int.emod_eq_of_lt hlow hhigh] at h
  i64 n hlow hhigh := numberLayout_puts hlow hhigh
  u64 n hlow hhigh := by
    have h := @numberLayout_puts 8 _ _ _ hlow hhigh
    rwa [Int.emod_eq_of_lt hlow hhigh] at h
  publicKey k := layoutOf_puts rfl
  struct fields := rfl
  keckka256 := rfl
  levels hashes hne := by
    have hpos := List.length_pos_of_ne_nil hne
    obtain ⟨padding, rows, hrows, d, hlevels⟩ := levels_spec hashes.length hne (by omega)
    refine ⟨padding, rows, ?_, ?_⟩
    · have hid : List.map MerkleNode.hash ∘ List.map MerkleNode.mk = id := by
        funext row
        simp [Function.comp_def]
      show ((levels hashes.length hashes).map (List.map MerkleNode.mk)).map _ = _
      rw [List.map_map, hid, List.map_id, hrows]
    · show Merkle.Levels _ _ (rootOf (levels hashes.length hashes))
      rw [rootOf_eq hlevels, ← hrows]
      exact hlevels

/-! ## A schedule of several mints -/

/-- The vault has tokens of both mints, in an account each. -/
def multiRecords : List MerkleDistributor.ScheduleMultiToken :=
  [⟨0, 0, user, mint, 3, 1⟩, ⟨1, 0, user, feeMint, 2, 0⟩, ⟨2, 0, user, systemProgramId, 4, 0⟩]

@[irreducible] def multiTree : libraries.MerkleTree :=
  (MerkleDistributionMultiTokenService.createTree libraries multiRecords).getD
    (libraries.newMerkleTree [])

@[irreducible] def multiSchedule : Pubkey := address [scheduleSeed1, deriveEventId 9]

def multiScheduleArgs : CreateScheduleArgs where
  userCount := 3
  eventId := 9
  timestamp := 0
  merkleRoot := (libraries.root multiTree).hash
  useMultiToken := true
  receivingTokenMint := mint
  receivingTokenAccount := vaultToken
  sendingTokenMint := feeMint
  sendingTokenAccount := vaultFee

def openMultiSchedule : Call where
  signers := [owner]
  writable := [owner, multiSchedule]
  unixTimestamp := 0
  instruction := .createSchedule ⟨owner, vault, multiSchedule, systemProgramId⟩ multiScheduleArgs

/-- The bank with the vault and the schedule of several mints open. -/
@[irreducible] def multiDeployed : Bank := Trace.exec (step runtime) opened openMultiSchedule

theorem openMultiSchedule_ok : step runtime opened openMultiSchedule = .ok multiDeployed := by
  have h : Trace.Succeeds (step runtime) opened openMultiSchedule := by decide +kernel
  unfold multiDeployed
  exact h.step_eq

/-! ## Packages for the client -/

def decodeAccount {α : Type} (l : Layout α) (fields : Fields) (d : Bytes) : Option Object :=
  if d.take 8 = l.discriminator then
    (fields.codec.decode (d.drop 8)).map fun x => fields.object x.1
  else none

def packages : Client.Packages where
  lib := libraries
  encode ixName request := do
    let m ← Method.all.find? fun m => m.idl.name == ixName
    let data ← m.idl.args.select request
    let bytes := m.idl.args.codec.encode data
    if bytes.length ≤ 1000 then some (m.sighash ++ bytes) else none
  decode name d :=
    if name = "Vault" then decodeAccount Vault.layout Vault.idl d
    else if name = "Schedule" then decodeAccount Schedule.layout Schedule.idl d
    else none
  -- the digests of the texts that are hashed here
  sha256 text :=
    if text = "Vault" then
      ⟨[93, 85, 196, 21, 227, 86, 221, 123, 89, 243, 41, 170, 92, 131, 163, 78, 225, 12, 56,
      3, 81, 106, 197, 105, 253, 229, 230, 136, 4, 167, 224, 108], rfl⟩
    else if text = "Schedule" then
      ⟨[244, 131, 10, 29, 174, 41, 128, 68, 124, 113, 107, 212, 181, 119, 155, 112, 19, 87,
      94, 240, 159, 112, 239, 71, 49, 69, 114, 24, 121, 36, 135, 179], rfl⟩
    else if text = "Signer" then
      ⟨[2, 151, 229, 53, 244, 77, 229, 7, 187, 193, 90, 56, 98, 174, 139, 217, 59, 126, 181,
      169, 97, 80, 233, 24, 51, 70, 120, 126, 241, 153, 19, 222], rfl⟩
    else
      ⟨[198, 45, 211, 39, 181, 196, 239, 38, 11, 60, 75, 22, 245, 4, 168, 52, 83, 112, 74,
      116, 248, 2, 140, 102, 171, 197, 70, 236, 50, 152, 116, 174], rfl⟩
  serialize layout a size := (layout a (List.replicate size 0) 0).map fun r => r.1.take r.2

theorem packages_lawful : packages.Lawful runtime where
  lib := libraries_lawful
  encode m request data hselect _ := by
    have hfind : (Method.all.find? fun n => n.idl.name == m.idl.name) = some m := by
      cases m <;> decide
    simp only [packages, hfind, hselect, Option.bind_eq_bind, Option.bind_some]
  decodeVault _ := rfl
  decodeSchedule _ := rfl
  vault := by decide +kernel
  schedule := by decide +kernel
  signer := by decide +kernel
  serialize _ _ _ := rfl

/-- A connection that reports the accounts of the program only. -/
def connection : Client.Connection := fun b k =>
  match (b k).content with
  | .program data => some ⟨runtime.programId, data⟩
  | _ => none

theorem connection_lawful : connection.Lawful runtime := by
  intro b k d hk
  simp only [connection, hk]

end Coin98Vault.Reference

import Coin98Vault.Services.Reference

/-!
# Off-chain trees pass the on-chain check

The services and the program hash the same bytes for a record, and the proof that a service
reads off its tree is accepted by the program.
-/

namespace Coin98Vault

open MerkleDistributor

/-! ## The bytes of a record -/

/-- Two's complement is the residue modulo 2^64. -/
private theorem toNat_int64_ofInt (n : Int) :
    (Int64.ofInt n).toUInt64.toNat = (n % 2 ^ 64).toNat := by
  show (BitVec.ofInt 64 n).toNat = _
  rw [BitVec.toNat_ofInt]
  rfl

namespace MerkleDistributor

/-- The fields are in the ranges of their layouts. -/
structure Schedule.InRange (s : Schedule) : Prop where
  index : 0 ≤ s.index ∧ s.index < 2 ^ 16
  timestamp : -2 ^ 63 ≤ s.timestamp ∧ s.timestamp < 2 ^ 63
  receivingAmount : 0 ≤ s.receivingAmount ∧ s.receivingAmount < 2 ^ 64
  sendingAmount : 0 ≤ s.sendingAmount ∧ s.sendingAmount < 2 ^ 64

structure OldVersionSchedule.InRange (s : OldVersionSchedule) : Prop where
  index : 0 ≤ s.index ∧ s.index < 2 ^ 16
  receivingAmount : 0 ≤ s.receivingAmount ∧ s.receivingAmount < 2 ^ 64
  sendingAmount : 0 ≤ s.sendingAmount ∧ s.sendingAmount < 2 ^ 64

structure ScheduleMultiToken.InRange (s : ScheduleMultiToken) : Prop where
  index : 0 ≤ s.index ∧ s.index < 2 ^ 16
  timestamp : -2 ^ 63 ≤ s.timestamp ∧ s.timestamp < 2 ^ 63
  receivingAmount : 0 ≤ s.receivingAmount ∧ s.receivingAmount < 2 ^ 64
  sendingAmount : 0 ≤ s.sendingAmount ∧ s.sendingAmount < 2 ^ 64

/-- The same values as the program has them. -/
def Schedule.params (s : Schedule) : RedemptionParamsV2 where
  index := UInt16.ofNat s.index.toNat
  timestamp := Int64.ofInt s.timestamp
  address := s.address
  receivingAmount := UInt64.ofNat s.receivingAmount.toNat
  sendingAmount := UInt64.ofNat s.sendingAmount.toNat

def OldVersionSchedule.params (s : OldVersionSchedule) : RedemptionParams where
  index := UInt16.ofNat s.index.toNat
  address := s.address
  receivingAmount := UInt64.ofNat s.receivingAmount.toNat
  sendingAmount := UInt64.ofNat s.sendingAmount.toNat

def ScheduleMultiToken.params (s : ScheduleMultiToken) : RedemptionMultiParamsV2 where
  index := UInt16.ofNat s.index.toNat
  timestamp := Int64.ofInt s.timestamp
  address := s.address
  receivingTokenMint := s.receivingTokenMint
  receivingAmount := UInt64.ofNat s.receivingAmount.toNat
  sendingAmount := UInt64.ofNat s.sendingAmount.toNat

section
variable {lib : Libraries} {rt : Runtime} (hlib : lib.Lawful rt)
include hlib

private theorem u16_puts {n : Int} (h : 0 ≤ n ∧ n < 2 ^ 16) :
    lib.u16.Puts n (Codec.u16.encode (UInt16.ofNat n.toNat)) := by
  have hvalue : (UInt16.ofNat n.toNat).toNat = n.toNat := by
    rw [UInt16.toNat_ofNat']
    apply Nat.mod_eq_of_lt
    omega
  have hputs := hlib.u16 n h.1 h.2
  rw [← hvalue] at hputs
  exact hputs

private theorem u64_puts {n : Int} (h : 0 ≤ n ∧ n < 2 ^ 64) :
    lib.u64.Puts n (Codec.u64.encode (UInt64.ofNat n.toNat)) := by
  have hvalue : (UInt64.ofNat n.toNat).toNat = n.toNat := by
    rw [UInt64.toNat_ofNat']
    apply Nat.mod_eq_of_lt
    omega
  have hputs := hlib.u64 n h.1 h.2
  rw [← hvalue] at hputs
  exact hputs

private theorem i64_puts {n : Int} (h : -2 ^ 63 ≤ n ∧ n < 2 ^ 63) :
    lib.i64.Puts n (Codec.i64.encode (Int64.ofInt n)) := by
  have hputs := hlib.i64 n h.1 h.2
  rw [← toNat_int64_ofInt] at hputs
  exact hputs

/-- The layouts put down the bytes that the program hashes. -/
theorem scheduleLayout_puts {s : Schedule} (h : s.InRange) :
    (scheduleLayout lib).Puts s (Record.singleV2 s.params).tryToVec := by
  have hputs := FieldLayout.Puts.cons (.property (u16_puts hlib h.index)) <|
    .cons (.property (i64_puts hlib h.timestamp)) <|
    .cons (.property (hlib.publicKey s.address)) <|
    .cons (.property (u64_puts hlib h.receivingAmount)) <|
    .cons (.property (u64_puts hlib h.sendingAmount)) (.nil s)
  rw [List.append_nil] at hputs
  rw [scheduleLayout, hlib.struct]
  exact hputs

theorem oldVersionScheduleLayout_puts {s : OldVersionSchedule} (h : s.InRange) :
    (oldVersionScheduleLayout lib).Puts s (Record.single s.params).tryToVec := by
  have hputs := FieldLayout.Puts.cons (.property (u16_puts hlib h.index)) <|
    .cons (.property (hlib.publicKey s.address)) <|
    .cons (.property (u64_puts hlib h.receivingAmount)) <|
    .cons (.property (u64_puts hlib h.sendingAmount)) (.nil s)
  rw [List.append_nil] at hputs
  rw [oldVersionScheduleLayout, hlib.struct]
  exact hputs

theorem scheduleMultiTokenLayout_puts {s : ScheduleMultiToken} (h : s.InRange) :
    (scheduleMultiTokenLayout lib).Puts s (Record.multiV2 s.params).tryToVec := by
  have hputs := FieldLayout.Puts.cons (.property (u16_puts hlib h.index)) <|
    .cons (.property (i64_puts hlib h.timestamp)) <|
    .cons (.property (hlib.publicKey s.address)) <|
    .cons (.property (hlib.publicKey s.receivingTokenMint)) <|
    .cons (.property (u64_puts hlib h.receivingAmount)) <|
    .cons (.property (u64_puts hlib h.sendingAmount)) (.nil s)
  rw [List.append_nil] at hputs
  rw [scheduleMultiTokenLayout, hlib.struct]
  exact hputs

end

/-! ## Trees and proofs -/

section
variable {α : Type} {lib : Libraries} {rt : Runtime} {layout : FieldLayout α} {record : α → Record}

private theorem computeHash_eq (hlib : lib.Lawful rt) {a : α}
    (hputs : layout.Puts a (record a).tryToVec) :
    computeHash lib layout a = some (rt.keccak (record a).tryToVec) := by
  have hroom : (record a).tryToVec.length ≤ (List.replicate 1000 (0 : UInt8)).length := by
    rw [Record.tryToVec_length, List.length_replicate]
    cases record a <;> simp
  have hslice := hputs.slice hroom
  rw [Option.map_eq_some_iff] at hslice
  obtain ⟨⟨buffer, span⟩, hwrite, hbytes⟩ := hslice
  show (layout a (List.replicate 1000 0) 0).bind
    (fun r => some (lib.keckka256 (r.1.take r.2))) = some (rt.keccak (record a).tryToVec)
  rw [hwrite, Option.bind_some, hbytes, hlib.keckka256]

theorem createTree_eq (hlib : lib.Lawful rt) {schedules : List α}
    (hputs : ∀ a ∈ schedules, layout.Puts a (record a).tryToVec) :
    createTree lib layout schedules =
      some (lib.newMerkleTree (schedules.map fun a => rt.keccak (record a).tryToVec)) := by
  have hhashes : schedules.mapM (computeHash lib layout) =
      some (schedules.map fun a => rt.keccak (record a).tryToVec) := by
    induction schedules with
    | nil => rfl
    | cons a schedules ih =>
      have hrest := ih fun x hx => hputs x (List.mem_cons_of_mem _ hx)
      rw [List.mapM_cons, computeHash_eq hlib (hputs a List.mem_cons_self), hrest]
      rfl
  rw [createTree, hhashes]
  rfl

/-- The loop reads off the siblings of the path. -/
theorem getProofLoop_eq (index : Nat) (levels : List (List MerkleNode)) :
    (getProofLoop index levels.dropLast).map (Option.map MerkleNode.hash) =
      Merkle.siblingsAt index (levels.map (List.map MerkleNode.hash)) := by
  induction levels generalizing index with
  | nil => rfl
  | cons nodes levels ih =>
    cases levels with
    | nil => rfl
    | cons up levels =>
      have hhalf : (index - index % 2) / 2 = index / 2 := by omega
      rw [List.dropLast_cons_cons, getProofLoop, List.map_cons, ih, hhalf]
      simp only [List.map_cons, Merkle.siblingsAt, Merkle.sibling, List.getElem?_map]
      split <;> rfl

theorem exists_of_map_eq_some {proof : List (Option MerkleNode)} {hashes : List Hash}
    (h : proof.map (Option.map MerkleNode.hash) = hashes.map some) :
    ∃ nodes : List MerkleNode, proof = nodes.map some ∧ nodes.map MerkleNode.hash = hashes := by
  induction proof generalizing hashes with
  | nil =>
    have hnil : hashes = [] := List.map_eq_nil_iff.mp h.symm
    exact ⟨[], rfl, hnil.symm⟩
  | cons node proof ih =>
    cases hashes with
    | nil => simp at h
    | cons d hashes =>
      rw [List.map_cons, List.map_cons, List.cons.injEq, Option.map_eq_some_iff] at h
      obtain ⟨⟨n, rfl, hn⟩, hrest⟩ := h
      obtain ⟨nodes, rfl, hnodes⟩ := ih hrest
      exact ⟨n :: nodes, rfl, by rw [List.map_cons, hn, hnodes]⟩

/-- The proof that a service reads off leads from the hash of the record to the root. -/
theorem getProof_climbs (hlib : lib.Lawful rt) {schedules : List α} {p : Nat} {a : α}
    (hp : schedules[p]? = some a) :
    let tree := lib.newMerkleTree (schedules.map fun a => rt.keccak (record a).tryToVec)
    ∃ nodes : List MerkleNode, getProof lib tree p = nodes.map some ∧
      nodes.length + 1 = (lib.nodes tree).length ∧
      Shared.verifyProof rt (nodes.map MerkleNode.hash) (lib.root tree).hash
        (rt.keccak (record a).tryToVec) = true := by
  intro tree
  have hne : (schedules.map fun a => rt.keccak (record a).tryToVec) ≠ [] := by
    intro hnil
    rw [List.map_eq_nil_iff] at hnil
    rw [hnil] at hp
    cases hp
  obtain ⟨padding, levels, hnodes, hlevels⟩ := hlib.levels _ hne
  have hleaf : ((schedules.map fun a => rt.keccak (record a).tryToVec) ++ padding)[p]? =
      some (rt.keccak (record a).tryToVec) := by
    have hlt := (List.getElem?_eq_some_iff.mp hp).1
    rw [List.getElem?_append_left (by rwa [List.length_map]), List.getElem?_map, hp]
    rfl
  obtain ⟨proofs, hproofs, hlength, hclimb⟩ := hlevels.climb hleaf
  have hloop := getProofLoop_eq p (lib.nodes tree)
  rw [hnodes, hproofs] at hloop
  obtain ⟨nodes, hget, hhashes⟩ := exists_of_map_eq_some hloop
  refine ⟨nodes, hget, ?_, ?_⟩
  · rw [← hnodes, List.length_map] at hlength
    rw [← hlength, ← hhashes, List.length_map]
  · rw [Shared.verifyProof_eq_true, hhashes]
    exact hclimb

/-- A service and the program agree on a list of records: they hash the same bytes, and the
program accepts what the service gives as the proof of any of them. -/
def Agrees (rt : Runtime) (lib : Libraries) (computeHash : α → Option Hash)
    (createTree : List α → Option lib.MerkleTree)
    (getProof : lib.MerkleTree → Nat → List (Option MerkleNode)) (record : α → Record)
    (verify : α → List Hash → Coin98Vault.Schedule → Except Failure Unit) (schedules : List α) :
    Prop :=
  ∃ tree, createTree schedules = some tree ∧ ∀ p a, schedules[p]? = some a →
    computeHash a = some (rt.keccak (record a).tryToVec) ∧
    ∃ nodes : List MerkleNode, getProof tree p = nodes.map some ∧
      nodes.length + 1 = (lib.nodes tree).length ∧
      Shared.verifyProof rt (nodes.map MerkleNode.hash) (lib.root tree).hash
        (rt.keccak (record a).tryToVec) = true ∧
      ∀ s : Coin98Vault.Schedule, s.merkleRoot = (lib.root tree).hash.bytes →
        s.redemptions[(record a).index.toNat]? = some false →
        verify a (nodes.map MerkleNode.hash) s = .ok ()

private theorem agrees_of_puts (hlib : lib.Lawful rt) {schedules : List α}
    (hputs : ∀ a ∈ schedules, layout.Puts a (record a).tryToVec)
    {verify : α → List Hash → Coin98Vault.Schedule → Except Failure Unit}
    (hverify : ∀ a proofs s, verify a proofs s =
      verifyLeaf rt (record a).index (record a).tryToVec proofs s) :
    Agrees rt lib (computeHash lib layout) (createTree lib layout) (getProof lib) record verify
      schedules := by
  refine ⟨_, createTree_eq hlib hputs, ?_⟩
  intro p a hp
  obtain ⟨nodes, hget, hlength, haccepts⟩ := getProof_climbs hlib hp
  refine ⟨computeHash_eq hlib (hputs a (List.mem_of_getElem? hp)), nodes, hget, hlength, haccepts,
    ?_⟩
  intro s hroot hbit
  have hlen : s.merkleRoot.length = 32 := by rw [hroot, Bytes32.length_bytes]
  have hsame : (⟨s.merkleRoot, hlen⟩ : Hash) = (lib.root (lib.newMerkleTree
      (schedules.map fun a => rt.keccak (record a).tryToVec))).hash := Bytes32.bytes_injective hroot
  rw [hverify, verifyLeaf_eq_ok]
  refine ⟨hlen, ?_, hbit⟩
  rw [hsame]
  exact haccepts

end

end MerkleDistributor

/-- Each of the three services agrees with the program, on every list of records in range. -/
theorem off_chain_agrees {lib : Libraries} {rt : Runtime} (hlib : lib.Lawful rt) :
    (∀ schedules : List MerkleDistributor.Schedule, schedules ≠ [] →
      (∀ a ∈ schedules, a.InRange) →
      Agrees rt lib (MerkleDistributionService.computeHash lib)
        (MerkleDistributionService.createTree lib) (MerkleDistributionService.getProof lib)
        (fun a => .singleV2 a.params)
        (fun a proofs s => verifyProof rt a.params.index (some a.params.timestamp) a.params.address
          a.params.receivingAmount a.params.sendingAmount proofs s) schedules) ∧
    (∀ schedules : List OldVersionSchedule, schedules ≠ [] → (∀ a ∈ schedules, a.InRange) →
      Agrees rt lib (OldMerkleDistributionService.computeHash lib)
        (OldMerkleDistributionService.createTree lib) (OldMerkleDistributionService.getProof lib)
        (fun a => .single a.params)
        (fun a proofs s => verifyProof rt a.params.index none a.params.address
          a.params.receivingAmount a.params.sendingAmount proofs s) schedules) ∧
    (∀ schedules : List ScheduleMultiToken, schedules ≠ [] → (∀ a ∈ schedules, a.InRange) →
      Agrees rt lib (MerkleDistributionMultiTokenService.computeHash lib)
        (MerkleDistributionMultiTokenService.createTree lib)
        (MerkleDistributionMultiTokenService.getProof lib) (fun a => .multiV2 a.params)
        (fun a proofs s => verifyProofMulti rt a.params.index (some a.params.timestamp)
          a.params.address a.params.receivingTokenMint a.params.receivingAmount
          a.params.sendingAmount proofs s) schedules) := by
  refine ⟨?_, ?_, ?_⟩
  · intro schedules _ hrange
    exact agrees_of_puts hlib (fun a ha => scheduleLayout_puts hlib (hrange a ha))
      fun _ _ _ => rfl
  · intro schedules _ hrange
    exact agrees_of_puts hlib (fun a ha => oldVersionScheduleLayout_puts hlib (hrange a ha))
      fun _ _ _ => rfl
  · intro schedules _ hrange
    exact agrees_of_puts hlib (fun a ha => scheduleMultiTokenLayout_puts hlib (hrange a ha))
      fun _ _ _ => rfl

open Reference in
theorem multiRecords_inRange : ∀ a ∈ multiRecords, a.InRange := by
  simp only [multiRecords, List.forall_mem_cons, List.not_mem_nil, false_implies, implies_true,
    and_true]
  exact ⟨⟨by decide, by decide, by decide, by decide⟩,
    ⟨by decide, by decide, by decide, by decide⟩, ⟨by decide, by decide, by decide, by decide⟩⟩

open Reference in
/-- Three records make an odd level, so that the library pads it. -/
theorem off_chain_agrees_reference :
    Agrees runtime libraries (MerkleDistributionService.computeHash libraries)
      (MerkleDistributionService.createTree libraries)
      (MerkleDistributionService.getProof libraries) (fun a => .singleV2 a.params)
      (fun a proofs s => verifyProof runtime a.params.index (some a.params.timestamp)
        a.params.address a.params.receivingAmount a.params.sendingAmount proofs s)
      [⟨7, -1, user, 2, 3⟩] ∧
    Agrees runtime libraries (OldMerkleDistributionService.computeHash libraries)
      (OldMerkleDistributionService.createTree libraries)
      (OldMerkleDistributionService.getProof libraries) (fun a => .single a.params)
      (fun a proofs s => verifyProof runtime a.params.index none a.params.address
        a.params.receivingAmount a.params.sendingAmount proofs s)
      [⟨0, user, 1, 3⟩, ⟨1, otherUser, 0, 4⟩] ∧
    Agrees runtime libraries (MerkleDistributionMultiTokenService.computeHash libraries)
      (MerkleDistributionMultiTokenService.createTree libraries)
      (MerkleDistributionMultiTokenService.getProof libraries) (fun a => .multiV2 a.params)
      (fun a proofs s => verifyProofMulti runtime a.params.index (some a.params.timestamp)
        a.params.address a.params.receivingTokenMint a.params.receivingAmount
        a.params.sendingAmount proofs s) multiRecords := by
  obtain ⟨hsingle, hold, hmulti⟩ := off_chain_agrees libraries_lawful
  refine ⟨hsingle _ (by simp) ?_, hold _ (by simp) ?_, hmulti _ (by simp [multiRecords])
    multiRecords_inRange⟩
  · simp only [List.forall_mem_singleton]
    exact ⟨by decide, by decide, by decide, by decide⟩
  · simp only [List.forall_mem_cons, List.not_mem_nil, false_implies, implies_true, and_true]
    exact ⟨⟨by decide, by decide, by decide⟩, ⟨by decide, by decide, by decide⟩⟩

end Coin98Vault

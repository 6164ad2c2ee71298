import Coin98Vault.Framework.Registry
import Coin98Vault.Properties.Conservation
import Coin98Vault.Program.Lifecycle

/-!
# The program keeps a registry

Vaults are offices and schedules are their listings.  Every run of the program, whatever is called
in it, is a history that the registry of its accounts and balances agrees to.  Authority over a
vault therefore spreads as it does in a registry.
-/

namespace Coin98Vault

open Trace Ledger

/-- What a schedule stays from its creation on. -/
structure Terms where
  objType : ObjType
  eventId : UInt64
  timestamp : Int64
  merkleRoot : Bytes
  receivingTokenMint : Pubkey
  receivingTokenAccount : Pubkey
  sendingTokenMint : Pubkey
  sendingTokenAccount : Pubkey

/-- The offices, listings and persons of the program go by their public keys. -/
abbrev VaultRegistry := Registry Pubkey Pubkey Terms Nat Asset

abbrev VaultEvent := Registry.Event Pubkey Pubkey Terms Nat Asset

def Vault.office (v : Vault) : Registry.Office Pubkey := ⟨v.owner, v.newOwner, {k | k ∈ v.admins}⟩

def Schedule.listing (s : Schedule) : Registry.Listing Pubkey Terms Nat where
  office := s.vaultId
  terms := ⟨s.objType, s.eventId, s.timestamp, s.merkleRoot, s.receivingTokenMint,
    s.receivingTokenAccount, s.sendingTokenMint, s.sendingTokenAccount⟩
  active := s.isActive
  remaining := {n | s.redemptions[n]? = some false}

def Value.entry : Value → Registry.Entry Pubkey Pubkey Terms Nat
  | .vault v => .office v.office
  | .schedule s => .listing s.listing

/-- The registry that a bank holds. -/
def Bank.registry (b : Bank) : VaultRegistry where
  entries k := (b.value? k).map Value.entry
  balance := b.balance

def CreateScheduleArgs.terms (a : CreateScheduleArgs) : Terms :=
  ⟨if a.useMultiToken then .distributionMulti else .distribution, a.eventId, a.timestamp,
    a.merkleRoot.bytes, a.receivingTokenMint, a.receivingTokenAccount, a.sendingTokenMint,
    a.sendingTokenAccount⟩

/-- What an instruction stands for. -/
def Instruction.act : Instruction → Registry.Act Pubkey Pubkey Terms Nat
  | .createVault x _ => .found x.vault x.owner
  | .setVault x admins => .appoint x.vault x.owner {k | k ∈ admins}
  | .createSchedule x a =>
    .file x.vault x.admin x.schedule a.terms {n | n < a.userCount.toNat}
  | .setScheduleStatus x isActive => .setActive x.vault x.admin x.schedule isActive
  | .withdrawSol x _ => .spend x.vault x.admin
  | .withdrawToken x _ => .spend x.vault x.admin
  | .redeemToken x a => .draw x.vault x.schedule a.index.toNat
  | .redeemTokenMulti x a => .draw x.vault x.schedule a.index.toNat
  | .transferOwnership x newOwner => .nominate x.vault x.owner newOwner
  | .acceptOwnership x => .accept x.vault x.newOwner

def Call.event (rt : Runtime) (b : Bank) (c : Call) : VaultEvent :=
  ⟨c.instruction.act, c.instruction.moves rt b⟩

/-- What a run does, as far as the registry is concerned. -/
def registryEvents (rt : Runtime) (b : Bank) (calls : List Call) : List VaultEvent :=
  log (step rt) (fun b c => [c.event rt b]) b calls

section
variable {rt : Runtime} {b b' : Bank} {tx : Tx} {i : Instruction} {k : Pubkey}

private theorem Instruction.act_of_claim? {cl : Claim} (h : i.claim? = some cl) :
    i.act = .draw cl.accounts.vault cl.accounts.schedule cl.args.index.toNat := by
  cases i <;> simp only [Instruction.claim?, reduceCtorEq, Option.some.injEq] at h <;>
    subst h <;> rfl

theorem registry_office? {v : Vault} (h : b.vault? k = some v) :
    b.registry.office? k = some v.office := by
  have hentry : b.registry.entries k = (b.value? k).map Value.entry := rfl
  rw [Registry.office?_eq_some, hentry, Bank.value?_eq_vault.mpr h]
  rfl

theorem registry_listing? {s : Schedule} (h : b.schedule? k = some s) :
    b.registry.listing? k = some s.listing := by
  have hentry : b.registry.entries k = (b.value? k).map Value.entry := rfl
  rw [Registry.listing?_eq_some, hentry, Bank.value?_eq_schedule.mpr h]
  rfl

theorem registry_unused (h : (b k).content = .wallet) : b.registry.entries k = none := by
  simp [Bank.registry, Bank.value?, Bank.vault?, Bank.schedule?, Bank.read, h]

/-- A bank without accounts of the program holds no offices and no listings. -/
theorem registry_of_unused (hempty : ∀ k d, (b k).content ≠ .program d) :
    b.registry = ⟨fun _ => none, b.balance⟩ := by
  refine Registry.ext ?_ rfl
  funext k
  simp [Bank.registry, Bank.value?, Bank.vault?, Bank.schedule?, Bank.read_of_unused hempty]

private theorem Schedule.listing_redeem {s : Schedule} {index : UInt16}
    (hbit : s.redemptions[index.toNat]? = some false) :
    (s.redeem index).listing =
      { s.listing with remaining := s.listing.remaining \ {index.toNat} } := by
  have hlt : index.toNat < s.redemptions.length := (List.getElem?_eq_some_iff.mp hbit).1
  have hremaining : {n | (s.redemptions.set index.toNat true)[n]? = some false} =
      {n | s.redemptions[n]? = some false} \ {index.toNat} := by
    ext n
    by_cases hn : n = index.toNat
    · subst hn
      simp [hlt]
    · rw [Set.mem_sdiff, Set.mem_ofPred_eq, List.getElem?_set_ne (Ne.symm hn)]
      simp [hn]
  unfold Schedule.listing Schedule.redeem
  rw [hremaining]

/-- The registry with the value that a call writes. -/
def Bank.registryWith (b : Bank) : Option (Pubkey × Value) → VaultRegistry
  | some (k, val) => b.registry.put k val.entry
  | none => b.registry

/-- An instruction is accepted only where its act is in order, and writes what the act says. -/
theorem Accepted.perform {w : Option (Pubkey × Value)} (h : Accepted rt tx b i w) :
    b.registry.perform systemProgramId i.act = some (b.registryWith w) := by
  cases h with
  | createVault signed unused =>
    have hnone : {k : Pubkey | k ∈ ([] : List Pubkey)} = ∅ := by simp
    simp only [Instruction.act, Registry.perform, Bank.registryWith, Value.entry, Vault.office, hnone]
    exact if_pos (registry_unused unused)
  | setVault vault signed owner =>
    simp only [Instruction.act, Registry.perform, registry_office? vault, Option.bind_some]
    exact if_pos owner
  | @createSchedule x a v bump vault signed admin unused =>
    simp only [Instruction.act, Registry.perform, registry_office? vault, Option.bind_some]
    rw [if_pos ⟨admin, registry_unused unused⟩]
    have hslots : {n | (List.replicate a.userCount.toNat false)[n]? = some false} =
        {n | n < a.userCount.toNat} := by
      ext n
      simp [List.getElem?_replicate]
    simp only [Bank.registryWith, Value.entry, Schedule.listing, CreateScheduleArgs.schedule, hslots]
    rfl
  | setScheduleStatus vault schedule signed link admin =>
    simp only [Instruction.act, Registry.perform, registry_office? vault, registry_listing? schedule,
      Option.bind_some]
    exact if_pos ⟨admin, link⟩
  | withdrawSol vault signed admin =>
    simp only [Instruction.act, Registry.perform, registry_office? vault, Option.bind_some]
    exact if_pos admin
  | withdrawToken vault signed admin =>
    simp only [Instruction.act, Registry.perform, registry_office? vault, Option.bind_some]
    exact if_pos admin
  | claim hcl admitted =>
    obtain ⟨-, -, hbit⟩ := admitted.proves
    simp only [Instruction.act_of_claim? hcl, Registry.perform, registry_office? admitted.vault,
      registry_listing? admitted.schedule, Option.bind_some]
    rw [if_pos ⟨admitted.link, admitted.active, hbit⟩]
    simp only [Bank.registryWith, Value.entry, Schedule.listing_redeem hbit]
  | transferOwnership vault signed owner =>
    simp only [Instruction.act, Registry.perform, registry_office? vault, Option.bind_some]
    exact if_pos owner
  | acceptOwnership vault signed nominee =>
    simp only [Instruction.act, Registry.perform, registry_office? vault, Option.bind_some]
    exact if_pos nominee

/-- Every step of the program is one that the registry agrees to. -/
private theorem registry_step (hrt : rt.Lawful) {c : Call} (h : step rt b c = .ok b') :
    b.registry.next systemProgramId (c.event rt b) = some b'.registry := by
  obtain ⟨w, -, hst⟩ := step_eq_ok hrt h
  have hpays := step_pays hrt h
  rw [Registry.next_eq_some]
  refine ⟨_, hst.accepted.perform, hpays.funded, ?_⟩
  have hentries : (b.registryWith w).entries = b'.registry.entries := by
    funext k
    have hentry (b : Bank) : b.registry.entries k = (b.value? k).map Value.entry := rfl
    rcases hst.value? k with ⟨val, rfl, hval⟩ | ⟨hne, hsame⟩
    · rw [hentry, hval]
      exact Registry.put_entries_self _
    · rw [hentry, hsame]
      cases w with
      | none => rfl
      | some kv =>
        obtain ⟨k', val⟩ := kv
        apply Registry.put_entries_of_ne
        intro hk
        exact hne val (by rw [hk])
  exact Registry.ext hentries hpays.settled.symm

theorem replay_run (hrt : rt.Lawful) (b : Bank) (calls : List Call) :
    b.registry.replay systemProgramId (registryEvents rt b calls) =
      some (run (step rt) b calls).registry := by
  obtain ⟨r, hreplay, rfl⟩ : ∃ r, b.registry.replay systemProgramId (registryEvents rt b calls) =
      some r ∧ r = (run (step rt) b calls).registry := by
    apply log_simulates (R := fun b r => r = Bank.registry b) calls rfl
    intro before c after b' r _ hr hok
    subst hr
    exact ⟨b'.registry, by simp [registry_step hrt hok], rfl⟩
  exact hreplay

private theorem mem_registryEvents {e : VaultEvent} {calls : List Call} :
    e ∈ registryEvents rt b calls ↔ ∃ before c after, calls = before ++ c :: after ∧
      Succeeds (step rt) (run (step rt) b before) c ∧
      e = c.event rt (run (step rt) b before) := by
  simp only [registryEvents, mem_log, List.mem_singleton]

/-- Whoever acts with the authority of a vault signs. -/
theorem Accepted.signed {w : Option (Pubkey × Value)} {p : Pubkey} (h : Accepted rt tx b i w)
    (hp : i.act.authority? = some (k, p)) : p ∈ tx.signers := by
  cases h with
  | createVault => cases hp
  | claim hcl =>
    rw [Instruction.act_of_claim? hcl] at hp
    cases hp
  | setVault _ signed | createSchedule _ signed | withdrawSol _ signed | withdrawToken _ signed
  | transferOwnership _ signed | acceptOwnership _ signed =>
    obtain ⟨rfl, rfl⟩ := Prod.mk.inj (Option.some.inj hp)
    exact signed
  | setScheduleStatus _ _ signed =>
    obtain ⟨rfl, rfl⟩ := Prod.mk.inj (Option.some.inj hp)
    exact signed

private theorem mem_registry_vault {o : Registry.Office Pubkey} :
    b.registry.entries k = some (.office o) ↔ ∃ v, b.vault? k = some v ∧ v.office = o := by
  show (b.value? k).map Value.entry = _ ↔ _
  rw [Option.map_eq_some_iff]
  constructor
  · intro h
    obtain ⟨val, hval, hentry⟩ := h
    cases val with
    | vault v => exact ⟨v, Bank.value?_eq_vault.mp hval, Registry.Entry.office.inj hentry⟩
    | schedule s => cases hentry
  · intro h
    obtain ⟨v, hv, rfl⟩ := h
    exact ⟨_, Bank.value?_eq_vault.mpr hv, rfl⟩

private theorem mem_registry_schedule {l : Registry.Listing Pubkey Terms Nat} :
    b.registry.entries k = some (.listing l) ↔ ∃ s, b.schedule? k = some s ∧ s.listing = l := by
  show (b.value? k).map Value.entry = _ ↔ _
  rw [Option.map_eq_some_iff]
  constructor
  · intro h
    obtain ⟨val, hval, hentry⟩ := h
    cases val with
    | vault v => cases hentry
    | schedule s => exact ⟨s, Bank.value?_eq_schedule.mp hval, Registry.Entry.listing.inj hentry⟩
  · intro h
    obtain ⟨s, hs, rfl⟩ := h
    exact ⟨_, Bank.value?_eq_schedule.mpr hs, rfl⟩

/-- The call, if it is signed as it must be, gives no authority over the vault from these keys to
others. -/
structure Call.KeepsTo (P : Set Pubkey) (vault : Pubkey) (c : Call) : Prop where
  admins : ∀ x admins, c.instruction = .setVault x admins → x.vault = vault → x.owner ∈ P →
    x.owner ∈ c.signers → ∀ a ∈ admins, a ∈ P
  newOwner : ∀ x newOwner, c.instruction = .transferOwnership x newOwner → x.vault = vault →
    x.owner ∈ P → x.owner ∈ c.signers → newOwner ∈ P

theorem Call.KeepsTo.act {P : Set Pubkey} {c : Call} (h : c.KeepsTo P k)
    (hsigned : ∀ x p, c.instruction.act.authority? = some (x, p) → p ∈ c.signers) :
    c.instruction.act.KeepsTo P k := by
  obtain ⟨tx, i⟩ := c
  cases i with
  | setVault x admins =>
    intro hk howner
    exact h.admins x admins rfl hk howner (hsigned _ _ rfl)
  | transferOwnership x newOwner =>
    intro hk howner
    exact h.newOwner x newOwner rfl hk howner (hsigned _ _ rfl)
  | _ => trivial

end

/-- Every run is a history that the registry agrees to: each call finds its act in order and its
moves paid for.  What the successful calls stand for and what they move is enough to tell, from the
balances before the run, all vaults, schedules and balances after it. -/
theorem program_refines_registry {rt : Runtime} (hrt : rt.Lawful) {b : Bank}
    (hempty : ∀ k d, (b k).content ≠ .program d) (calls : List Call) :
    ∃ r, Registry.replay systemProgramId ⟨fun _ => none, b.balance⟩ (registryEvents rt b calls) =
        some r ∧
      r.balance = (run (step rt) b calls).balance ∧
      (∀ k o, r.entries k = some (.office o) ↔
        ∃ v, (run (step rt) b calls).vault? k = some v ∧ v.office = o) ∧
      ∀ k l, r.entries k = some (.listing l) ↔
        ∃ s, (run (step rt) b calls).schedule? k = some s ∧ s.listing = l := by
  have hreplay := replay_run hrt b calls
  rw [registry_of_unused hempty] at hreplay
  exact ⟨_, hreplay, rfl, fun k o => mem_registry_vault, fun k l => mem_registry_schedule⟩

open Reference in
theorem program_refines_registry_deployed :
    ∃ r, Registry.replay systemProgramId ⟨fun _ => none, genesis.balance⟩
        (registryEvents runtime genesis [openVault, openSchedule, redeemFirst]) = some r ∧
      r.entries vault = some (.office ⟨owner, systemProgramId, ∅⟩) := by
  obtain ⟨r, hreplay, -, hvaults, -⟩ := program_refines_registry runtime_lawful genesis_unused
    [openVault, openSchedule, redeemFirst]
  refine ⟨r, hreplay, (hvaults vault _).mpr
    ⟨⟨.vault, 255, owner, systemProgramId, []⟩, by decide +kernel, ?_⟩⟩
  simp [Vault.office]

/-- Authority over a vault stays with a set of keys whose holders do not give it away: however long
the run, nobody else signs successfully for the vault, be it to withdraw, to create a schedule or
to set its status, to name admins or to hand the vault over.  New schedules of the vault are theirs. -/
theorem authority_confined {rt : Runtime} (hrt : rt.Lawful) {b : Bank} {vault : Pubkey} {v : Vault}
    (hv : b.vault? vault = some v) {P : Set Pubkey} (hnobody : systemProgramId ∈ P)
    (howner : v.owner ∈ P) (hnominee : v.newOwner ∈ P) (hadmins : ∀ a ∈ v.admins, a ∈ P)
    {calls : List Call} (hkeeps : ∀ c ∈ calls, c.KeepsTo P vault) :
    (∀ before c after p, calls = before ++ c :: after →
      Succeeds (step rt) (run (step rt) b before) c →
      c.instruction.act.authority? = some (vault, p) → p ∈ P ∧ p ∈ c.signers) ∧
    (∀ k s, (run (step rt) b calls).schedule? k = some s → s.vaultId = vault →
      b.schedule? k = none →
      ∃ c ∈ calls, ∃ x a, c.instruction = .createSchedule x a ∧ x.schedule = k ∧ x.admin ∈ P ∧
        x.admin ∈ c.signers) ∧
    ∃ v', (run (step rt) b calls).vault? vault = some v' ∧ v'.owner ∈ P ∧ v'.newOwner ∈ P ∧
      ∀ a ∈ v'.admins, a ∈ P := by
  have hsigned {before : List Call} {c : Call} (hok : Succeeds (step rt) (run (step rt) b before) c)
      {x p : Pubkey} (hp : c.instruction.act.authority? = some (x, p)) : p ∈ c.signers := by
    obtain ⟨w, -, hst⟩ := step_eq_ok hrt hok.step_eq
    exact hst.accepted.signed hp
  have hevents : ∀ e ∈ registryEvents rt b calls, e.act.KeepsTo P vault := by
    intro e he
    obtain ⟨before, c, after, hcalls, hok, rfl⟩ := mem_registryEvents.mp he
    exact (hkeeps c (by simp [hcalls])).act fun x p hp => hsigned hok hp
  obtain ⟨hacts, o, ho, hwithin⟩ := Registry.replay_within hnobody (replay_run hrt b calls)
    (mem_registry_vault.mpr ⟨v, hv, rfl⟩) ⟨howner, hnominee, hadmins⟩ hevents
  obtain ⟨v', hv', rfl⟩ := mem_registry_vault.mp ho
  have hconfined (before : List Call) (c : Call) (after : List Call) (p : Pubkey)
      (hcalls : calls = before ++ c :: after) (hok : Succeeds (step rt) (run (step rt) b before) c)
      (hp : c.instruction.act.authority? = some (vault, p)) : p ∈ P ∧ p ∈ c.signers := by
    have he := mem_registryEvents.mpr ⟨before, c, after, hcalls, hok, rfl⟩
    exact ⟨hacts _ he p hp, hsigned hok hp⟩
  refine ⟨hconfined, ?_, v', hv', hwithin.owner, hwithin.nominee, fun a ha => hwithin.deputies ha⟩
  intro k s hs hvault hnew
  obtain ⟨before, c, after, hcalls, hok, x, a, bump, hcall, hk, hext⟩ :=
    schedule_origin hrt hnew calls hs
  have hof : x.vault = vault := by
    rw [← hvault, hext.fixed]
    rfl
  have hp : c.instruction.act.authority? = some (vault, x.admin) := by
    rw [hcall, ← hof]
    rfl
  exact ⟨c, by simp [hcalls], x, a, hcall, hk, hconfined before c after _ hcalls hok hp⟩

open Reference in
/-- While the owner gives nothing away, a user does not get to name admins. -/
theorem authority_confined_deployed :
    let takeOver : Call := ⟨⟨[user], [vault], 6⟩, .setVault ⟨user, vault⟩ [user]⟩
    ¬ Succeeds (step runtime) (run (step runtime) deployed [redeemFirst]) takeOver := by
  intro takeOver hok
  have huser : user ∉ ({owner, systemProgramId} : Set Pubkey) := by
    simp only [Set.mem_insert_iff, Set.mem_singleton_iff]
    decide +kernel
  have hredeem : redeemFirst.KeepsTo {owner, systemProgramId} vault := by
    have hcl : redeemFirst.instruction.claim? = some firstClaim := firstClaim.claim?_instruction
    constructor
    · intro x admins hcall
      rw [hcall] at hcl
      cases hcl
    · intro x newOwner hcall
      rw [hcall] at hcl
      cases hcl
  have htakeOver : takeOver.KeepsTo {owner, systemProgramId} vault := by
    constructor
    · intro x admins hcall _ hx
      obtain ⟨rfl, -⟩ := Instruction.setVault.inj hcall
      exact absurd hx huser
    · intro x newOwner hcall
      cases hcall
  have hcalls : ∀ c ∈ [redeemFirst, takeOver], c.KeepsTo {owner, systemProgramId} vault := by
    simp only [List.forall_mem_cons, List.not_mem_nil, false_implies, implies_true, and_true]
    exact ⟨hredeem, htakeOver⟩
  have hvault : deployed.vault? vault = some ⟨.vault, 255, owner, systemProgramId, []⟩ := by
    decide +kernel
  have hconfined := (authority_confined runtime_lawful hvault (by simp) (by simp)
    (by simp) (by simp) hcalls).1
  exact huser (hconfined [redeemFirst] takeOver [] user rfl hok rfl).1

end Coin98Vault

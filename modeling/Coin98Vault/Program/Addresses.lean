import Coin98Vault.Program.Lifecycle

/-!
# The strings behind derived addresses

What is hashed to derive the signer of a vault and the address of a new account.  Nothing
separates the seeds, and the path of a vault has any length.  The three families differ in their
first eight bytes, and within a family the bump is the last byte.
-/

namespace Coin98Vault

open Trace

/-- The vault an instruction names. -/
def Instruction.vault : Instruction → Pubkey
  | .createVault x _ => x.vault
  | .setVault x _ => x.vault
  | .createSchedule x _ => x.vault
  | .setScheduleStatus x _ => x.vault
  | .withdrawSol x _ => x.vault
  | .withdrawToken x _ => x.vault
  | .redeemToken x _ => x.vault
  | .redeemTokenMulti x _ => x.vault
  | .transferOwnership x _ => x.vault
  | .acceptOwnership x => x.vault

theorem Instruction.vault_of_claim? {i : Instruction} {cl : Claim} (h : i.claim? = some cl) :
    i.vault = cl.accounts.vault := by
  cases i <;> simp only [Instruction.claim?, reduceCtorEq, Option.some.injEq] at h <;>
    subst h <;> rfl

theorem Instruction.vault_of_payer? {i : Instruction} {x p : Pubkey}
    (h : i.payer? = some (x, p)) : i.vault = x := by
  cases i <;> simp only [Instruction.payer?, reduceCtorEq, Option.some.injEq, Prod.mk.injEq] at h <;>
    exact h.1

/-- The string hashed to derive the signer of a vault. -/
def signerString (rt : Runtime) (b : Bank) (k : Pubkey) : Option Bytes :=
  (b.vault? k).map fun v => rt.derivation (signerSeeds k v)

/-- The strings of the signers that matter to a vault over a run: its own, and those of the
vaults that pay. -/
def signerStrings (rt : Runtime) (vault : Pubkey) (b : Bank) : List Call → List Bytes
  | [] => []
  | c :: calls =>
    (signerString rt b vault).toList ++
      (c.instruction.payer?.bind fun p => signerString rt b p.1).toList ++
      signerStrings rt vault (exec (step rt) b c) calls

/-- The seeds of the account that an instruction creates. -/
def Instruction.createdSeeds? : Instruction → Option (List Bytes)
  | .createVault _ vaultPath => some [vaultSeed1, vaultPath]
  | .createSchedule _ a => some [scheduleSeed1, deriveEventId a.eventId]
  | _ => none

/-- The string hashed to derive the address of a new account. -/
def createdString (rt : Runtime) (i : Instruction) : Option Bytes :=
  i.createdSeeds?.bind fun seeds =>
    (rt.findProgramAddress seeds).map fun r => rt.derivation (seeds ++ [[r.2]])

theorem deriveEventId_injective {e e' : UInt64} (h : deriveEventId e = deriveEventId e') :
    e = e' :=
  Codec.u64.encode_inj rfl rfl h

/-- What the program derives an address for. -/
inductive Derived where
  | vault (vaultPath : Bytes)
  | signer (k : Pubkey)
  | schedule (eventId : UInt64)
  deriving DecidableEq

namespace Derived

/-- The first seed names the family. -/
def family : Derived → Bytes
  | vault _ => vaultSeed1
  | signer _ => signerSeed1
  | schedule _ => scheduleSeed1

def parameter : Derived → Bytes
  | vault vaultPath => vaultPath
  | signer k => k.bytes
  | schedule eventId => deriveEventId eventId

def seeds (d : Derived) : List Bytes := [d.family, d.parameter]

private theorem family_length (d : Derived) : d.family.length = 8 := by
  cases d <;> rfl

private theorem eq_of_family {d d' : Derived} (hfamily : d.family = d'.family)
    (hparameter : d.parameter = d'.parameter) : d = d' := by
  have hvs : vaultSeed1 ≠ signerSeed1 := by decide
  have hvc : vaultSeed1 ≠ scheduleSeed1 := by decide
  have hsc : signerSeed1 ≠ scheduleSeed1 := by decide
  cases d with
  | vault vaultPath =>
    cases d' with
    | vault vaultPath' => exact congrArg vault hparameter
    | signer => exact absurd hfamily hvs
    | schedule => exact absurd hfamily hvc
  | signer k =>
    cases d' with
    | vault => exact absurd hfamily hvs.symm
    | signer k' => exact congrArg signer (Bytes32.bytes_injective hparameter)
    | schedule => exact absurd hfamily hsc
  | schedule eventId =>
    cases d' with
    | vault => exact absurd hfamily hvc.symm
    | signer => exact absurd hfamily hsc.symm
    | schedule eventId' => exact congrArg schedule (deriveEventId_injective hparameter)

end Derived

section
variable {rt : Runtime} {b b' : Bank} {c : Call} {vault k : Pubkey}

theorem mem_signerStrings {calls before after : List Call} {x : Bytes}
    (h : calls = before ++ c :: after)
    (hx : x ∈ (signerString rt (run (step rt) b before) vault).toList ++
      (c.instruction.payer?.bind fun p => signerString rt (run (step rt) b before) p.1).toList) :
    x ∈ signerStrings rt vault b calls := by
  subst h
  induction before generalizing b with
  | nil => exact List.mem_append_left _ hx
  | cons d before ih => exact List.mem_append_right _ (ih hx)

/-- What is hashed is told apart by a first seed of known length and by the bytes of the others. -/
private theorem derivation_cons_inj {x y : Bytes} {seeds seeds' : List Bytes}
    (hlen : x.length = y.length) (h : rt.derivation (x :: seeds) = rt.derivation (y :: seeds')) :
    x = y ∧ seeds.flatten = seeds'.flatten := by
  simp only [Runtime.derivation, List.flatten_cons, List.append_assoc] at h
  obtain ⟨hfirst, hrest⟩ := List.append_inj h hlen
  exact ⟨hfirst, List.append_cancel_right hrest⟩

/-- The strings hashed for two derived addresses are the same only if the addresses are derived
for the same thing and with the same bump. -/
theorem derivation_seeds_inj {d d' : Derived} {bump bump' : UInt8}
    (h : rt.derivation (d.seeds ++ [[bump]]) = rt.derivation (d'.seeds ++ [[bump']])) :
    d = d' ∧ bump = bump' := by
  have hlen : d.family.length = d'.family.length := by
    rw [d.family_length, d'.family_length]
  simp only [Derived.seeds, List.cons_append, List.nil_append] at h
  obtain ⟨hfamily, hrest⟩ := derivation_cons_inj hlen h
  -- only the bump is of known length now, and it comes last
  simp only [List.flatten_cons, List.flatten_nil, List.append_nil] at hrest
  obtain ⟨hparameter, hbump⟩ := List.append_inj' hrest rfl
  exact ⟨Derived.eq_of_family hfamily hparameter, (List.cons.inj hbump).1⟩

/-- The signer's string names its vault. -/
theorem signerSeeds_inj {x y : Pubkey} {v w : Vault}
    (h : rt.derivation (signerSeeds x v) = rt.derivation (signerSeeds y w)) : x = y := by
  have hseeds : rt.derivation ((Derived.signer x).seeds ++ [[v.signerNonce]]) =
      rt.derivation ((Derived.signer y).seeds ++ [[w.signerNonce]]) := h
  exact Derived.signer.inj (derivation_seeds_inj hseeds).1

/-- Strings that start with the seeds of different families differ. -/
theorem derivation_ne {x y : Bytes} {seeds seeds' : List Bytes} (hx : x.length = 8)
    (hy : y.length = 8) (hne : x ≠ y) :
    rt.derivation (x :: seeds) ≠ rt.derivation (y :: seeds') :=
  fun h => hne (derivation_cons_inj (hx.trans hy.symm) h).1

/-- The string of a schedule names its event. -/
theorem scheduleSeeds_inj {e e' : UInt64} {bump bump' : UInt8}
    (h : rt.derivation ([scheduleSeed1, deriveEventId e] ++ [[bump]]) =
      rt.derivation ([scheduleSeed1, deriveEventId e'] ++ [[bump']])) : e = e' := by
  have hseeds : rt.derivation ((Derived.schedule e).seeds ++ [[bump]]) =
      rt.derivation ((Derived.schedule e').seeds ++ [[bump']]) := h
  exact Derived.schedule.inj (derivation_seeds_inj hseeds).1

/-- An account that a step creates lies at the hash of its string. -/
theorem created_address (hrt : rt.Lawful) (h : step rt b c = .ok b') {space : Nat}
    (hc : c.instruction.created? = some (k, space)) :
    ∃ x, createdString rt c.instruction = some x ∧ rt.sha256 x = k ∧ rt.IsDerived k := by
  obtain ⟨w, -, hst⟩ := step_eq_ok hrt h
  have hacc := hst.accepted
  obtain ⟨tx, i⟩ := c
  have hfind {seeds : List Bytes} {bump : UInt8}
      (hf : rt.findProgramAddress seeds = some (k, bump)) :
      rt.sha256 (rt.derivation (seeds ++ [[bump]])) = k ∧ rt.IsDerived k :=
    ⟨(rt.createProgramAddress_eq_some.mp (rt.create_of_find hf)).2, rt.isDerived_of_find hf⟩
  cases hacc with
  | createVault _ _ address =>
    obtain ⟨rfl, -⟩ : _ = k ∧ _ = space := by simpa [Instruction.created?] using hc
    exact ⟨_, by simp [createdString, Instruction.createdSeeds?, address], hfind address⟩
  | createSchedule _ _ _ _ address =>
    obtain ⟨rfl, -⟩ : _ = k ∧ _ = space := by simpa [Instruction.created?] using hc
    exact ⟨_, by simp [createdString, Instruction.createdSeeds?, address], hfind address⟩
  | claim hcl =>
    rw [Instruction.created?_of_claim? hcl] at hc
    cases hc
  | _ => simp [Instruction.created?] at hc

theorem Accepted.payer {w : Option (Pubkey × Value)} {x p : Pubkey}
    (h : Accepted rt c.toTx b c.instruction w) (hp : c.instruction.payer? = some (x, p)) :
    ∃ v, b.vault? x = some v ∧ rt.createProgramAddress (signerSeeds x v) = some p := by
  obtain ⟨tx, i⟩ := c
  cases h with
  | withdrawSol hv _ _ hseeds =>
    obtain ⟨rfl, rfl⟩ : _ = x ∧ _ = p := by simpa [Instruction.payer?] using hp
    exact ⟨_, hv, hseeds⟩
  | withdrawToken hv _ _ hseeds =>
    obtain ⟨rfl, rfl⟩ : _ = x ∧ _ = p := by simpa [Instruction.payer?] using hp
    exact ⟨_, hv, hseeds⟩
  | @claim _ cl v s hcl hadm =>
    rw [Instruction.payer?_of_claim? hcl, Option.some.injEq, Prod.mk.injEq] at hp
    obtain ⟨rfl, rfl⟩ := hp
    exact ⟨v, hadm.vault, hadm.vaultSigner⟩
  | _ => simp [Instruction.payer?] at hp

/-- A call that pays for another vault takes nothing from the signer of this one. -/
theorem signer_keeps (hrt : rt.Lawful) (h : step rt b c = .ok b') {v : Vault} {p : Pubkey}
    (hv : b.vault? vault = some v)
    (hp : rt.createProgramAddress (signerSeeds vault v) = some p) (hsigned : p ∉ c.signers)
    (hsha : CollisionFree rt.sha256 ((signerString rt b vault).toList ++
      (c.instruction.payer?.bind fun q => signerString rt b q.1).toList))
    (hother : ∀ q, c.instruction.payer? ≠ some (vault, q)) : Bank.Keeps (· = p) b b' := by
  obtain ⟨w, -, hst⟩ := step_eq_ok hrt h
  apply hst.keeps.mono
  rintro _ rfl (hs | ⟨x, hx⟩)
  · exact hsigned hs
  · obtain ⟨u, hu, hpu⟩ := hst.accepted.payer hx
    -- two vaults with one signer are one vault
    have hstring : rt.derivation (signerSeeds x u) = rt.derivation (signerSeeds vault v) := by
      refine hsha _ ?_ _ ?_ ?_
      · simp [hx, signerString, hu]
      · simp [signerString, hv]
      · rw [(rt.createProgramAddress_eq_some.mp hpu).2, (rt.createProgramAddress_eq_some.mp hp).2]
    exact hother _ (signerSeeds_inj hstring ▸ hx)

end

end Coin98Vault

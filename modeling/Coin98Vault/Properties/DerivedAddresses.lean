import Coin98Vault.Program.Addresses

/-!
# Derived addresses do not collide

An address is derived for one thing: a vault with its path, the signer of a vault or a schedule
with its event.
-/

namespace Coin98Vault

private theorem address_inj {rt : Runtime} {d d' : Derived} {bump bump' : UInt8} {k : Pubkey}
    (hk : rt.createProgramAddress (d.seeds ++ [[bump]]) = some k)
    (hk' : rt.createProgramAddress (d'.seeds ++ [[bump']]) = some k) :
    (d = d' ∧ bump = bump') ∨
      ∃ x y, x = rt.derivation (d.seeds ++ [[bump]]) ∧
        y = rt.derivation (d'.seeds ++ [[bump']]) ∧ x ≠ y ∧ rt.sha256 x = rt.sha256 y := by
  by_cases heq : rt.derivation (d.seeds ++ [[bump]]) = rt.derivation (d'.seeds ++ [[bump']])
  · exact .inl (derivation_seeds_inj heq)
  · have hhash := (rt.createProgramAddress_eq_some.mp hk).2
    have hhash' := (rt.createProgramAddress_eq_some.mp hk').2
    exact .inr ⟨_, _, rfl, rfl, heq, hhash.trans hhash'.symm⟩

/-- No path makes a vault land on another vault, on a signer or on a schedule: the strings hashed
for any two derived addresses differ, so that equal addresses are a collision of the hash. -/
theorem derived_addresses_distinct (rt : Runtime) (d d' : Derived) (bump bump' : UInt8) :
    (rt.derivation (d.seeds ++ [[bump]]) = rt.derivation (d'.seeds ++ [[bump']]) ↔
      d = d' ∧ bump = bump') ∧
    ∀ k, rt.createProgramAddress (d.seeds ++ [[bump]]) = some k →
      rt.createProgramAddress (d'.seeds ++ [[bump']]) = some k →
      (d = d' ∧ bump = bump') ∨
        ∃ x y, x = rt.derivation (d.seeds ++ [[bump]]) ∧
          y = rt.derivation (d'.seeds ++ [[bump']]) ∧ x ≠ y ∧ rt.sha256 x = rt.sha256 y := by
  constructor
  · constructor
    · exact derivation_seeds_inj
    · intro h
      rw [h.1, h.2]
  · intro k hk hk'
    exact address_inj hk hk'

private theorem createdSeeds_derived {i : Instruction} {seeds : List Bytes}
    (h : i.createdSeeds? = some seeds) : ∃ d : Derived, seeds = d.seeds := by
  cases i with
  | createVault x vaultPath => exact ⟨.vault vaultPath, (Option.some.inj h).symm⟩
  | createSchedule x a => exact ⟨.schedule a.eventId, (Option.some.inj h).symm⟩
  | _ => simp [Instruction.createdSeeds?] at h

/-- The address at which a step creates an account is derived for nothing else. -/
theorem created_derived {rt : Runtime} {b b' : Bank} {c : Call} {k : Pubkey} {space : Nat}
    (hrt : rt.Lawful) (h : step rt b c = .ok b')
    (hc : c.instruction.created? = some (k, space)) :
    ∃ (d : Derived) (bump : UInt8), c.instruction.createdSeeds? = some d.seeds ∧
      rt.createProgramAddress (d.seeds ++ [[bump]]) = some k ∧
      ∀ (d' : Derived) (bump' : UInt8), rt.createProgramAddress (d'.seeds ++ [[bump']]) = some k →
        (d = d' ∧ bump = bump') ∨
          ∃ x y, x = rt.derivation (d.seeds ++ [[bump]]) ∧
            y = rt.derivation (d'.seeds ++ [[bump']]) ∧ x ≠ y ∧ rt.sha256 x = rt.sha256 y := by
  obtain ⟨x, hx, hhash, -⟩ := created_address hrt h hc
  obtain ⟨seeds, hseeds, hfound⟩ := Option.bind_eq_some_iff.mp hx
  obtain ⟨⟨k', bump⟩, hfind, rfl⟩ := Option.map_eq_some_iff.mp hfound
  obtain ⟨d, rfl⟩ := createdSeeds_derived hseeds
  have hk := rt.create_of_find hfind
  obtain rfl : k' = k := (rt.createProgramAddress_eq_some.mp hk).2.symm.trans hhash
  refine ⟨d, bump, hseeds, hk, ?_⟩
  intro d' bump' hk'
  exact address_inj hk hk'

end Coin98Vault

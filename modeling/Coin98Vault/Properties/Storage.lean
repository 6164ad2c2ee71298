import Coin98Vault.Program.Lifecycle
import Coin98Vault.Program.Reference

/-!
# Stored values fit and read back

From a bank without accounts of the program, over any run: every account keeps the size it
was created with and holds the value last written, whatever older bytes lie behind it.
-/

namespace Coin98Vault

open Trace

/-- The bytes of a stored value: discriminator, then Borsh. -/
def Value.image : Value → Bytes
  | .vault v => Vault.layout.image v
  | .schedule s => Schedule.layout.image s

/-- The sizes with which accounts of either kind are created. -/
inductive Value.Reserves : Value → Nat → Prop
  | vault (v : Vault) : Reserves (.vault v) (16 + Vault.size)
  | schedule (s : Schedule) (userCount : UInt16) :
      Reserves (.schedule s) (16 + Schedule.size userCount)

/-- The account a call writes, and the value. -/
def Call.written (rt : Runtime) (b : Bank) (c : Call) : Option (Pubkey × Value) :=
  match handle rt c.toTx b c.instruction with
  | .ok o => o.written
  | .error _ => none

/-- An account with its history: its creation, and the value last written. -/
structure Stored (rt : Runtime) (b : Bank) (calls : List Call) (k : Pubkey) (d : Bytes)
    (val : Value) (space : Nat) : Prop where
  readsBack : (run (step rt) b calls).value? k = some val
  size : d.length = space
  reserved : val.Reserves space
  created : Occurs (step rt) (fun _ c => c.instruction.created? = some (k, space)) b calls
  lastWritten : ∃ before c,
    Latest (step rt) (fun b c => ∃ val, c.written rt b = some (k, val)) b calls before c ∧
      c.written rt (run (step rt) b before) = some (k, val)

theorem Value.image_length_le {b : Bank} {k : Pubkey} {val : Value} {d : Bytes}
    (hk : (b k).content = .program d) (h : b.value? k = some val) : val.image.length ≤ d.length := by
  cases val with
  | vault v =>
    rw [Bank.value?_eq_vault, Bank.vault?, Bank.read, hk] at h
    exact Layout.image_length_le h
  | schedule s =>
    rw [Bank.value?_eq_schedule, Bank.schedule?, Bank.read, hk] at h
    exact Layout.image_length_le h

/-- The space of a vault holds sixteen admins, and the spare bytes no further one. -/
theorem Vault.image_fits_iff (v : Vault) :
    (Vault.layout.image v).length ≤ 16 + Vault.size ↔ v.admins.length ≤ 16 := by
  rw [Vault.image_length, Vault.size]
  omega

theorem CreateScheduleArgs.image_fits (a : CreateScheduleArgs) (vault : Pubkey) (bump : UInt8) :
    (Schedule.layout.image (a.schedule vault bump)).length ≤ 16 + Schedule.size a.userCount := by
  have hroot : (a.schedule vault bump).merkleRoot.length = 32 := a.merkleRoot.length_bytes
  have hbits : (a.schedule vault bump).redemptions.length = a.userCount.toNat :=
    List.length_replicate
  rw [Schedule.image_length, hroot, hbits, Schedule.size]
  omega

section
variable {rt : Runtime} {b b' : Bank} {c : Call} {k : Pubkey}

private theorem Accepted.reserves {w : Option (Pubkey × Value)} {val : Value} {space : Nat}
    (h : Accepted rt c.toTx b c.instruction w) (hw : w = some (k, val))
    (hc : c.instruction.created? = some (k, space)) : val.Reserves space := by
  obtain ⟨tx, i⟩ := c
  subst hw
  cases h with
  | createVault =>
    obtain rfl : _ = space := by simpa [Instruction.created?] using hc
    exact .vault _
  | createSchedule =>
    obtain rfl : _ = space := by simpa [Instruction.created?] using hc
    exact .schedule _ _
  | claim hcl =>
    rw [Instruction.created?_of_claim? hcl] at hc
    cases hc
  | _ => simp [Instruction.created?] at hc

private theorem reserves_of_step (hrt : rt.Lawful) {val val' : Value} {space : Nat}
    (h : step rt b c = .ok b') (hv : b.value? k = some val) (hv' : b'.value? k = some val')
    (hr : val.Reserves space) :
    val'.Reserves space := by
  cases hr with
  | vault v =>
    obtain ⟨v', hnew, -⟩ := vault_step hrt h (Bank.value?_eq_vault.mp hv)
    rw [← Bank.value?_eq_vault, hv'] at hnew
    obtain rfl := Option.some.inj hnew
    exact .vault v'
  | schedule s userCount =>
    obtain ⟨s', hnew, -⟩ := schedule_step hrt h (Bank.value?_eq_schedule.mp hv)
    rw [← Bank.value?_eq_schedule, hv'] at hnew
    obtain rfl := Option.some.inj hnew
    exact .schedule s' userCount

private theorem written_of_handle {w : Option (Pubkey × Value)} {bank : Bank}
    (h : handle rt c.toTx b c.instruction = .ok ⟨bank, w⟩) : c.written rt b = w := by
  rw [Call.written, h]

/-- A call that writes elsewhere, or fails, leaves the account and its history. -/
theorem Stored.concat_other {calls : List Call} {d : Bytes} {val : Value} {space : Nat}
    (h : Stored rt b calls k d val space)
    (hsame : (run (step rt) b (calls ++ [c])).value? k = (run (step rt) b calls).value? k)
    (hother : ¬ (Succeeds (step rt) (run (step rt) b calls) c ∧
      ∃ val, c.written rt (run (step rt) b calls) = some (k, val))) :
    Stored rt b (calls ++ [c]) k d val space := by
  obtain ⟨before, last, hlast, hval⟩ := h.lastWritten
  refine ⟨hsame.trans h.readsBack, h.size, h.reserved, ?_, before, last,
    hlast.concat_old hother, hval⟩
  rw [occurs_concat]
  exact .inl h.created

/-- A call that writes the account gives it the new value within the old size. -/
private theorem Stored.concat_written (hrt : rt.Lawful) {calls : List Call} {d' : Bytes}
    {val : Value} (hold : ∀ d, (run (step rt) b calls k).content = .program d →
      ∃ val space, Stored rt b calls k d val space)
    (hok : step rt (run (step rt) b calls) c = .ok b')
    (hw : c.written rt (run (step rt) b calls) = some (k, val))
    (hst : Stepped rt (run (step rt) b calls) c b' (some (k, val)))
    (hk : (b' k).content = .program d') : ∃ val space, Stored rt b (calls ++ [c]) k d' val space := by
  have hrun : run (step rt) b (calls ++ [c]) = b' := by rw [run_concat, exec_ok hok]
  have hs : Succeeds (step rt) (run (step rt) b calls) c := ⟨b', hok⟩
  obtain ⟨d, d'', hdata, hwrite, hk'⟩ := hst.stored k val rfl
  obtain rfl : d' = d'' := by
    rw [hk] at hk'
    exact Content.program.inj hk'
  have hval := Value.value?_of_write hwrite hk
  have hlast : ∃ before last, Latest (step rt) (fun b c => ∃ val, c.written rt b = some (k, val)) b
      (calls ++ [c]) before last ∧ last.written rt (run (step rt) b before) = some (k, val) :=
    ⟨calls, c, .concat_new hs ⟨val, hw⟩, hw⟩
  rcases hcr : c.instruction.created? with _ | ⟨x, space⟩
  · simp only [Call.dataOf, hcr, Bank.data?_eq_some] at hdata
    obtain ⟨old, space, hstored⟩ := hold d hdata
    refine ⟨val, space, by rw [hrun]; exact hval, ?_, ?_, ?_, hlast⟩
    · rw [Value.length_of_write hwrite, hstored.size]
    · exact reserves_of_step hrt hok hstored.readsBack hval hstored.reserved
    · rw [occurs_concat]
      exact .inl hstored.created
  · obtain ⟨-, val', hx⟩ := hst.accepted.created hcr
    obtain ⟨rfl, rfl⟩ : k = x ∧ val = val' := by simpa using hx
    simp only [Call.dataOf, hcr, if_true, Option.some.injEq] at hdata
    refine ⟨val, space, by rw [hrun]; exact hval, ?_, hst.accepted.reserves rfl hcr, ?_, hlast⟩
    · rw [Value.length_of_write hwrite, ← hdata, List.length_replicate]
    · rw [occurs_concat]
      exact .inr ⟨hs, hcr⟩

/-- Every account of the program in a run from a bank without any has its history. -/
theorem stored_run (hrt : rt.Lawful) (hempty : ∀ k d, (b k).content ≠ .program d)
    (calls : List Call) {d : Bytes} (hk : (run (step rt) b calls k).content = .program d) :
    ∃ val space, Stored rt b calls k d val space := by
  refine run_induction (P := fun calls b' => b' = run (step rt) b calls → ∀ d,
    (b' k).content = .program d → ∃ val space, Stored rt b calls k d val space)
    b calls ?_ ?_ ?_ rfl d hk
  · exact fun _ d hk => absurd hk (hempty k d)
  · intro before c _ b' _ ih hok hrun d hk
    obtain ⟨w, ⟨bank, hh⟩, hst⟩ := step_eq_ok hrt hok
    have hw := written_of_handle hh
    by_cases hwk : ∃ val, w = some (k, val)
    · obtain ⟨val, rfl⟩ := hwk
      exact Stored.concat_written hrt (ih rfl) hok hw hst hk
    · rw [not_exists] at hwk
      have hev := hst.others k hwk
      have hsame : (run (step rt) b before k).content = .program d := by
        generalize (run (step rt) b before k).content = content at hev
        rw [hk] at hev
        cases hev
        rfl
      obtain ⟨val, space, hstored⟩ := ih rfl d hsame
      refine ⟨val, space, hstored.concat_other ?_ ?_⟩
      · rw [← hrun]
        exact Bank.value?_of_evolves hev
      · rintro ⟨-, val, hval⟩
        exact hwk val (hw.symm.trans hval)
  · intro before c e ih herr hrun d hk
    obtain ⟨val, space, hstored⟩ := ih rfl d hk
    refine ⟨val, space, hstored.concat_other (by rw [← hrun]) ?_⟩
    exact fun h => not_succeeds_of_error herr h.1

theorem Bank.data_of_vault? {v : Vault} (h : b.vault? k = some v) :
    ∃ d, (b k).content = .program d :=
  Bank.data_of_read h

private theorem setVault_succeeds_iff {x : SetVaultContext} {admins : List Pubkey} {v : Vault}
    {d : Bytes} (hc : c.instruction = .setVault x admins) (hv : b.vault? x.vault = some v)
    (hd : (b x.vault).content = .program d) (hsize : d.length = 16 + Vault.size)
    (howner : x.owner = v.owner) (hsigned : x.owner ∈ c.signers) (hw : x.vault ∈ c.writable) :
    Succeeds (step rt) b c ↔ admins.length ≤ 16 := by
  have hfits : (∃ d', Vault.layout.write { v with admins } d = some d') ↔ admins.length ≤ 16 := by
    simp only [Layout.write_eq_some, exists_and_left, exists_eq, and_true]
    rw [hsize, Vault.image_fits_iff, show Vault.layout.codec = Vault.codec from rfl,
      Vault.codec_valid]
    dsimp only
    omega
  rw [← hfits]
  constructor
  · rintro ⟨b', h⟩
    obtain ⟨o, hh, hexit⟩ := step_eq_ok_iff.mp h
    rw [hc] at hh
    obtain ⟨v', hv', -, -, -, rfl⟩ := setVault_eq_ok.mp hh
    obtain rfl := Option.some.inj (hv.symm.trans hv')
    obtain ⟨d₀, d', hd₀, hwrite, -⟩ := exit_some.mp hexit
    rw [hd] at hd₀
    cases hd₀
    exact ⟨d', hwrite⟩
  · rintro ⟨d', hwrite⟩
    have hexit : exit ⟨b, some (x.vault, .vault { v with admins })⟩ =
        .ok (b.setContent x.vault (.program d')) := exit_some.mpr ⟨d, d', hd, hwrite, rfl⟩
    refine ⟨_, step_eq_ok_iff.mpr ⟨_, ?_, hexit⟩⟩
    rw [hc]
    exact setVault_eq_ok.mpr ⟨v, hv, hsigned, hw, howner, rfl⟩

end

/-- The space of a schedule holds the schedule for every user count, and that of a vault just the
lists of at most 16 admins.  After any run from a bank without accounts of the program, every
account of it fits in the space it was created with and reads back the value last written; and the
owner can store any admin list of at most 16 keys and no longer one. -/
theorem storage_reads_back {rt : Runtime} (hrt : rt.Lawful) {b : Bank}
    (hempty : ∀ k d, (b k).content ≠ .program d) (calls : List Call) :
    (∀ (a : CreateScheduleArgs) vault bump,
      (Value.schedule (a.schedule vault bump)).image.length ≤ 16 + Schedule.size a.userCount) ∧
    (∀ v, (Value.vault v).image.length ≤ 16 + Vault.size ↔ v.admins.length ≤ 16) ∧
    (∀ k d, (run (step rt) b calls k).content = .program d →
      ∃ val space, Stored rt b calls k d val space ∧ val.image.length ≤ space) ∧
    (∀ c x admins v, c.instruction = .setVault x admins →
      (run (step rt) b calls).vault? x.vault = some v → x.owner = v.owner →
      x.owner ∈ c.signers → x.vault ∈ c.writable →
      (¬ Succeeds (step rt) (run (step rt) b calls) c ↔ 16 < admins.length) ∧
      (16 < admins.length → (run (step rt) b (calls ++ [c])).vault? x.vault = some v)) := by
  refine ⟨CreateScheduleArgs.image_fits, Vault.image_fits_iff, fun k d hk => ?_,
    fun c x admins v hc hv howner hsigned hw => ?_⟩
  · obtain ⟨val, space, hstored⟩ := stored_run hrt hempty calls hk
    refine ⟨val, space, hstored, ?_⟩
    rw [← hstored.size]
    exact Value.image_length_le hk hstored.readsBack
  · obtain ⟨d, hd⟩ := Bank.data_of_vault? hv
    obtain ⟨val, space, hstored⟩ := stored_run hrt hempty calls hd
    obtain rfl : val = .vault v :=
      Option.some.inj (hstored.readsBack.symm.trans (Bank.value?_eq_vault.mpr hv))
    have hsize : d.length = 16 + Vault.size := by
      rw [hstored.size]
      cases hstored.reserved
      rfl
    have hiff : Succeeds (step rt) (run (step rt) b calls) c ↔ admins.length ≤ 16 :=
      setVault_succeeds_iff hc hv hd hsize howner hsigned hw
    refine ⟨by rw [hiff, not_le], fun hlong => ?_⟩
    cases hok : step rt (run (step rt) b calls) c with
    | ok b' => exact absurd (hiff.mp ⟨b', hok⟩) (not_le.mpr hlong)
    | error e => rw [run_concat, exec_error hok, hv]

open Reference in
theorem storage_reads_back_deployed :
    let calls := [openVault, openSchedule, setAdmins [user, otherUser], setAdmins [user],
      redeemFirst]
    (∀ k ∈ [vault, schedule], ∃ d val space,
      Stored runtime genesis calls k d val space ∧ val.image.length ≤ space) ∧
      ¬ Succeeds (step runtime) (run (step runtime) genesis calls)
        (setAdmins (List.replicate 17 user)) := by
  intro calls
  obtain ⟨-, -, hstored, hset⟩ := storage_reads_back runtime_lawful genesis_unused calls
  have howner : ((run (step runtime) genesis calls).vault? vault).map Vault.owner = some owner := by
    decide +kernel
  obtain ⟨v, hv, hvo⟩ := Option.map_eq_some_iff.mp howner
  refine ⟨?_, ((hset (setAdmins (List.replicate 17 user)) ⟨owner, vault⟩ _ v rfl hv hvo.symm ?_
    ?_).1).mpr (by decide)⟩
  · have hdata : ∀ k ∈ [vault, schedule], ∃ d, (run (step runtime) genesis calls k).content =
        .program d := by
      have h : ∀ k ∈ [vault, schedule], ((run (step runtime) genesis calls).data? k).isSome := by
        decide +kernel
      intro k hk
      obtain ⟨d, hd⟩ := Option.isSome_iff_exists.mp (h k hk)
      exact ⟨d, Bank.data?_eq_some.mp hd⟩
    intro k hk
    obtain ⟨d, hd⟩ := hdata k hk
    exact ⟨d, hstored k d hd⟩
  · simp [setAdmins]
  · simp [setAdmins]

end Coin98Vault

import Coin98Vault.Properties.Allocation
import Coin98Vault.Properties.ClientActions
import Coin98Vault.Properties.Privileges

/-!
# Decisions sent with the client

The client's requests to set the admins of a vault, its nominee and owner, and the status of a
schedule.
-/

namespace Coin98Vault

section
variable {rt : Runtime} {b b' : Bank} {k : Pubkey}

/-- One account of the program holds a new value, and nothing else has changed. -/
structure Bank.Updated (b : Bank) (k : Pubkey) (val : Value) (b' : Bank) : Prop where
  value : b'.value? k = some val
  lamports : (b' k).lamports = (b k).lamports
  others : ∀ x, x ≠ k → b' x = b x

private theorem exit_updated {val : Value} (h : exit ⟨b, some (k, val)⟩ = .ok b') :
    b.Updated k val b' := by
  obtain ⟨d, d', -, hwrite, rfl⟩ := exit_some.mp h
  exact ⟨Value.value?_of_write hwrite (Bank.setContent_content_self _ _ _),
    Bank.setContent_lamports _ _ _ _, fun x hx => Bank.setContent_of_ne _ _ hx⟩

private theorem exit_vault_iff (hb : ∀ k d, (b k).content = .program d → b.Allocated rt k d)
    {v v' : Vault} (hv : b.vault? k = some v) :
    (∃ b', exit ⟨b, some (k, .vault v')⟩ = .ok b') ↔ v'.admins.length ≤ 16 := by
  obtain ⟨d, hd⟩ := Bank.data_of_vault? hv
  have hsize : d.length = 16 + Vault.size := (hb k d hd).vault_size hv
  constructor
  · intro h
    obtain ⟨b', h⟩ := h
    obtain ⟨d₁, d', hd₁, hwrite, -⟩ := exit_some.mp h
    obtain rfl := Content.program.inj (hd.symm.trans hd₁)
    obtain ⟨-, hfit, -⟩ := Layout.write_eq_some.mp hwrite
    rw [hsize] at hfit
    exact v'.image_fits_iff.mp hfit
  · intro hle
    have hwrite : ∃ d', (Value.vault v').write d = some d' := by
      refine ⟨_, Layout.write_eq_some.mpr ⟨(Vault.codec_valid v').mpr (by omega), ?_, rfl⟩⟩
      rw [hsize]
      exact v'.image_fits_iff.mpr hle
    obtain ⟨d', hd'⟩ := hwrite
    exact ⟨_, exit_some.mpr ⟨d, d', hd, hd', rfl⟩⟩

private theorem exit_status {s : Schedule} (hs : b.schedule? k = some s) (isActive : Bool) :
    ∃ b', exit ⟨b, some (k, .schedule { s with isActive })⟩ = .ok b' := by
  obtain ⟨d, hd⟩ := Bank.data_of_read hs
  have hread : Schedule.layout.read d = some s := by
    simpa [Bank.schedule?, Bank.read, hd] using hs
  have hvalid := (Schedule.codec_valid s).mp (Layout.read_eq_some.mp hread).1
  have hwrite : ∃ d', (Value.schedule { s with isActive }).write d = some d' := by
    apply Layout.write_of_read hread
    · exact (Schedule.codec_valid _).mpr hvalid
    · show (Schedule.codec.encode _).length ≤ (Schedule.codec.encode _).length
      rw [Schedule.encode_length, Schedule.encode_length]
  obtain ⟨d', hd'⟩ := hwrite
  exact ⟨_, exit_some.mpr ⟨d, d', hd, hd', rfl⟩⟩

end

namespace Client

open Trace

/-- What those in office decide. -/
inductive Decision where
  | setVault (vault : Pubkey) (members : List Pubkey)
  | setScheduleStatus (vault schedule : Pubkey) (isActive : Bool)
  | transferOwnership (vault newOwner : Pubkey)
  | acceptOwnership (vault : Pubkey)

namespace Decision

def send (rt : Runtime) (packages : Packages) (b : Bank) (payer : Pubkey) (unixTimestamp : Int64)
    (d : Decision) : Option Bank :=
  (match d with
    | setVault vault members => VaultService.setVault packages payer vault members rt.programId
    | setScheduleStatus vault schedule isActive =>
      VaultService.setScheduleStatus packages payer vault schedule isActive rt.programId
    | transferOwnership vault newOwner =>
      VaultService.transferOwnership packages payer newOwner vault rt.programId
    | acceptOwnership vault => VaultService.acceptOwnership packages payer vault rt.programId).bind
    (deliver rt b payer unixTimestamp)

/-- What is written where, if the payer is in office. -/
def written (b : Bank) (payer : Pubkey) : Decision → Option (Pubkey × Value)
  | setVault vault members => do
    let v ← b.vault? vault
    if payer = v.owner then some (vault, .vault { v with admins := members }) else none
  | setScheduleStatus vault schedule isActive => do
    let v ← b.vault? vault
    let s ← b.schedule? schedule
    if s.vaultId = vault ∧ (payer = v.owner ∨ payer ∈ v.admins) then
      some (schedule, .schedule { s with isActive })
    else none
  | transferOwnership vault newOwner => do
    let v ← b.vault? vault
    if payer = v.owner then some (vault, .vault { v with newOwner }) else none
  | acceptOwnership vault => do
    let v ← b.vault? vault
    if payer = v.newOwner then
      some (vault, .vault { v with owner := v.newOwner, newOwner := systemProgramId })
    else none

def Fits : Decision → Prop
  | setVault _ members => members.length ≤ 16
  | _ => True

def request (payer : Pubkey) : Decision → Request
  | setVault vault members => .setVault payer vault members
  | setScheduleStatus vault schedule isActive => .setScheduleStatus payer vault schedule isActive
  | transferOwnership vault newOwner => .transferOwnership payer vault newOwner
  | acceptOwnership vault => .acceptOwnership payer vault

end Decision

section
variable {rt : Runtime} {packages : Packages} {b b' : Bank} {payer : Pubkey}
  {unixTimestamp : Int64}

private theorem Request.sent_eq_some (hp : packages.Lawful rt) {r : Request} :
    (r.build packages rt.programId).bind (deliver rt b payer unixTimestamp) = some b' ↔
      r.Fits ∧ ∃ o, handle rt (r.call rt payer unixTimestamp).toTx b r.instruction = .ok o ∧
        exit o = .ok b' := by
  by_cases hfits : r.Fits
  · rw [Request.send_eq_some hp hfits, step_eq_ok_iff, and_iff_right hfits]
    rfl
  · rw [Request.build_eq_none hp hfits]
    simp [hfits]

theorem Decision.send_eq (d : Decision) : d.send rt packages b payer unixTimestamp =
    ((d.request payer).build packages rt.programId).bind
      (deliver rt b payer unixTimestamp) := by
  cases d <;> rfl

theorem Decision.handle_eq_ok (hwf : b.WellFormed rt) {d : Decision} {o : Outcome} :
    handle rt ((d.request payer).call rt payer unixTimestamp).toTx b (d.request payer).instruction =
        .ok o ↔
      rt.CanWrite (d.request payer).instruction.writes ∧
        ∃ w, d.written b payer = some w ∧ o = ⟨b, some w⟩ := by
  cases d with
  | setVault vault members =>
    refine setVault_eq_ok.trans ?_
    cases hkey : rt.reserved vault <;> simp [Decision.request, Request.call, Request.signer,
      Request.writes, Request.instruction, Instruction.writes, Runtime.CanWrite, hkey,
      Decision.written, Option.bind_eq_some_iff, and_assoc]
  | setScheduleStatus vault schedule isActive =>
    refine setScheduleStatus_eq_ok.trans ?_
    have haddress {s : Schedule} (hs : b.schedule? schedule = some s) : rt.createProgramAddress
        [scheduleSeed1, deriveEventId s.eventId, [s.nonce]] = some schedule :=
      rt.create_of_find (hwf.address schedule s hs)
    have hwritable := Request.call_canWrite rt payer
      (.setScheduleStatus payer vault schedule isActive) unixTimestamp
    simp only [Request.writes, List.forall_mem_cons, List.not_mem_nil, false_implies, implies_true,
      and_true] at hwritable
    simp only [Decision.written, Option.bind_eq_bind, Option.bind_eq_some_iff,
      Option.ite_none_right_eq_some, Option.some.injEq]
    constructor
    · intro h
      obtain ⟨v, s, hv, hs, -, hpayer, hschedule, -, hlink, hadmin, rfl⟩ := h
      exact ⟨hwritable.mp ⟨hpayer, hschedule⟩, _, ⟨v, hv, s, hs, ⟨hlink, hadmin⟩, rfl⟩, rfl⟩
    · intro h
      obtain ⟨hkeys, w, ⟨v, hv, s, hs, ⟨hlink, hadmin⟩, rfl⟩, rfl⟩ := h
      obtain ⟨hpayer, hschedule⟩ := hwritable.mpr hkeys
      exact ⟨v, s, hv, hs, List.mem_cons_self, hpayer, hschedule, haddress hs, hlink, hadmin, rfl⟩
  | transferOwnership vault newOwner =>
    refine transferOwnership_eq_ok.trans ?_
    cases hkey : rt.reserved vault <;> simp [Decision.request, Request.call, Request.signer,
      Request.writes, Request.instruction, Instruction.writes, Runtime.CanWrite, hkey,
      Decision.written, Option.bind_eq_some_iff, and_assoc]
  | acceptOwnership vault =>
    refine acceptOwnership_eq_ok.trans ?_
    cases hkey : rt.reserved vault <;> simp [Decision.request, Request.call, Request.signer,
      Request.writes, Request.instruction, Instruction.writes, Runtime.CanWrite, hkey,
      Decision.written, Option.bind_eq_some_iff, and_assoc]

private theorem Decision.exit_iff (hb : ∀ k d, (b k).content = .program d → b.Allocated rt k d)
    {d : Decision} {w : Pubkey × Value} (h : d.written b payer = some w) :
    (∃ b', exit ⟨b, some w⟩ = .ok b') ↔ d.Fits := by
  -- a vault has room for the admins that it has
  have hkeeps {vault : Pubkey} {v v' : Vault} (hv : b.vault? vault = some v)
      (hsame : v'.admins = v.admins) : ∃ b', exit ⟨b, some (vault, .vault v')⟩ = .ok b' := by
    obtain ⟨data, hdata⟩ := Bank.data_of_vault? hv
    rw [exit_vault_iff hb hv, hsame]
    exact (hb vault data hdata).admins_le hdata hv
  cases d with
  | setVault vault members =>
    obtain ⟨v, hv, h⟩ := Option.bind_eq_some_iff.mp h
    obtain ⟨-, rfl⟩ : _ ∧ _ = w := by simpa using h
    exact exit_vault_iff hb hv
  | setScheduleStatus vault schedule isActive =>
    obtain ⟨v, -, h⟩ := Option.bind_eq_some_iff.mp h
    obtain ⟨s, hs, h⟩ := Option.bind_eq_some_iff.mp h
    obtain ⟨-, rfl⟩ : _ ∧ _ = w := by simpa using h
    exact iff_of_true (exit_status hs isActive) trivial
  | transferOwnership vault newOwner =>
    obtain ⟨v, hv, h⟩ := Option.bind_eq_some_iff.mp h
    obtain ⟨-, rfl⟩ : _ ∧ _ = w := by simpa using h
    exact iff_of_true (hkeeps hv rfl) trivial
  | acceptOwnership vault =>
    obtain ⟨v, hv, h⟩ := Option.bind_eq_some_iff.mp h
    obtain ⟨-, rfl⟩ : _ ∧ _ = w := by simpa using h
    exact iff_of_true (hkeeps hv rfl) trivial

private theorem Decision.request_fits {d : Decision} (h : d.Fits) : (d.request payer).Fits := by
  cases d with
  | setVault vault members =>
    have hle : members.length ≤ 16 := h
    show members.length ≤ 31
    omega
  | _ => trivial

end

/-- After any run, the program accepts a decision that the client sends if and only if its payer is
in office, a list of admins has a place in the vault, and no key that it writes is reserved.  It
then writes one value, and leaves all other accounts and all balances as they are. -/
theorem decision_succeeds_iff {rt : Runtime} (hrt : rt.Lawful) {packages : Packages}
    (hp : packages.Lawful rt) {b₀ : Bank} (hempty : ∀ k d, (b₀ k).content ≠ .program d)
    (calls : List Call) (d : Decision) (payer : Pubkey) (unixTimestamp : Int64) :
    let b := run (step rt) b₀ calls
    ((∃ b', d.send rt packages b payer unixTimestamp = some b') ↔
      d.Fits ∧ (d.written b payer).isSome ∧
        rt.CanWrite (d.request payer).instruction.writes) ∧
    ∀ b', d.send rt packages b payer unixTimestamp = some b' →
      ∃ k val, d.written b payer = some (k, val) ∧ b.Updated k val b' := by
  intro b
  have hwf : b.WellFormed rt := wellFormed_run hrt (wellFormed_of_unused hempty) calls
  have hb : ∀ k d, (b k).content = .program d → b.Allocated rt k d :=
    allocated_run hrt (fun k d hk => absurd hk (hempty k d)) calls
  have hsend (b' : Bank) : d.send rt packages b payer unixTimestamp = some b' ↔
      rt.CanWrite (d.request payer).instruction.writes ∧
        ∃ w, d.written b payer = some w ∧ exit ⟨b, some w⟩ = .ok b' := by
    rw [Decision.send_eq, Request.sent_eq_some hp]
    constructor
    · intro h
      obtain ⟨-, o, hok, hexit⟩ := h
      obtain ⟨hkeys, w, hw, rfl⟩ := (Decision.handle_eq_ok hwf).mp hok
      exact ⟨hkeys, w, hw, hexit⟩
    · intro h
      obtain ⟨hkeys, w, hw, hexit⟩ := h
      have hfits : d.Fits := (Decision.exit_iff hb hw).mp ⟨b', hexit⟩
      exact ⟨Decision.request_fits hfits, _,
        (Decision.handle_eq_ok hwf).mpr ⟨hkeys, w, hw, rfl⟩, hexit⟩
  constructor
  · constructor
    · intro h
      obtain ⟨b', h⟩ := h
      obtain ⟨hkeys, w, hw, hexit⟩ := (hsend b').mp h
      exact ⟨(Decision.exit_iff hb hw).mp ⟨b', hexit⟩, Option.isSome_of_eq_some hw, hkeys⟩
    · intro h
      obtain ⟨hfits, hsome, hkeys⟩ := h
      obtain ⟨w, hw⟩ := Option.isSome_iff_exists.mp hsome
      obtain ⟨b', hexit⟩ := (Decision.exit_iff hb hw).mpr hfits
      exact ⟨b', (hsend b').mpr ⟨hkeys, w, hw, hexit⟩⟩
  · intro b' h
    obtain ⟨-, w, hw, hexit⟩ := (hsend b').mp h
    exact ⟨w.1, w.2, hw, exit_updated hexit⟩

open Reference in
theorem decision_succeeds_iff_deployed :
    let b := run (step runtime) genesis [openVault, openSchedule]
    ∃ b', (Decision.setVault vault [user]).send runtime packages b owner 6 = some b' ∧
      b'.value? vault = some (.vault ⟨.vault, 255, owner, systemProgramId, [user]⟩) ∧
      (Decision.setVault vault [user]).send runtime packages b user 6 = none := by
  intro b
  have hiff := decision_succeeds_iff runtime_lawful packages_lawful genesis_unused
    [openVault, openSchedule] (.setVault vault [user])
  have hvault : b.vault? vault = some ⟨.vault, 255, owner, systemProgramId, []⟩ := by
    decide +kernel
  have hwritten (payer : Pubkey) : (Decision.setVault vault [user]).written b payer =
      if payer = owner then some (vault, .vault ⟨.vault, 255, owner, systemProgramId, [user]⟩)
      else none := by
    simp only [Decision.written, hvault]
    rfl
  have howner := hwritten owner
  rw [if_pos rfl] at howner
  obtain ⟨b', hb'⟩ := (hiff owner 6).1.mpr
    ⟨show 1 ≤ 16 by decide, by rw [howner]; rfl, by decide +kernel⟩
  obtain ⟨k, val, hkval, hupdated⟩ := (hiff owner 6).2 b' hb'
  obtain ⟨rfl, rfl⟩ := Prod.mk.inj (Option.some.inj (howner.symm.trans hkval))
  refine ⟨b', hb', hupdated.value, ?_⟩
  have huser := hwritten user
  rw [if_neg (by decide +kernel)] at huser
  rw [Option.eq_none_iff_forall_not_mem]
  intro b'' hb''
  have hsome := ((hiff user 6).1.mp ⟨b'', hb''⟩).2.1
  rw [huser] at hsome
  cases hsome

end Client

end Coin98Vault

import Coin98Vault.Properties.Storage
import Coin98Vault.Services.Reference

/-!
# What the client reads is what the program wrote

The client decodes accounts by the interface description.  Over any run, what it gets of an
account is the value that the last successful call wrote there.
-/

namespace Coin98Vault.Client

open Trace

/-- A vault as the client sees it. -/
def vaultInfo (v : Vault) (signer : Pubkey) : Object :=
  ("signer", .publicKey signer) :: Vault.idl.object v.data

def scheduleInfo (s : Schedule) (signer : Pubkey) : Object :=
  ("signer", .publicKey signer) :: Schedule.idl.object s.data

section
variable {rt : Runtime} {packages : Packages} {connection : Connection} {b : Bank} {k p : Pubkey}

@[simp] theorem vaultInfo_signer (v : Vault) : publicKeyOf (vaultInfo v p) "signer" = some p := rfl

@[simp] theorem scheduleInfo_receivingTokenAccount (s : Schedule) :
    publicKeyOf (scheduleInfo s p) "receivingTokenAccount" = some s.receivingTokenAccount := rfl

@[simp] theorem scheduleInfo_sendingTokenAccount (s : Schedule) :
    publicKeyOf (scheduleInfo s p) "sendingTokenAccount" = some s.sendingTokenAccount := rfl

private theorem Packages.Decodes.eq_read {α : Type} {name : String} {l : Layout α} {fields : Fields}
    {data : α → List Datum} (h : packages.Decodes name l fields)
    (hviews : l.codec.Views fields.codec data) (d : Bytes) :
    packages.decode name d = (l.read d).map fun a => fields.object (data a) := by
  rw [h d, Layout.read]
  split
  · rw [hviews.decode, Option.map_map, Option.map_map]
    rfl
  · rfl

theorem getVaultAccountInfo_eq (hp : packages.Lawful rt) (hc : connection.Lawful rt) {d : Bytes}
    (hk : (b k).content = .program d) :
    VaultService.getVaultAccountInfo rt packages connection b k =
      (b.vault? k).bind fun v => (rt.findProgramAddress [signerSeed1, k.bytes]).map fun r =>
        vaultInfo v r.1 := by
  have hread : b.vault? k = Vault.layout.read d := by simp only [Bank.vault?, Bank.read, hk]
  have hdecode := hp.decodeVault.eq_read Vault.idl_views d
  simp only [VaultService.getVaultAccountInfo, hc b k d hk,
    VaultInstructionService.decodeVaultData, VaultInstructionService.findVaultSignerAddress,
    VaultInstructionService.findProgramAddressSync, hdecode, hp.signer, hread, Option.bind_eq_bind,
    Option.bind_some, Option.bind_map, Option.pure_def]
  congr 1
  funext v
  rw [Option.map_eq_bind]
  rfl

theorem getScheduleAccountInfo_eq (hp : packages.Lawful rt) (hc : connection.Lawful rt) {d : Bytes}
    (hk : (b k).content = .program d) :
    VaultService.getScheduleAccountInfo rt packages connection b k =
      (b.schedule? k).bind fun s =>
        (VaultInstructionService.findRootSignerAddress rt packages rt.programId).map fun r =>
          scheduleInfo s r.1 := by
  have hread : b.schedule? k = Schedule.layout.read d := by
    simp only [Bank.schedule?, Bank.read, hk]
  have hdecode := hp.decodeSchedule.eq_read Schedule.idl_views d
  simp only [VaultService.getScheduleAccountInfo, hc b k d hk,
    VaultInstructionService.decodeScheduleData, hdecode, hread, Option.bind_eq_bind,
    Option.bind_some, Option.bind_map, Option.pure_def]
  congr 1
  funext s
  rw [Option.map_eq_bind]
  rfl

/-- What the client gets of an account that holds a value. -/
def Reads (rt : Runtime) (packages : Packages) (connection : Connection) (b : Bank) (k : Pubkey) :
    Value → Prop
  | .vault v => (∃ p, rt.createProgramAddress (signerSeeds k v) = some p ∧
      VaultService.getVaultAccountInfo rt packages connection b k = some (vaultInfo v p)) ∧
    VaultService.getScheduleAccountInfo rt packages connection b k = none
  | .schedule s => VaultService.getVaultAccountInfo rt packages connection b k = none ∧
    VaultService.getScheduleAccountInfo rt packages connection b k =
      (VaultInstructionService.findRootSignerAddress rt packages rt.programId).map fun r =>
        scheduleInfo s r.1

theorem reads_value (hp : packages.Lawful rt) (hc : connection.Lawful rt) (hb : b.WellFormed rt)
    {d : Bytes} (hk : (b k).content = .program d) {val : Value} (hval : b.value? k = some val) :
    Reads rt packages connection b k val := by
  cases val with
  | vault v =>
    have hv := Bank.value?_eq_vault.mp hval
    obtain ⟨p, hfind⟩ := hb.signerNonce k v hv
    refine ⟨⟨p, rt.create_of_find hfind, ?_⟩, ?_⟩
    · rw [getVaultAccountInfo_eq hp hc hk, hv, Option.bind_some, hfind]
      rfl
    · rw [getScheduleAccountInfo_eq hp hc hk, Bank.schedule?_eq_none hv]
      rfl
  | schedule s =>
    have hs := Bank.value?_eq_schedule.mp hval
    constructor
    · rw [getVaultAccountInfo_eq hp hc hk, Bank.vault?_eq_none hs]
      rfl
    · rw [getScheduleAccountInfo_eq hp hc hk, hs]
      rfl

end

/-- After any run from a bank without accounts of the program, what the client gets of an account
of the program is the value that the last successful call which wrote the account wrote there: a
vault with the signer that the program accepts, or a schedule. -/
theorem client_reads_last_written {rt : Runtime} (hrt : rt.Lawful) {packages : Packages}
    (hp : packages.Lawful rt) {connection : Connection} (hc : connection.Lawful rt) {b : Bank}
    (hempty : ∀ k d, (b k).content ≠ .program d) (calls : List Call) {k : Pubkey} {d : Bytes}
    (hk : (run (step rt) b calls k).content = .program d) :
    ∃ before c val,
      Latest (step rt) (fun b c => ∃ val, c.written rt b = some (k, val)) b calls before c ∧
      c.written rt (run (step rt) b before) = some (k, val) ∧
      Reads rt packages connection (run (step rt) b calls) k val := by
  obtain ⟨val, space, hstored⟩ := stored_run hrt hempty calls hk
  obtain ⟨before, c, hlast, hwritten⟩ := hstored.lastWritten
  have hwf := wellFormed_run hrt (wellFormed_of_unused hempty) calls
  exact ⟨before, c, val, hlast, hwritten, reads_value hp hc hwf hk hstored.readsBack⟩

open Reference in
theorem client_reads_last_written_deployed :
    ∃ before c val,
      Latest (step runtime) (fun b c => ∃ val, c.written runtime b = some (schedule, val)) genesis
        [openVault, openSchedule, redeemFirst] before c ∧
      c.written runtime (run (step runtime) genesis before) = some (schedule, val) ∧
      Reads runtime packages connection
        (run (step runtime) genesis [openVault, openSchedule, redeemFirst]) schedule val := by
  have hdata : ((run (step runtime) genesis [openVault, openSchedule, redeemFirst]).data?
      schedule).isSome := by
    decide +kernel
  obtain ⟨d, hd⟩ := Option.isSome_iff_exists.mp hdata
  exact client_reads_last_written runtime_lawful packages_lawful connection_lawful genesis_unused _
    (Bank.data?_eq_some.mp hd)

end Coin98Vault.Client

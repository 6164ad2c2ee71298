import Coin98Vault.Properties.ClientActions

/-!
# Creation with the client

A vault is created at the address of its name, and a schedule at that of its event.  Lamports that
are there already count towards the rent.
-/

namespace Coin98Vault

section
variable {rt : Runtime} {b b' : Bank} {payer k : Pubkey} {space : Nat}

/-- The payer can open an unused account: it has what is missing for the rent, and the account is
not too large to be created within an instruction. -/
structure Bank.CanOpen (rt : Runtime) (b : Bank) (payer k : Pubkey) (space : Nat) : Prop where
  unused : (b k).content = .wallet
  other : (b k).lamports = 0 ∨ payer ≠ k
  fits : space ≤ maxPermittedDataIncrease
  funds : (b k).lamports = 0 ∨ 0 < initFunds rt b k space →
    (b payer).content = .wallet ∧ (initFunds rt b k space).toNat ≤ (b payer).lamports

private theorem init_succeeds_iff (hrt : rt.Lawful) {tx : Tx} {seeds : List Bytes}
    (hsigner : payer ∈ tx.signers) (hpayer : payer ∈ tx.writable) (hk : k ∈ tx.writable) :
    (∃ r, init rt tx b payer k seeds space = .ok r) ↔
      (∃ bump, rt.findProgramAddress seeds = some (k, bump)) ∧ b.CanOpen rt payer k space := by
  have htransfer (b₁ : Bank) :
      transferLamport rt tx b payer k (initFunds rt b k space) [] = .ok b₁ ↔
        (b payer).content = .wallet ∧ (initFunds rt b k space).toNat ≤ (b payer).lamports ∧
          b₁ = b.moveLamports payer k (initFunds rt b k space).toNat := by
    rw [transferLamport_eq_ok hrt]
    simp [hpayer, hk, MaySign, hsigner]
  constructor
  · intro h
    obtain ⟨⟨b', bump⟩, hinit⟩ := h
    obtain ⟨hfind, -, hne, hwallet, hspace, b₁, hfund, -⟩ := (init_eq_ok hrt).mp hinit
    refine ⟨⟨bump, hfind⟩, hwallet, hne, hspace, ?_⟩
    intro hneeds
    rw [fund, if_pos hneeds, htransfer] at hfund
    exact ⟨hfund.1, hfund.2.1⟩
  · intro h
    obtain ⟨⟨bump, hfind⟩, hopen⟩ := h
    have hfund : ∃ b₁, fund rt tx b payer k space = .ok b₁ := by
      unfold fund
      split
      · rename_i hneeds
        obtain ⟨hwallet, hle⟩ := hopen.funds hneeds
        exact ⟨_, (htransfer _).mpr ⟨hwallet, hle, rfl⟩⟩
      · exact ⟨b, rfl⟩
    obtain ⟨b₁, hb₁⟩ := hfund
    exact ⟨(_, bump), (init_eq_ok hrt).mpr
      ⟨hfind, hk, hopen.other, hopen.unused, hopen.fits, b₁, hb₁, rfl⟩⟩

private theorem exit_fresh {val : Value} (b₁ : Bank)
    (hwrite : ∃ d, val.write (List.replicate space 0) = some d) :
    ∃ b', exit ⟨b₁.setContent k (.program (List.replicate space 0)), some (k, val)⟩ = .ok b' ∧
      b'.value? k = some val := by
  obtain ⟨d, hd⟩ := hwrite
  refine ⟨_, exit_some.mpr ⟨_, d, Bank.setContent_content_self _ _ _, hd, rfl⟩, ?_⟩
  exact Value.value?_of_write hd (Bank.setContent_content_self _ _ _)

private theorem Vault.write_fresh (v : Vault) (hv : v.admins = []) :
    ∃ d, (Value.vault v).write (List.replicate (16 + Vault.size) 0) = some d := by
  refine ⟨_, Layout.write_eq_some.mpr ⟨?_, ?_, rfl⟩⟩
  · exact (Vault.codec_valid v).mpr (by simp [hv])
  · rw [List.length_replicate]
    exact v.image_fits_iff.mpr (by simp [hv])

private theorem CreateScheduleArgs.write_fresh (a : CreateScheduleArgs) (vault : Pubkey)
    (bump : UInt8) :
    ∃ d, (Value.schedule (a.schedule vault bump)).write
      (List.replicate (16 + Schedule.size a.userCount) 0) = some d := by
  have hcount : a.userCount.toNat < 65536 := a.userCount.toNat_lt
  have hroot : (a.schedule vault bump).merkleRoot.length = 32 := a.merkleRoot.length_bytes
  have hbits : (a.schedule vault bump).redemptions.length = a.userCount.toNat :=
    List.length_replicate
  refine ⟨_, Layout.write_eq_some.mpr ⟨?_, ?_, rfl⟩⟩
  · refine (Schedule.codec_valid _).mpr ⟨?_, ?_⟩ <;> omega
  · rw [List.length_replicate]
    exact a.image_fits vault bump

end

namespace Client

section
variable {rt : Runtime} {packages : Packages} {b b' : Bank} {payer vault schedule : Pubkey}
  {unixTimestamp : Int64}

/-! ## Addresses -/

private theorem findVaultAddress_eq (hp : packages.Lawful rt) (vaultName : String) :
    VaultService.findVaultAddress rt packages (.inl vaultName) rt.programId =
      rt.findProgramAddress [vaultSeed1, VaultService.findVaultDerivationPath packages vaultName] := by
  simp only [VaultService.findVaultAddress, VaultInstructionService.findVaultAddress,
    VaultInstructionService.findProgramAddressSync, hp.vault]

private theorem findVaultSignerAddress_eq (hp : packages.Lawful rt) (vault : Pubkey) :
    VaultInstructionService.findVaultSignerAddress rt packages vault rt.programId =
      rt.findProgramAddress [signerSeed1, vault.bytes] := by
  simp only [VaultInstructionService.findVaultSignerAddress,
    VaultInstructionService.findProgramAddressSync, hp.signer]

private theorem findScheduleDerivationPath_eq (hp : packages.Lawful rt) (eventId : UInt64) :
    VaultInstructionService.findScheduleDerivationPath packages eventId =
      some (deriveEventId eventId) := by
  have hlt : (eventId.toNat : Int) < 2 ^ 64 := by
    have h := eventId.toNat_lt
    omega
  have hfield := hp.lib.u64 eventId.toNat (by omega) hlt
  rw [Int.toNat_natCast] at hfield
  have hputs := (show (packages.lib.u64.property fun e : UInt64 => (e.toNat : Int)).Puts eventId _
    from hfield.property).cons (FieldLayout.Puts.nil eventId)
  rw [VaultInstructionService.findScheduleDerivationPath,
    VaultInstructionService.scheduleDerivationPathLayout, hp.serialize, hp.lib.struct,
    hputs.slice (by simp), List.append_nil]
  rfl

private theorem findScheduleAddress_eq (hp : packages.Lawful rt) (eventId : UInt64) :
    VaultInstructionService.findScheduleAddress rt packages eventId rt.programId =
      rt.findProgramAddress [scheduleSeed1, deriveEventId eventId] := by
  simp only [VaultInstructionService.findScheduleAddress, findScheduleDerivationPath_eq hp,
    VaultInstructionService.findProgramAddressSync, hp.schedule, Option.bind_eq_bind,
    Option.bind_some]

/-! ## Creation -/

private theorem createVault_step (hrt : rt.Lawful) {vaultPath : Bytes} :
    (∃ b', step rt b ((Request.createVault payer vault vaultPath).call rt payer unixTimestamp) =
        .ok b') ↔
      (∃ bump, rt.findProgramAddress [vaultSeed1, vaultPath] = some (vault, bump)) ∧
      (∃ r, rt.findProgramAddress [signerSeed1, vault.bytes] = some r) ∧
      b.CanOpen rt payer vault (16 + Vault.size) ∧ rt.CanWrite [payer, vault] := by
  have hwritable := Request.call_canWrite rt payer
    (.createVault payer vault vaultPath) unixTimestamp
  simp only [Request.writes, List.forall_mem_cons, List.not_mem_nil, false_implies, implies_true,
    and_true] at hwritable
  have hinit (hgranted) := @init_succeeds_iff rt b payer vault (16 + Vault.size) hrt
    ((Request.createVault payer vault vaultPath).call rt payer unixTimestamp).toTx
    [vaultSeed1, vaultPath] (by simp [Request.call]) (hwritable.mpr hgranted).1
    (hwritable.mpr hgranted).2
  simp only [step_eq_ok_iff]
  constructor
  · intro h
    obtain ⟨b', o, hh, -⟩ := h
    obtain ⟨-, hpayer, -, b₁, bump, p, n, hcreated, hfind, -⟩ := (createVault_eq_ok hrt).mp hh
    have hkeys := hwritable.mp ⟨hpayer, ((init_eq_ok hrt).mp hcreated).2.1⟩
    obtain ⟨haddress, hopen⟩ := (hinit hkeys).mp ⟨_, hcreated⟩
    exact ⟨haddress, ⟨_, hfind⟩, hopen, hkeys⟩
  · intro h
    obtain ⟨haddress, ⟨⟨p, n⟩, hfind⟩, hopen, hkeys⟩ := h
    obtain ⟨⟨b₁, bump⟩, hcreated⟩ := (hinit hkeys).mpr ⟨haddress, hopen⟩
    obtain ⟨-, -, -, -, -, b₂, -, rfl⟩ := (init_eq_ok hrt).mp hcreated
    have hwrite := Vault.write_fresh ⟨.vault, n, payer, systemProgramId, []⟩ rfl
    obtain ⟨b', hexit, -⟩ := exit_fresh (k := vault) b₂ hwrite
    exact ⟨b', _, (createVault_eq_ok hrt).mpr ⟨by simp [Request.call], (hwritable.mpr hkeys).1, rfl,
      _, bump, p, n, hcreated, hfind, rfl⟩, hexit⟩

private theorem createSchedule_step (hrt : rt.Lawful) {a : CreateScheduleArgs} :
    (∃ b', step rt b ((Request.createSchedule payer vault schedule a).call rt payer unixTimestamp) =
        .ok b') ↔
      (∃ bump, rt.findProgramAddress [scheduleSeed1, deriveEventId a.eventId] =
        some (schedule, bump)) ∧
      (∃ v, b.vault? vault = some v ∧ v.IsAdmin payer) ∧
      b.CanOpen rt payer schedule (16 + Schedule.size a.userCount) ∧
      rt.CanWrite [payer, schedule] := by
  have hwritable := Request.call_canWrite rt payer
    (.createSchedule payer vault schedule a) unixTimestamp
  simp only [Request.writes, List.forall_mem_cons, List.not_mem_nil, false_implies, implies_true,
    and_true] at hwritable
  have hinit (hgranted) := @init_succeeds_iff rt b payer schedule (16 + Schedule.size a.userCount)
    hrt ((Request.createSchedule payer vault schedule a).call rt payer unixTimestamp).toTx
    [scheduleSeed1, deriveEventId a.eventId] (by simp [Request.call]) (hwritable.mpr hgranted).1
    (hwritable.mpr hgranted).2
  simp only [step_eq_ok_iff]
  constructor
  · intro h
    obtain ⟨b', o, hh, -⟩ := h
    obtain ⟨v, hv, -, hpayer, hadmin, -, b₁, bump, hcreated, -⟩ := (createSchedule_eq_ok hrt).mp hh
    have hkeys := hwritable.mp ⟨hpayer, ((init_eq_ok hrt).mp hcreated).2.1⟩
    obtain ⟨haddress, hopen⟩ := (hinit hkeys).mp ⟨_, hcreated⟩
    exact ⟨haddress, ⟨v, hv, hadmin⟩, hopen, hkeys⟩
  · intro h
    obtain ⟨haddress, ⟨v, hv, hadmin⟩, hopen, hkeys⟩ := h
    obtain ⟨⟨b₁, bump⟩, hcreated⟩ := (hinit hkeys).mpr ⟨haddress, hopen⟩
    obtain ⟨-, -, -, -, -, b₂, -, rfl⟩ := (init_eq_ok hrt).mp hcreated
    obtain ⟨b', hexit, -⟩ := exit_fresh (k := schedule) b₂ (a.write_fresh vault bump)
    exact ⟨b', _, (createSchedule_eq_ok hrt).mpr ⟨v, hv, by simp [Request.call, Request.signer],
      (hwritable.mpr hkeys).1, hadmin, rfl, _, bump, hcreated, rfl⟩, hexit⟩

end

/-- Send what creates an account, and keep its address. -/
def sendCreation (rt : Runtime) (b : Bank) (payer : Pubkey) (unixTimestamp : Int64)
    (created : Option (TransactionInstruction × Pubkey)) : Option (Bank × Pubkey) := do
  let (ix, address) ← created
  let b' ← deliver rt b payer unixTimestamp ix
  return (b', address)

section
variable {rt : Runtime} {packages : Packages} {b b' : Bank} {payer vault schedule : Pubkey}
  {unixTimestamp : Int64}

private theorem createVault_sent (hp : packages.Lawful rt) {vaultName : String} :
    sendCreation rt b payer unixTimestamp
        (VaultService.createVault rt packages payer vaultName rt.programId) = some (b', vault) ↔
      (∃ bump, rt.findProgramAddress
        [vaultSeed1, VaultService.findVaultDerivationPath packages vaultName] =
          some (vault, bump)) ∧
      (∃ r, rt.findProgramAddress [signerSeed1, vault.bytes] = some r) ∧
      step rt b ((Request.createVault payer vault
        (VaultService.findVaultDerivationPath packages vaultName)).call rt payer unixTimestamp) =
          .ok b' := by
  have hlen : (VaultService.findVaultDerivationPath packages vaultName).length = 32 :=
    (packages.sha256 vaultName).length_bytes
  have hsend (k : Pubkey) := @Request.send_eq_some rt packages b b' hp
    (.createVault payer k (VaultService.findVaultDerivationPath packages vaultName))
    (show _ ≤ 996 by omega) payer unixTimestamp
  have hbuild (k : Pubkey) : VaultInstructionService.createVault packages payer k
      (VaultService.findVaultDerivationPath packages vaultName) rt.programId =
        (Request.createVault payer k
          (VaultService.findVaultDerivationPath packages vaultName)).build packages rt.programId :=
    rfl
  simp only [← hsend, ← hbuild, sendCreation, VaultService.createVault, findVaultAddress_eq hp,
    findVaultSignerAddress_eq hp, Option.bind_eq_bind, Option.pure_def, Option.bind_eq_some_iff,
    Option.some.injEq, Prod.exists, Prod.mk.injEq]
  constructor
  · intro h
    obtain ⟨_, k, ⟨_, bump, haddress, p, n, hsigner, ix, hix, rfl, rfl⟩, _, hsent, rfl, rfl⟩ := h
    exact ⟨⟨bump, haddress⟩, ⟨p, n, hsigner⟩, ix, hix, hsent⟩
  · intro h
    obtain ⟨⟨bump, haddress⟩, ⟨p, n, hsigner⟩, ix, hix, hsent⟩ := h
    exact ⟨ix, vault, ⟨vault, bump, haddress, p, n, hsigner, ix, hix, rfl, rfl⟩, b', hsent, rfl,
      rfl⟩

private theorem createSchedule_sent (hp : packages.Lawful rt) {a : CreateScheduleArgs} :
    sendCreation rt b payer unixTimestamp
        (VaultService.createSchedule rt packages payer vault a.userCount a.eventId a.timestamp
          a.merkleRoot a.useMultiToken a.receivingTokenMint a.receivingTokenAccount
          a.sendingTokenMint a.sendingTokenAccount rt.programId) = some (b', schedule) ↔
      (∃ bump, rt.findProgramAddress [scheduleSeed1, deriveEventId a.eventId] =
        some (schedule, bump)) ∧
      step rt b ((Request.createSchedule payer vault schedule a).call rt payer unixTimestamp) =
        .ok b' := by
  have hsend (k : Pubkey) := @Request.send_eq_some rt packages b b' hp
    (.createSchedule payer vault k a) trivial payer unixTimestamp
  have hbuild (k : Pubkey) : VaultInstructionService.createSchedule packages payer vault k
      a.userCount a.eventId a.timestamp a.merkleRoot a.useMultiToken a.receivingTokenMint
      a.receivingTokenAccount a.sendingTokenMint a.sendingTokenAccount rt.programId =
        (Request.createSchedule payer vault k a).build packages rt.programId := rfl
  simp only [← hsend, ← hbuild, sendCreation, VaultService.createSchedule,
    findScheduleAddress_eq hp, Option.bind_eq_bind, Option.pure_def, Option.bind_eq_some_iff,
    Option.some.injEq, Prod.exists, Prod.mk.injEq]
  constructor
  · intro h
    obtain ⟨_, k, ⟨_, bump, haddress, ix, hix, rfl, rfl⟩, _, hsent, rfl, rfl⟩ := h
    exact ⟨⟨bump, haddress⟩, ix, hix, hsent⟩
  · intro h
    obtain ⟨⟨bump, haddress⟩, ix, hix, hsent⟩ := h
    exact ⟨ix, schedule, ⟨schedule, bump, haddress, ix, hix, rfl, rfl⟩, b', hsent, rfl, rfl⟩

/-- What a successful `create_vault` leaves behind. -/
theorem createVault_vault? (hrt : rt.Lawful) {vaultPath : Bytes}
    (h : step rt b ((Request.createVault payer vault vaultPath).call rt payer unixTimestamp) = .ok b') :
    ∃ p n, rt.findProgramAddress [signerSeed1, vault.bytes] = some (p, n) ∧
      b'.vault? vault = some ⟨.vault, n, payer, systemProgramId, []⟩ := by
  obtain ⟨w, -, hst⟩ := step_eq_ok hrt h
  have hacc : Accepted rt _ b (.createVault ⟨payer, vault, systemProgramId⟩ vaultPath) w :=
    hst.accepted
  cases hacc with
  | claim hcl => cases hcl
  | createVault _ _ _ nonce =>
    exact ⟨_, _, nonce, Bank.value?_eq_vault.mp hst.value?_written⟩

end

/-- From any bank, the program accepts the creation that the client builds for a vault of some name,
or for a schedule of some event, if and only if the address that it derives for it is unused, the
payer has what that address lacks for the rent, the account is not too large to be created within an
instruction, and neither key is reserved; for a schedule the payer has to be owner or admin of the
vault, too.  The client returns that address, and what is there afterwards is the new vault with the
payer as its owner, or the schedule as it was asked for. -/
theorem creation_succeeds_iff {rt : Runtime} (hrt : rt.Lawful) {packages : Packages}
    (hp : packages.Lawful rt) (b : Bank) (payer : Pubkey) (unixTimestamp : Int64) :
    (∀ vaultName,
      let created := sendCreation rt b payer unixTimestamp
        (VaultService.createVault rt packages payer vaultName rt.programId)
      ((∃ r, created = some r) ↔ ∃ vault,
        (∃ bump, rt.findProgramAddress
          [vaultSeed1, VaultService.findVaultDerivationPath packages vaultName] =
            some (vault, bump)) ∧
        (∃ r, rt.findProgramAddress [signerSeed1, vault.bytes] = some r) ∧
        b.CanOpen rt payer vault (16 + Vault.size) ∧ rt.CanWrite [payer, vault]) ∧
      ∀ b' vault, created = some (b', vault) →
        ∃ p n, rt.findProgramAddress [signerSeed1, vault.bytes] = some (p, n) ∧
          b'.vault? vault = some ⟨.vault, n, payer, systemProgramId, []⟩) ∧
    ∀ vault (a : CreateScheduleArgs),
      let created := sendCreation rt b payer unixTimestamp
        (VaultService.createSchedule rt packages payer vault a.userCount a.eventId a.timestamp
          a.merkleRoot a.useMultiToken a.receivingTokenMint a.receivingTokenAccount
          a.sendingTokenMint a.sendingTokenAccount rt.programId)
      ((∃ r, created = some r) ↔ ∃ schedule,
        (∃ bump, rt.findProgramAddress [scheduleSeed1, deriveEventId a.eventId] =
          some (schedule, bump)) ∧
        (∃ v, b.vault? vault = some v ∧ v.IsAdmin payer) ∧
        b.CanOpen rt payer schedule (16 + Schedule.size a.userCount) ∧
        rt.CanWrite [payer, schedule]) ∧
      ∀ b' schedule, created = some (b', schedule) →
        ∃ bump, rt.findProgramAddress [scheduleSeed1, deriveEventId a.eventId] =
            some (schedule, bump) ∧
          b'.schedule? schedule = some (a.schedule vault bump) := by
  constructor
  · intro vaultName created
    constructor
    · constructor
      · intro h
        obtain ⟨⟨b', vault⟩, hcreated⟩ := h
        obtain ⟨haddress, -, hstep⟩ := (createVault_sent hp).mp hcreated
        exact ⟨vault, (createVault_step hrt).mp ⟨b', hstep⟩⟩
      · intro h
        obtain ⟨vault, haddress, hsigner, hopen⟩ := h
        obtain ⟨b', hstep⟩ := (createVault_step hrt).mpr ⟨haddress, hsigner, hopen⟩
        exact ⟨(b', vault), (createVault_sent hp).mpr ⟨haddress, hsigner, hstep⟩⟩
    · intro b' vault hcreated
      obtain ⟨-, -, hstep⟩ := (createVault_sent hp).mp hcreated
      exact createVault_vault? hrt hstep
  · intro vault a created
    constructor
    · constructor
      · intro h
        obtain ⟨⟨b', schedule⟩, hcreated⟩ := h
        obtain ⟨-, hstep⟩ := (createSchedule_sent hp).mp hcreated
        exact ⟨schedule, (createSchedule_step hrt).mp ⟨b', hstep⟩⟩
      · intro h
        obtain ⟨schedule, haddress, hadmin, hopen⟩ := h
        obtain ⟨b', hstep⟩ := (createSchedule_step hrt).mpr ⟨haddress, hadmin, hopen⟩
        exact ⟨(b', schedule), (createSchedule_sent hp).mpr ⟨haddress, hstep⟩⟩
    · intro b' schedule hcreated
      obtain ⟨-, hstep⟩ := (createSchedule_sent hp).mp hcreated
      obtain ⟨v, bump, -, haddress, hs⟩ := createSchedule_schedule? hrt rfl hstep
      exact ⟨bump, haddress, hs⟩

open Reference in
theorem creation_succeeds_iff_genesis :
    let created := sendCreation runtime genesis owner 6
      (VaultService.createVault runtime packages owner "Treasury" runtime.programId)
    ∃ b' k n, created = some (b', k) ∧
      b'.vault? k = some ⟨.vault, n, owner, systemProgramId, []⟩ := by
  intro created
  have hsome : created.isSome := by decide +kernel
  obtain ⟨⟨b', k⟩, hcreated⟩ := Option.isSome_iff_exists.mp hsome
  obtain ⟨p, n, -, hv⟩ := ((creation_succeeds_iff runtime_lawful packages_lawful genesis owner 6).1
    "Treasury").2 b' k hcreated
  exact ⟨b', k, n, hcreated, hv⟩

end Client

end Coin98Vault

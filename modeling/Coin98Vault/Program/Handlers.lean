import Coin98Vault.Program.Values

/-!
# When an instruction succeeds

One lemma per context and one per handler say when it succeeds and what it returns.
-/

namespace Coin98Vault

/-! ## Access -/

def Vault.IsAdmin (v : Vault) (k : Pubkey) : Prop := k = v.owner ∨ k ∈ v.admins

theorem isAdmin_eq_ok {k : Pubkey} {v : Vault} {u : Unit} : isAdmin k v = .ok u ↔ v.IsAdmin k := by
  unfold isAdmin Vault.IsAdmin
  split
  · rename_i h
    simp [h]
  · rename_i h
    have hfind : v.admins.findIdx? (· == k) = none ↔ k ∉ v.admins := by
      rw [List.findIdx?_eq_none_iff]
      constructor
      · exact fun hn hk => by simpa using hn k hk
      · rintro hn x hx
        rw [beq_eq_false_iff_ne]
        rintro rfl
        exact hn hx
    simp only [hfind]
    split <;> simp_all

/-! ## Contexts -/

def SetScheduleContext.Ready (x : SetScheduleContext) (tx : Tx) : Prop :=
  x.admin ∈ tx.signers ∧ x.admin ∈ tx.writable ∧ x.schedule ∈ tx.writable

def WithdrawSolContext.Ready (x : WithdrawSolContext) (tx : Tx) : Prop :=
  x.admin ∈ tx.signers ∧ x.admin ∈ tx.writable ∧ x.vaultSigner ∈ tx.writable ∧
    x.recipient ∈ tx.writable ∧ x.systemProgram = systemProgramId

def WithdrawTokenContext.Ready (x : WithdrawTokenContext) (tx : Tx) : Prop :=
  x.admin ∈ tx.signers ∧ x.admin ∈ tx.writable ∧ x.sender ∈ tx.writable ∧
    x.recipient ∈ tx.writable ∧ isTokenProgram x.tokenProgram

section
variable {rt : Runtime} {tx : Tx} {b : Bank}

theorem setScheduleAccounts_eq_ok {x : SetScheduleContext} {v : Vault} {s : Schedule} :
    x.tryAccounts rt tx b = .ok (v, s) ↔
      x.Ready tx ∧ b.vault? x.vault = some v ∧ b.schedule? x.schedule = some s ∧
      rt.createProgramAddress [scheduleSeed1, deriveEventId s.eventId, [s.nonce]] =
        some x.schedule ∧
      s.vaultId = x.vault := by
  simp only [SetScheduleContext.tryAccounts, signer, writable, account, bind_eq_ok, require_eq_ok,
    orFail_eq_ok, pure_eq_ok, exists_const, Prod.mk.injEq, scheduleOf_eq_ok]
  constructor
  · rintro ⟨hs, hw, _, hv, _, ⟨hsch, hsw, hk, hlink⟩, rfl, rfl⟩
    exact ⟨⟨hs, hw, hsw⟩, hv, hsch, hk, hlink⟩
  · rintro ⟨⟨hs, hw, hsw⟩, hv, hsch, hk, hlink⟩
    exact ⟨hs, hw, v, hv, s, ⟨hsch, hsw, hk, hlink⟩, rfl, rfl⟩

theorem withdrawSolAccounts_eq_ok {x : WithdrawSolContext} {v : Vault} :
    x.tryAccounts rt tx b = .ok v ↔
      x.Ready tx ∧ b.vault? x.vault = some v ∧
      rt.createProgramAddress (signerSeeds x.vault v) = some x.vaultSigner := by
  simp only [WithdrawSolContext.tryAccounts, signer, writable, account, program, vaultSignerOf,
    seedsWithBump, signerSeeds, List.cons_append, List.nil_append, bind_eq_ok, require_eq_ok,
    orFail_eq_ok, pure_eq_ok, exists_const]
  constructor
  · rintro ⟨hs, hw, _, hv, hvw, hseeds, hr, hp, rfl⟩
    exact ⟨⟨hs, hw, hvw, hr, hp⟩, hv, hseeds⟩
  · rintro ⟨⟨hs, hw, hvw, hr, hp⟩, hv, hseeds⟩
    exact ⟨hs, hw, v, hv, hvw, hseeds, hr, hp, rfl⟩

theorem withdrawTokenAccounts_eq_ok {x : WithdrawTokenContext} {v : Vault} :
    x.tryAccounts rt tx b = .ok v ↔
      x.Ready tx ∧ b.vault? x.vault = some v ∧
      rt.createProgramAddress (signerSeeds x.vault v) = some x.vaultSigner := by
  simp only [WithdrawTokenContext.tryAccounts, signer, writable, account, vaultSignerOf,
    seedsWithBump, signerSeeds, List.cons_append, List.nil_append, bind_eq_ok, require_eq_ok,
    orFail_eq_ok, pure_eq_ok, exists_const]
  constructor
  · rintro ⟨hs, hw, _, hv, hseeds, hsw, hr, hp, rfl⟩
    exact ⟨⟨hs, hw, hsw, hr, hp⟩, hv, hseeds⟩
  · rintro ⟨⟨hs, hw, hsw, hr, hp⟩, hv, hseeds⟩
    exact ⟨hs, hw, v, hv, hseeds, hsw, hr, hp, rfl⟩

end

/-! ## The instructions -/

section
variable {rt : Runtime} {tx : Tx} {b : Bank} {o : Outcome}

theorem createVault_eq_ok (hrt : rt.Lawful) {x : CreateVaultContext} {vaultPath : Bytes} :
    createVault rt tx b x vaultPath = .ok o ↔
      x.owner ∈ tx.signers ∧ x.owner ∈ tx.writable ∧ x.systemProgram = systemProgramId ∧
      ∃ b₁ bump vaultSigner signerNonce,
        init rt tx b x.owner x.vault [vaultSeed1, vaultPath] (16 + Vault.size) = .ok (b₁, bump) ∧
        rt.findProgramAddress [signerSeed1, x.vault.bytes] = some (vaultSigner, signerNonce) ∧
        o = ⟨b₁, some (x.vault, .vault ⟨.vault, signerNonce, x.owner, systemProgramId, []⟩)⟩ := by
  have hfresh {b₁ : Bank} {bump : UInt8}
      (h : init rt tx b x.owner x.vault [vaultSeed1, vaultPath] (16 + Vault.size) =
        .ok (b₁, bump)) : accountUnchecked Vault.layout b₁ x.vault = .ok .zero := by
    obtain ⟨-, -, -, -, -, b₂, -, rfl⟩ := (init_eq_ok hrt).mp h
    exact accountUnchecked_zeros (Vault.decode_zeros (by decide))
  simp only [createVault, CreateVaultContext.tryAccounts, signer, writable, program, bind_eq_ok,
    require_eq_ok, orFail_eq_ok, pure_eq_ok, exists_const, Prod.exists, Prod.mk.injEq]
  constructor
  · rintro ⟨_, v, ⟨hs, hw, b₁, bump, hinit, v', hv, hp, rfl, rfl⟩, k, n, hfind, rfl⟩
    obtain rfl := Except.ok.inj ((hfresh hinit).symm.trans hv)
    exact ⟨hs, hw, hp, _, bump, k, n, hinit, hfind, rfl⟩
  · rintro ⟨hs, hw, hp, b₁, bump, k, n, hinit, hfind, rfl⟩
    exact ⟨b₁, .zero, ⟨hs, hw, b₁, bump, hinit, .zero, hfresh hinit, hp, rfl, rfl⟩, k, n, hfind,
      rfl⟩

theorem setVault_eq_ok {x : SetVaultContext} {admins : List Pubkey} :
    setVault tx b x admins = .ok o ↔
      ∃ v, b.vault? x.vault = some v ∧ x.owner ∈ tx.signers ∧ x.vault ∈ tx.writable ∧
        x.owner = v.owner ∧ o = ⟨b, some (x.vault, .vault { v with admins })⟩ := by
  simp only [setVault, SetVaultContext.tryAccounts, signer, writable, account, isOwner,
    bind_eq_ok, require_eq_ok, orFail_eq_ok, pure_eq_ok, exists_const]
  constructor
  · rintro ⟨_, ⟨hs, v, hv, hw, rfl⟩, ho, rfl⟩
    exact ⟨_, hv, hs, hw, ho, rfl⟩
  · rintro ⟨v, hv, hs, hw, ho, rfl⟩
    exact ⟨v, ⟨hs, v, hv, hw, rfl⟩, ho, rfl⟩

/-- The schedule that `create_schedule` stores. -/
def CreateScheduleArgs.schedule (a : CreateScheduleArgs) (vault : Pubkey) (bump : UInt8) :
    Schedule where
  objType := if a.useMultiToken then .distributionMulti else .distribution
  nonce := bump
  eventId := a.eventId
  vaultId := vault
  timestamp := a.timestamp
  merkleRoot := a.merkleRoot.bytes
  receivingTokenMint := a.receivingTokenMint
  receivingTokenAccount := a.receivingTokenAccount
  sendingTokenMint := a.sendingTokenMint
  sendingTokenAccount := a.sendingTokenAccount
  isActive := true
  redemptions := List.replicate a.userCount.toNat false

theorem createSchedule_eq_ok (hrt : rt.Lawful) {x : CreateScheduleContext}
    {a : CreateScheduleArgs} :
    createSchedule rt tx b x a = .ok o ↔
      ∃ v, b.vault? x.vault = some v ∧ x.admin ∈ tx.signers ∧ x.admin ∈ tx.writable ∧
        v.IsAdmin x.admin ∧ x.systemProgram = systemProgramId ∧
        ∃ b₁ bump,
          init rt tx b x.admin x.schedule [scheduleSeed1, deriveEventId a.eventId]
            (16 + Schedule.size a.userCount) = .ok (b₁, bump) ∧
          o = ⟨b₁, some (x.schedule, .schedule (a.schedule x.vault bump))⟩ := by
  have hfresh {b₁ : Bank} {bump : UInt8}
      (h : init rt tx b x.admin x.schedule [scheduleSeed1, deriveEventId a.eventId]
        (16 + Schedule.size a.userCount) = .ok (b₁, bump)) :
      accountUnchecked Schedule.layout b₁ x.schedule = .ok .zero := by
    obtain ⟨-, -, -, -, -, b₂, -, rfl⟩ := (init_eq_ok hrt).mp h
    exact accountUnchecked_zeros (Schedule.decode_zeros (by unfold Schedule.size; omega))
  simp only [createSchedule, CreateScheduleContext.tryAccounts, signer, writable, program,
    account, bind_eq_ok, require_eq_ok, orFail_eq_ok, pure_eq_ok, exists_const, Prod.exists,
    Prod.mk.injEq, isAdmin_eq_ok]
  constructor
  · rintro ⟨_, v, _, _, ⟨hs, hw, _, hv, b₁, bump, hinit, s, hsched, hp, rfl, rfl, rfl, rfl⟩,
      hadmin, rfl⟩
    exact ⟨_, hv, hs, hw, hadmin, hp, _, _, hinit, rfl⟩
  · rintro ⟨v, hv, hs, hw, hadmin, hp, b₁, bump, hinit, rfl⟩
    exact ⟨b₁, v, .zero, bump, ⟨hs, hw, v, hv, b₁, bump, hinit, .zero, hfresh hinit, hp, rfl, rfl,
      rfl, rfl⟩, hadmin, rfl⟩

theorem setScheduleStatus_eq_ok {x : SetScheduleContext} {isActive : Bool} :
    setScheduleStatus rt tx b x isActive = .ok o ↔
      ∃ v s, b.vault? x.vault = some v ∧ b.schedule? x.schedule = some s ∧
        x.admin ∈ tx.signers ∧ x.admin ∈ tx.writable ∧ x.schedule ∈ tx.writable ∧
        rt.createProgramAddress [scheduleSeed1, deriveEventId s.eventId, [s.nonce]] =
          some x.schedule ∧
        s.vaultId = x.vault ∧ v.IsAdmin x.admin ∧
        o = ⟨b, some (x.schedule, .schedule { s with isActive })⟩ := by
  simp only [setScheduleStatus, bind_eq_ok, Prod.exists, setScheduleAccounts_eq_ok,
    isAdmin_eq_ok, pure_eq_ok, exists_const]
  constructor
  · rintro ⟨v, s, ⟨⟨hs, hw, hsw⟩, hv, hsch, hk, hlink⟩, hadmin, rfl⟩
    exact ⟨v, s, hv, hsch, hs, hw, hsw, hk, hlink, hadmin, rfl⟩
  · rintro ⟨v, s, hv, hsch, hs, hw, hsw, hk, hlink, hadmin, rfl⟩
    exact ⟨v, s, ⟨⟨hs, hw, hsw⟩, hv, hsch, hk, hlink⟩, hadmin, rfl⟩

theorem withdrawSol_eq_ok {x : WithdrawSolContext} {amount : UInt64} :
    withdrawSol rt tx b x amount = .ok o ↔
      ∃ v b', b.vault? x.vault = some v ∧ x.admin ∈ tx.signers ∧ x.admin ∈ tx.writable ∧
        x.vaultSigner ∈ tx.writable ∧ x.recipient ∈ tx.writable ∧
        x.systemProgram = systemProgramId ∧
        rt.createProgramAddress (signerSeeds x.vault v) = some x.vaultSigner ∧
        v.IsAdmin x.admin ∧
        transferLamport rt tx b x.vaultSigner x.recipient amount
          [signerSeeds x.vault v] = .ok b' ∧
        o = ⟨b', none⟩ := by
  simp only [withdrawSol, bind_eq_ok, withdrawSolAccounts_eq_ok, isAdmin_eq_ok, pure_eq_ok,
    exists_const]
  constructor
  · rintro ⟨v, ⟨⟨hs, hw, hvw, hr, hp⟩, hv, hseeds⟩, hadmin, b', hpay, rfl⟩
    exact ⟨v, b', hv, hs, hw, hvw, hr, hp, hseeds, hadmin, hpay, rfl⟩
  · rintro ⟨v, b', hv, hs, hw, hvw, hr, hp, hseeds, hadmin, hpay, rfl⟩
    exact ⟨v, ⟨⟨hs, hw, hvw, hr, hp⟩, hv, hseeds⟩, hadmin, b', hpay, rfl⟩

theorem withdrawToken_eq_ok {x : WithdrawTokenContext} {amount : UInt64} :
    withdrawToken rt tx b x amount = .ok o ↔
      ∃ v b', b.vault? x.vault = some v ∧ x.admin ∈ tx.signers ∧ x.admin ∈ tx.writable ∧
        x.sender ∈ tx.writable ∧ x.recipient ∈ tx.writable ∧ isTokenProgram x.tokenProgram ∧
        rt.createProgramAddress (signerSeeds x.vault v) = some x.vaultSigner ∧
        v.IsAdmin x.admin ∧
        transferToken rt tx b x.vaultSigner x.sender x.recipient amount
          [signerSeeds x.vault v] = .ok b' ∧
        o = ⟨b', none⟩ := by
  simp only [withdrawToken, bind_eq_ok, withdrawTokenAccounts_eq_ok, isAdmin_eq_ok, pure_eq_ok,
    exists_const]
  constructor
  · rintro ⟨v, ⟨⟨hs, hw, hsw, hr, hp⟩, hv, hseeds⟩, hadmin, b', hpay, rfl⟩
    exact ⟨v, b', hv, hs, hw, hsw, hr, hp, hseeds, hadmin, hpay, rfl⟩
  · rintro ⟨v, b', hv, hs, hw, hsw, hr, hp, hseeds, hadmin, hpay, rfl⟩
    exact ⟨v, ⟨⟨hs, hw, hsw, hr, hp⟩, hv, hseeds⟩, hadmin, b', hpay, rfl⟩

theorem transferOwnership_eq_ok {x : TransferOwnershipContext} {newOwner : Pubkey} :
    transferOwnership tx b x newOwner = .ok o ↔
      ∃ v, b.vault? x.vault = some v ∧ x.owner ∈ tx.signers ∧ x.vault ∈ tx.writable ∧
        x.owner = v.owner ∧ o = ⟨b, some (x.vault, .vault { v with newOwner })⟩ := by
  simp only [transferOwnership, TransferOwnershipContext.tryAccounts, signer, writable, account,
    isOwner, bind_eq_ok, require_eq_ok, orFail_eq_ok, pure_eq_ok, exists_const]
  constructor
  · rintro ⟨_, ⟨hs, v, hv, hw, rfl⟩, ho, rfl⟩
    exact ⟨_, hv, hs, hw, ho, rfl⟩
  · rintro ⟨v, hv, hs, hw, ho, rfl⟩
    exact ⟨v, ⟨hs, v, hv, hw, rfl⟩, ho, rfl⟩

theorem acceptOwnership_eq_ok {x : AcceptOwnershipContext} :
    acceptOwnership tx b x = .ok o ↔
      ∃ v, b.vault? x.vault = some v ∧ x.newOwner ∈ tx.signers ∧ x.vault ∈ tx.writable ∧
        x.newOwner = v.newOwner ∧
        o = ⟨b, some (x.vault,
          .vault { v with owner := v.newOwner, newOwner := systemProgramId })⟩ := by
  simp only [acceptOwnership, AcceptOwnershipContext.tryAccounts, signer, writable, account,
    verifyNewOwner, bind_eq_ok, require_eq_ok, orFail_eq_ok, pure_eq_ok, exists_const]
  constructor
  · rintro ⟨_, ⟨hs, v, hv, hw, rfl⟩, ho, rfl⟩
    exact ⟨_, hv, hs, hw, ho, rfl⟩
  · rintro ⟨v, hv, hs, hw, ho, rfl⟩
    exact ⟨v, ⟨hs, v, hv, hw, rfl⟩, ho, rfl⟩

end

/-! ## The transfers of a redemption -/

section
variable {rt : Runtime}

/-- The fee a redemption is charged. -/
def Schedule.fee (s : Schedule) (sendingAmount : UInt64) : Nat :=
  if s.sendingTokenMint = systemProgramId then 0 else sendingAmount.toNat

theorem Schedule.fee_eq {s : Schedule} {n : UInt64} (h : 0 < s.fee n) : s.fee n = n.toNat := by
  unfold Schedule.fee at h ⊢
  split <;> simp_all

theorem Schedule.charges_iff {s : Schedule} {n : UInt64} :
    (s.sendingTokenMint ≠ systemProgramId ∧ 0 < n) ↔ 0 < s.fee n := by
  unfold Schedule.fee
  split <;> simp [*, UInt64.lt_iff_toNat_lt]

theorem payFee_eq_ok {tx : Tx} {b b' : Bank} {s : Schedule} {user : Pubkey}
    {accounts : List Pubkey} {n : UInt64} :
    payFee rt tx b s user accounts n = .ok b' ↔
      (s.fee n = 0 ∧ b' = b) ∨
      (0 < s.fee n ∧ accounts[0]? = some s.sendingTokenAccount ∧
        ∃ userToken1, accounts[1]? = some userToken1 ∧
          transferToken rt tx b user userToken1 s.sendingTokenAccount n [] = .ok b') := by
  unfold payFee
  split
  · rename_i h
    have hpos := Schedule.charges_iff.mp h
    simp only [bind_eq_ok, orFail_eq_ok, require_eq_ok, exists_const, hpos, hpos.ne', false_and,
      false_or, true_and]
    constructor
    · rintro ⟨k, hk, rfl, u, hu, ht⟩
      exact ⟨hk, u, hu, ht⟩
    · rintro ⟨hk, u, hu, ht⟩
      exact ⟨_, hk, rfl, u, hu, ht⟩
  · rename_i h
    have hzero : ¬ 0 < s.fee n := fun hpos => h (Schedule.charges_iff.mpr hpos)
    have hfee : s.fee n = 0 := by omega
    simp only [hfee, pure_eq_ok, true_and, lt_irrefl, false_and, or_false]
    exact eq_comm

theorem Claim.payOut_eq_ok {cl : Claim} {tx : Tx} {b b' : Bank} {v : Vault} {s : Schedule} :
    cl.payOut rt tx b v s = .ok b' ↔
      (cl.paidMint s = systemProgramId ∧
        transferLamport rt tx b cl.accounts.vaultSigner cl.accounts.user
          cl.args.receivingAmount [signerSeeds cl.accounts.vault v] = .ok b') ∨
      (cl.paidMint s ≠ systemProgramId ∧
        (∀ mint, cl.mint = some mint → ∃ t₀ t₁,
          unpackTokenAccount b cl.accounts.vaultToken0 = some t₀ ∧
          unpackTokenAccount b cl.accounts.userToken0 = some t₁ ∧ t₀.mint = mint ∧ t₁.mint = mint) ∧
        transferToken rt tx b cl.accounts.vaultSigner cl.accounts.vaultToken0
          cl.accounts.userToken0 cl.args.receivingAmount [signerSeeds cl.accounts.vault v] =
            .ok b') := by
  unfold Claim.payOut
  split
  · rename_i h
    simp [h]
  · rename_i h
    simp only [h, false_and, false_or, ne_eq, not_false_eq_true, true_and]
    cases cl.mint with
    | none => simp
    | some mint =>
      simp only [bind_eq_ok, orFail_eq_ok, require_eq_ok, exists_const, Option.some.injEq,
        forall_eq']
      constructor
      · rintro ⟨t₀, h₀, t₁, h₁, hm₀, hm₁, ht⟩
        exact ⟨⟨t₀, t₁, h₀, h₁, hm₀, hm₁⟩, ht⟩
      · rintro ⟨⟨t₀, t₁, h₀, h₁, hm₀, hm₁⟩, ht⟩
        exact ⟨t₀, h₀, t₁, h₁, hm₀, hm₁, ht⟩

end

end Coin98Vault

import Coin98Vault.Framework.Trace
import Coin98Vault.Program.Handlers

/-!
# What an instruction does

`Accepted` collects what holds of any successful call, and `step_eq_ok` what a step then
leaves in the bank.
-/

namespace Coin98Vault

/-- The account an instruction creates, and its size. -/
def Instruction.created? : Instruction → Option (Pubkey × Nat)
  | .createVault x _ => some (x.vault, 16 + Vault.size)
  | .createSchedule x a => some (x.schedule, 16 + Schedule.size a.userCount)
  | _ => none

/-- The vault whose assets an instruction moves, and the address that signs for them. -/
def Instruction.payer? : Instruction → Option (Pubkey × Pubkey)
  | .withdrawSol x _ => some (x.vault, x.vaultSigner)
  | .withdrawToken x _ => some (x.vault, x.vaultSigner)
  | .redeemToken x _ => some (x.vault, x.vaultSigner)
  | .redeemTokenMulti x _ => some (x.vault, x.vaultSigner)
  | _ => none

theorem Instruction.created?_of_claim? {i : Instruction} {cl : Claim} (h : i.claim? = some cl) :
    i.created? = none := by
  cases i <;> simp only [Instruction.claim?, reduceCtorEq] at h <;> rfl

theorem Instruction.payer?_of_claim? {i : Instruction} {cl : Claim} (h : i.claim? = some cl) :
    i.payer? = some (cl.accounts.vault, cl.accounts.vaultSigner) := by
  cases i <;> simp only [Instruction.claim?, reduceCtorEq, Option.some.injEq] at h <;>
    subst h <;> rfl

/-- The keys that can authorise a transfer of the call. -/
def Call.Authorises (c : Call) (k : Pubkey) : Prop :=
  k ∈ c.signers ∨ ∃ vault, c.instruction.payer? = some (vault, k)

/-- What holds of a call that succeeds: its guards and the value it writes. -/
inductive Accepted (rt : Runtime) (tx : Tx) (b : Bank) :
    Instruction → Option (Pubkey × Value) → Prop
  | createVault {x : CreateVaultContext} {vaultPath : Bytes} {bump signerNonce : UInt8}
      {vaultSigner : Pubkey} (signed : x.owner ∈ tx.signers)
      (unused : (b x.vault).content = .wallet)
      (address : rt.findProgramAddress [vaultSeed1, vaultPath] = some (x.vault, bump))
      (nonce : rt.findProgramAddress [signerSeed1, x.vault.bytes] =
        some (vaultSigner, signerNonce)) :
      Accepted rt tx b (.createVault x vaultPath)
        (some (x.vault, .vault ⟨.vault, signerNonce, x.owner, systemProgramId, []⟩))
  | setVault {x : SetVaultContext} {admins : List Pubkey} {v : Vault}
      (vault : b.vault? x.vault = some v) (signed : x.owner ∈ tx.signers)
      (owner : x.owner = v.owner) :
      Accepted rt tx b (.setVault x admins) (some (x.vault, .vault { v with admins }))
  | createSchedule {x : CreateScheduleContext} {a : CreateScheduleArgs} {v : Vault} {bump : UInt8}
      (vault : b.vault? x.vault = some v) (signed : x.admin ∈ tx.signers)
      (admin : v.IsAdmin x.admin) (unused : (b x.schedule).content = .wallet)
      (address : rt.findProgramAddress [scheduleSeed1, deriveEventId a.eventId] =
        some (x.schedule, bump)) :
      Accepted rt tx b (.createSchedule x a)
        (some (x.schedule, .schedule (a.schedule x.vault bump)))
  | setScheduleStatus {x : SetScheduleContext} {isActive : Bool} {v : Vault} {s : Schedule}
      (vault : b.vault? x.vault = some v) (schedule : b.schedule? x.schedule = some s)
      (signed : x.admin ∈ tx.signers) (link : s.vaultId = x.vault) (admin : v.IsAdmin x.admin) :
      Accepted rt tx b (.setScheduleStatus x isActive)
        (some (x.schedule, .schedule { s with isActive }))
  | withdrawSol {x : WithdrawSolContext} {amount : UInt64} {v : Vault}
      (vault : b.vault? x.vault = some v) (signed : x.admin ∈ tx.signers)
      (admin : v.IsAdmin x.admin)
      (vaultSigner : rt.createProgramAddress (signerSeeds x.vault v) = some x.vaultSigner) :
      Accepted rt tx b (.withdrawSol x amount) none
  | withdrawToken {x : WithdrawTokenContext} {amount : UInt64} {v : Vault}
      (vault : b.vault? x.vault = some v) (signed : x.admin ∈ tx.signers)
      (admin : v.IsAdmin x.admin)
      (vaultSigner : rt.createProgramAddress (signerSeeds x.vault v) = some x.vaultSigner) :
      Accepted rt tx b (.withdrawToken x amount) none
  | claim {i : Instruction} {cl : Claim} {v : Vault} {s : Schedule} (h : i.claim? = some cl)
      (admitted : cl.Admitted rt tx b v s) :
      Accepted rt tx b i (some (cl.accounts.schedule, .schedule (s.redeem cl.args.index)))
  | transferOwnership {x : TransferOwnershipContext} {newOwner : Pubkey} {v : Vault}
      (vault : b.vault? x.vault = some v) (signed : x.owner ∈ tx.signers)
      (owner : x.owner = v.owner) :
      Accepted rt tx b (.transferOwnership x newOwner) (some (x.vault, .vault { v with newOwner }))
  | acceptOwnership {x : AcceptOwnershipContext} {v : Vault}
      (vault : b.vault? x.vault = some v) (signed : x.newOwner ∈ tx.signers)
      (nominee : x.newOwner = v.newOwner) :
      Accepted rt tx b (.acceptOwnership x) (some (x.vault,
        .vault { v with owner := v.newOwner, newOwner := systemProgramId }))

/-- The bank that a handler hands over: transfers have run, and an account may be fresh. -/
def Moved (rt : Runtime) (c : Call) (b b' : Bank) : Prop :=
  ∃ b₁, Transfers rt c.Authorises b b₁ ∧
    b' = match c.instruction.created? with
      | none => b₁
      | some (k, space) => b₁.setContent k (.program (List.replicate space 0))

section
variable {rt : Runtime}

theorem MaySign.authorises {c : Call} {vault k vaultSigner : Pubkey} {v : Vault}
    (hp : c.instruction.payer? = some (vault, vaultSigner))
    (hs : rt.createProgramAddress (signerSeeds vault v) = some vaultSigner)
    (h : MaySign rt c.toTx [signerSeeds vault v] k) : c.Authorises k := by
  rcases h with h | ⟨seeds, hmem, hk⟩
  · exact .inl h
  · obtain rfl : seeds = signerSeeds vault v := by simpa using hmem
    obtain rfl : vaultSigner = k := Option.some.inj (hs.symm.trans hk)
    exact .inr ⟨vault, hp⟩

theorem MaySign.signed {tx : Tx} {k : Pubkey} (h : MaySign rt tx [] k) : k ∈ tx.signers := by
  simpa [MaySign] using h

theorem transferLamport_transfers {tx : Tx} {b b' : Bank} {owner recipient : Pubkey}
    {amount : UInt64} {seeds : List (List Bytes)} {keys : Pubkey → Prop}
    (hkeys : ∀ k, MaySign rt tx seeds k → keys k)
    (h : transferLamport rt tx b owner recipient amount seeds = .ok b') :
    Transfers rt keys b b' := by
  obtain ⟨-, -, hsign, hp⟩ := invokeSigned_eq_ok.mp h
  exact .single (hkeys owner (by simpa [systemTransfer] using hsign)) (.lamports recipient amount hp)

theorem transferToken_transfers {tx : Tx} {b b' : Bank} {owner source target : Pubkey}
    {amount : UInt64} {seeds : List (List Bytes)} {keys : Pubkey → Prop}
    (hkeys : ∀ k, MaySign rt tx seeds k → keys k)
    (h : transferToken rt tx b owner source target amount seeds = .ok b') :
    Transfers rt keys b b' := by
  obtain ⟨-, -, -, hsign, hp⟩ := transferToken_eq_ok.mp h
  exact .single (hkeys owner hsign) (.tokens source target amount hp)

private theorem init_transfers {c : Call} {b b' : Bank} {payer k : Pubkey} {seeds : List Bytes}
    {space : Nat} {bump : UInt8} (hrt : rt.Lawful)
    (h : init rt c.toTx b payer k seeds space = .ok (b', bump)) :
    ∃ b₁, Transfers rt c.Authorises b b₁ ∧
      b' = b₁.setContent k (.program (List.replicate space 0)) := by
  obtain ⟨-, -, -, -, -, b₁, hfund, rfl⟩ := (init_eq_ok hrt).mp h
  refine ⟨b₁, ?_, rfl⟩
  unfold fund at hfund
  split at hfund
  · exact transferLamport_transfers (fun _ hk => .inl hk.signed) hfund
  · rw [pure_eq_ok.mp hfund]
    exact .refl

/-- The guards of a successful call, and the transfers it has made. -/
theorem handle_eq_ok (hrt : rt.Lawful) {b : Bank} {c : Call} {o : Outcome}
    (h : handle rt c.toTx b c.instruction = .ok o) :
    Accepted rt c.toTx b c.instruction o.written ∧ Moved rt c b o.bank := by
  obtain ⟨tx, i⟩ := c
  unfold Moved
  cases hi : i.claim? with
  | some cl =>
    obtain ⟨v, s, b₁, b₂, hadm, hfee, hpay, rfl⟩ := (handle_claim_eq_ok hi).mp h
    have hkeys (k : Pubkey) (hk : MaySign rt tx [signerSeeds cl.accounts.vault v] k) :
        Call.Authorises ⟨tx, i⟩ k :=
      hk.authorises (c := ⟨tx, i⟩) (Instruction.payer?_of_claim? hi) hadm.vaultSigner
    have hfirst : Transfers rt (Call.Authorises ⟨tx, i⟩) b b₁ := by
      rcases payFee_eq_ok.mp hfee with ⟨-, rfl⟩ | ⟨-, -, u, -, ht⟩
      · exact .refl
      · exact transferToken_transfers (fun _ hk => .inl hk.signed) ht
    have hsecond : Transfers rt (Call.Authorises ⟨tx, i⟩) b₁ b₂ := by
      rcases Claim.payOut_eq_ok.mp hpay with ⟨-, ht⟩ | ⟨-, -, ht⟩
      · exact transferLamport_transfers hkeys ht
      · exact transferToken_transfers hkeys ht
    refine ⟨.claim hi hadm, b₂, hfirst.trans hsecond, ?_⟩
    simp only [Instruction.created?_of_claim? hi]
  | none =>
    cases i with
    | createVault x vaultPath =>
      obtain ⟨hs, -, -, b₁, bump, k, n, hinit, hfind, rfl⟩ := (createVault_eq_ok hrt).mp h
      obtain ⟨haddr, -, -, hwallet, -⟩ := (init_eq_ok hrt).mp hinit
      exact ⟨.createVault hs hwallet haddr hfind,
        init_transfers (c := ⟨tx, .createVault x vaultPath⟩) hrt hinit⟩
    | setVault x admins =>
      obtain ⟨v, hv, hs, -, ho, rfl⟩ := setVault_eq_ok.mp h
      exact ⟨.setVault hv hs ho, b, .refl, rfl⟩
    | createSchedule x a =>
      obtain ⟨v, hv, hs, -, hadmin, -, b₁, bump, hinit, rfl⟩ := (createSchedule_eq_ok hrt).mp h
      obtain ⟨haddr, -, -, hwallet, -⟩ := (init_eq_ok hrt).mp hinit
      exact ⟨.createSchedule hv hs hadmin hwallet haddr,
        init_transfers (c := ⟨tx, .createSchedule x a⟩) hrt hinit⟩
    | setScheduleStatus x isActive =>
      obtain ⟨v, s, hv, hsch, hs, -, -, -, hlink, hadmin, rfl⟩ := setScheduleStatus_eq_ok.mp h
      exact ⟨.setScheduleStatus hv hsch hs hlink hadmin, b, .refl, rfl⟩
    | withdrawSol x amount =>
      obtain ⟨v, b', hv, hs, -, -, -, -, hseeds, hadmin, hpay, rfl⟩ := withdrawSol_eq_ok.mp h
      exact ⟨.withdrawSol hv hs hadmin hseeds, b', transferLamport_transfers
        (fun _ hk => hk.authorises (c := ⟨tx, .withdrawSol x amount⟩) rfl hseeds) hpay, rfl⟩
    | withdrawToken x amount =>
      obtain ⟨v, b', hv, hs, -, -, -, -, hseeds, hadmin, hpay, rfl⟩ := withdrawToken_eq_ok.mp h
      exact ⟨.withdrawToken hv hs hadmin hseeds, b', transferToken_transfers
        (fun _ hk => hk.authorises (c := ⟨tx, .withdrawToken x amount⟩) rfl hseeds) hpay, rfl⟩
    | redeemToken x a => simp [Instruction.claim?] at hi
    | redeemTokenMulti x a => simp [Instruction.claim?] at hi
    | transferOwnership x newOwner =>
      obtain ⟨v, hv, hs, -, ho, rfl⟩ := transferOwnership_eq_ok.mp h
      exact ⟨.transferOwnership hv hs ho, b, .refl, rfl⟩
    | acceptOwnership x =>
      obtain ⟨v, hv, hs, -, ho, rfl⟩ := acceptOwnership_eq_ok.mp h
      exact ⟨.acceptOwnership hv hs ho, b, .refl, rfl⟩

theorem step_eq_ok_iff {b b' : Bank} {c : Call} :
    step rt b c = .ok b' ↔ ∃ o, handle rt c.toTx b c.instruction = .ok o ∧ exit o = .ok b' := by
  simp only [step, bind_eq_ok]

/-- The bytes of an account when a call writes to it: those of a fresh one are zero. -/
def Call.dataOf (c : Call) (b : Bank) (k : Pubkey) : Option Bytes :=
  match c.instruction.created? with
  | some (x, space) => if k = x then some (List.replicate space 0) else b.data? k
  | none => b.data? k

/-- All that a successful step does to the bank. -/
structure Stepped (rt : Runtime) (b : Bank) (c : Call) (b' : Bank) (w : Option (Pubkey × Value)) :
    Prop where
  accepted : Accepted rt c.toTx b c.instruction w
  /-- The written account holds its new value. -/
  stored : ∀ k val, w = some (k, val) →
    ∃ d d', c.dataOf b k = some d ∧ val.write d = some d' ∧ (b' k).content = .program d'
  /-- All others are what they were, but for the balances of token accounts. -/
  others : ∀ k, (∀ val, w ≠ some (k, val)) → (b k).content.Evolves (b' k).content
  /-- Keys that authorise nothing lose nothing. -/
  keeps : Bank.Keeps (fun p => ¬ c.Authorises p) b b'

theorem Bank.Keeps.setContent {b b' : Bank} {idle : Pubkey → Prop} {k : Pubkey} {c : Content}
    (h : Bank.Keeps idle b b') (hk : b.token? k = none) :
    Bank.Keeps idle b (b'.setContent k c) := by
  refine ⟨fun p hp => ?_, fun x t ht hidle => ?_⟩
  · rw [Bank.setContent_lamports]
    exact h.lamports p hp
  obtain ⟨t', ht', hrest⟩ := h.tokens x t ht hidle
  exact ⟨t', (b'.setContent_token? c (Bank.ne_of_token? ht hk)).trans ht', hrest⟩

theorem Accepted.created {tx : Tx} {b : Bank} {i : Instruction} {w : Option (Pubkey × Value)}
    (h : Accepted rt tx b i w) {k : Pubkey} {space : Nat} (hi : i.created? = some (k, space)) :
    (b k).content = .wallet ∧ ∃ val, w = some (k, val) := by
  cases h with
  | createVault _ unused =>
    obtain ⟨rfl, -⟩ : _ = k ∧ _ = space := by simpa [Instruction.created?] using hi
    exact ⟨unused, _, rfl⟩
  | createSchedule _ _ _ unused =>
    obtain ⟨rfl, -⟩ : _ = k ∧ _ = space := by simpa [Instruction.created?] using hi
    exact ⟨unused, _, rfl⟩
  | claim hcl =>
    rw [Instruction.created?_of_claim? hcl] at hi
    cases hi
  | _ => simp [Instruction.created?] at hi

/-- What is written is not a token account. -/
theorem Accepted.token?_of_dataOf {c : Call} {b : Bank} {w : Option (Pubkey × Value)}
    (h : Accepted rt c.toTx b c.instruction w) {k : Pubkey} {d : Bytes}
    (hd : c.dataOf b k = some d) : b.token? k = none := by
  have hother (hk : b.data? k = some d) : b.token? k = none :=
    Bank.token?_of_program (Bank.data?_eq_some.mp hk)
  unfold Call.dataOf at hd
  rcases hcr : c.instruction.created? with _ | ⟨x, space⟩ <;> simp only [hcr] at hd
  · exact hother hd
  · split at hd
    · rename_i he
      subst he
      simp [Bank.token?, (h.created hcr).1]
    · exact hother hd

private theorem Moved.spec (hrt : rt.Lawful) {c : Call} {b b' : Bank} {w : Option (Pubkey × Value)}
    (hacc : Accepted rt c.toTx b c.instruction w) (h : Moved rt c b b') :
    (∀ k d, (b' k).content = .program d → c.dataOf b k = some d) ∧
      (∀ k, (∀ val, w ≠ some (k, val)) → (b k).content.Evolves (b' k).content) ∧
      Bank.Keeps (fun p => ¬ c.Authorises p) b b' := by
  obtain ⟨b₁, hmoved, hb'⟩ := h
  have hev := hmoved.evolves hrt
  have hdata (k : Pubkey) (d : Bytes) (hk : (b₁ k).content = .program d) : b.data? k = some d := by
    rw [Bank.data?_eq_some]
    cases ht : b.token? k with
    | none => rw [← hev.content ht, hk]
    | some t =>
      obtain ⟨t', ht', -⟩ := hev.token ht
      rw [Bank.token?_eq_some, hk] at ht'
      cases ht'
  unfold Call.dataOf
  rcases hcr : c.instruction.created? with _ | ⟨x, space⟩
  · simp only [hcr] at hb'
    subst hb'
    exact ⟨hdata, fun k _ => hev k, hmoved.keeps hrt⟩
  · simp only [hcr] at hb'
    subst hb'
    obtain ⟨hwallet, val, rfl⟩ := hacc.created hcr
    refine ⟨fun k d hk => ?_, fun k hk => ?_, ?_⟩
    · dsimp only
      split
      · rename_i he
        subst he
        simpa using hk
      · rename_i he
        rw [Bank.setContent_of_ne _ _ he] at hk
        exact hdata k d hk
    · rw [Bank.setContent_of_ne]
      · exact hev k
      · rintro rfl
        exact hk val rfl
    · refine (hmoved.keeps hrt).setContent ?_
      simp [Bank.token?, hwallet]

theorem step_eq_ok (hrt : rt.Lawful) {b b' : Bank} {c : Call} (h : step rt b c = .ok b') :
    ∃ w, (∃ bank, handle rt c.toTx b c.instruction = .ok ⟨bank, w⟩) ∧ Stepped rt b c b' w := by
  obtain ⟨⟨bank, w⟩, hh, hexit⟩ := step_eq_ok_iff.mp h
  obtain ⟨hacc, hmoved⟩ := handle_eq_ok hrt hh
  obtain ⟨hdata, hothers, hkeeps⟩ := hmoved.spec hrt hacc
  refine ⟨w, ⟨bank, hh⟩, ?_⟩
  cases w with
  | none =>
    obtain rfl := exit_none.mp hexit
    exact ⟨hacc, nofun, hothers, hkeeps⟩
  | some kv =>
    obtain ⟨k, val⟩ := kv
    obtain ⟨d, d', hd, hw, rfl⟩ := exit_some.mp hexit
    refine ⟨hacc, ?_, fun x hx => ?_, ?_⟩
    · rintro _ _ ⟨⟩
      exact ⟨d, d', hdata k d hd, hw, Bank.setContent_content_self _ _ _⟩
    · rw [Bank.setContent_of_ne]
      · exact hothers x hx
      · rintro rfl
        exact hx val rfl
    · exact hkeeps.setContent (hacc.token?_of_dataOf (hdata k d hd))

theorem Stepped.value?_written {b b' : Bank} {c : Call} {k : Pubkey} {val : Value}
    (h : Stepped rt b c b' (some (k, val))) : b'.value? k = some val := by
  obtain ⟨d, d', -, hwrite, hk⟩ := h.stored k val rfl
  exact Value.value?_of_write hwrite hk

/-- The values a step leaves: the one it wrote, and all others as they were. -/
theorem Stepped.value? {b b' : Bank} {c : Call} {w : Option (Pubkey × Value)}
    (h : Stepped rt b c b' w) (k : Pubkey) :
    (∃ val, w = some (k, val) ∧ b'.value? k = some val) ∨
      ((∀ val, w ≠ some (k, val)) ∧ b'.value? k = b.value? k) := by
  by_cases hw : ∃ val, w = some (k, val)
  · obtain ⟨val, rfl⟩ := hw
    exact .inl ⟨val, rfl, h.value?_written⟩
  · rw [not_exists] at hw
    exact .inr ⟨hw, Bank.value?_of_evolves (h.others k hw)⟩

end

end Coin98Vault

import Rustchain.Bridge.Operations
import Rustchain.Lib.Keys
import Rustchain.Lib.Runs

/-! # The lifecycle of a transfer

The intended order of the statuses: a transfer is opened, validated, completed; a transfer that is
completed, failed, expired or refunded stays so, and nothing is validated or completed after its
time. No operation looks at all of this. What has to hold of each call for a run to keep the order
is `Orderly`. -/

namespace Rustchain.Bridge

open Rustchain.Core Lib.Machine Lib.Maps Lib.Runs Lib.Keys

def BridgeTransferStatus.Terminal (s : BridgeTransferStatus) : Prop :=
  s = .completed ∨ s = .failed ∨ s = .expired ∨ s = .refunded

def BridgeTransferStatus.Open (s : BridgeTransferStatus) : Prop :=
  s = .pending ∨ s = .sourceConfirmed ∨ s = .relaySubmitted

instance (s : BridgeTransferStatus) : Decidable s.Terminal := by
  unfold BridgeTransferStatus.Terminal
  infer_instance

instance (s : BridgeTransferStatus) : Decidable s.Open := by
  unfold BridgeTransferStatus.Open
  infer_instance

theorem BridgeTransferStatus.Open.not_terminal {s : BridgeTransferStatus} (h : s.Open) :
    ¬ s.Terminal := by
  cases s <;> simp_all [Open, Terminal]

/-- The clock reading of a call that writes a transfer; the calls that write none have `0`. -/
def BridgeOp.now : BridgeOp → ℕ
  | .initiateOutbound _ _ _ _ _ _ now _ | .recordInbound _ _ _ _ _ _ _ now _
  | .processInboundEvent _ _ _ _ _ _ now _ | .processOutboundRequest _ _ _ _ _ now _
  | .addConfirmation _ _ now | .submitConfirmation _ _ now | .finalizeTransfer _ _ now
  | .completeTransfer _ _ now | .failTransfer _ now => now
  | .pause | .unpause | .addValidator .. | .removeValidator .. | .registerAdapter .. => 0

namespace BridgeRelayer

def after (r : BridgeRelayer) (ops : List BridgeOp) : BridgeRelayer :=
  ops.foldl (fun r op => (r.call op).2) r

theorem after_concat (r : BridgeRelayer) (ops : List BridgeOp) (op : BridgeOp) :
    r.after (ops ++ [op]) = ((r.after ops).call op).2 := by
  unfold after
  rw [List.foldl_append]
  rfl

end BridgeRelayer

/-- How a transfer may have come to be completed or validated at the time `now`, given what stood
under its id before. -/
def Entered (old : Option BridgeTransfer) (t' : BridgeTransfer) (now : ℕ) : Prop :=
  (t'.status = .completed → ∃ t, old = some t ∧
    (t.status = .completed ∨ t.status = .validated ∧ now ≤ t'.expiresAt)) ∧
  (t'.status = .validated → ∃ t, old = some t ∧
    (t.status = .validated ∨ t.status.Open ∧ now ≤ t'.expiresAt))

/-- The lifecycle along a run: a status in which a transfer ends stays, and transfers are completed
only from validated, validated only from the statuses before it, both in time. -/
structure LifecycleKept (r : BridgeRelayer) (ops : List BridgeOp) : Prop where
  final : ∀ p q, p <+: q → q <+: ops → ∀ id t, (r.after p).state.getTransfer id = some t →
    t.status.Terminal → ∃ t', (r.after q).state.getTransfer id = some t' ∧ t'.status = t.status
  entered : ∀ p op, p ++ [op] <+: ops → ∀ id t',
    (r.after (p ++ [op])).state.getTransfer id = some t' →
    Entered ((r.after p).state.getTransfer id) t' op.now

/-- What has to hold of a write:
* the id of a new transfer is not that of a transfer that has ended;
* a confirmation that reaches the threshold meets a validated transfer, or one before validation in
  its time;
* a validated transfer is completed in its time, and no other but a completed one;
* a transfer that has ended otherwise than by failing is not failed. -/
def BridgeState.Orderly (s : BridgeState) : Write → Prop
  | .nothing => True
  | .opened t => ∀ old, s.getTransfer t.id = some old → ¬ old.status.Terminal
  | .confirmed id _ now => ∀ t, s.getTransfer id = some t →
    t.requiredConfirmations ≤ (addU 64 t.confirmations 1).val →
    t.status = .validated ∨ t.status.Open ∧ now ≤ t.expiresAt
  | .completed id now => ∀ t, s.getTransfer id = some t →
    t.status = .completed ∨ t.status = .validated ∧ now ≤ t.expiresAt
  | .failed id _ => ∀ t, s.getTransfer id = some t → t.status = .failed ∨ ¬ t.status.Terminal

instance (s : BridgeState) (w : Write) : Decidable (s.Orderly w) := by
  cases w with
  | nothing => exact .isTrue trivial
  | opened t => exact Option.decidableForallMem _
  | confirmed id validator now => exact Option.decidableForallMem _
  | completed id now => exact Option.decidableForallMem _
  | failed id now => exact Option.decidableForallMem _

/-! ### One write -/

/-- The lifecycle across one write. -/
def Kept (s s' : BridgeState) (now : ℕ) : Prop :=
  (∀ id t, s.getTransfer id = some t → t.status.Terminal →
    ∃ t', s'.getTransfer id = some t' ∧ t'.status = t.status) ∧
  ∀ id t', s'.getTransfer id = some t' → Entered (s.getTransfer id) t' now

theorem Entered.refl (t : BridgeTransfer) (now : ℕ) : Entered (some t) t now :=
  ⟨fun h => ⟨t, rfl, .inl h⟩, fun h => ⟨t, rfl, .inl h⟩⟩

variable {now : ℕ}

theorem Entered.of_open {old : Option BridgeTransfer} {t' : BridgeTransfer} (h : t'.status.Open) :
    Entered old t' now := by
  constructor
  · intro hc
    simp [hc, BridgeTransferStatus.Open] at h
  · intro hv
    simp [hv, BridgeTransferStatus.Open] at h

theorem kept_write_iff {s s' : BridgeState} {id : String} {t' : BridgeTransfer}
    (h : ∀ k, s'.getTransfer k = if k = id then some t' else s.getTransfer k) :
    Kept s s' now ↔
      (∀ t, s.getTransfer id = some t → t.status.Terminal → t'.status = t.status) ∧
      Entered (s.getTransfer id) t' now := by
  have hid : s'.getTransfer id = some t' := by rw [h, if_pos rfl]
  constructor
  · rintro ⟨hfinal, hentered⟩
    refine ⟨fun t ht hterm => ?_, hentered id t' hid⟩
    obtain ⟨u, hu, hstatus⟩ := hfinal id t ht hterm
    rwa [Option.some.inj (hid.symm.trans hu)]
  · rintro ⟨hfinal, hentered⟩
    refine ⟨fun k t ht hterm => ?_, fun k u hu => ?_⟩
    · by_cases hk : k = id
      · subst hk
        exact ⟨t', hid, hfinal t ht hterm⟩
      · exact ⟨t, by rw [h, if_neg hk, ht], rfl⟩
    · by_cases hk : k = id
      · subst hk
        obtain rfl := Option.some.inj (hid.symm.trans hu)
        exact hentered
      · rw [h, if_neg hk] at hu
        rw [hu]
        exact Entered.refl u now

variable {t : BridgeTransfer}

theorem kept_opened_iff {s s' : BridgeState} (h : BridgeState.Opened s t s')
    (hopen : t.status.Open) : Kept s s' now ↔ s.Orderly (.opened t) := by
  rw [kept_write_iff h.getTransfer]
  constructor
  · rintro ⟨hfinal, -⟩ old hold hterm
    have := hfinal old hold hterm
    exact hopen.not_terminal (this ▸ hterm)
  · intro ho
    exact ⟨fun old hold hterm => absurd hterm (ho old hold), Entered.of_open hopen⟩

theorem kept_confirmed_iff {s : BridgeState} {id : String} {validator : Address}
    (ht : s.getTransfer id = some t) :
    Kept s (s.put id (BridgeState.confirmed t now)) now ↔
      s.Orderly (.confirmed id validator now) := by
  rw [kept_write_iff fun k => BridgeState.getTransfer_put s id k _]
  simp only [BridgeState.Orderly]
  rw [ht]
  by_cases hle : t.requiredConfirmations ≤ (addU 64 t.confirmations 1).val
  · have hv : (BridgeState.confirmed t now).status = .validated := if_pos hle
    simp only [Entered, hv, Option.some.injEq, forall_eq', exists_eq_left', hle, true_implies,
      reduceCtorEq, false_implies, true_and]
    constructor
    · exact fun h => h.2
    · intro h
      refine ⟨fun hterm => ?_, h⟩
      rcases h with h | ⟨h, -⟩
      · exact h.symm
      · exact absurd hterm h.not_terminal
  · have hs : (BridgeState.confirmed t now).status = t.status := if_neg hle
    refine iff_of_true ⟨fun u hu _ => ?_, ?_⟩ fun u hu hreq => ?_
    · rw [hs, Option.some.inj hu]
    · exact ⟨fun hc => ⟨t, rfl, .inl (hs ▸ hc)⟩, fun hc => ⟨t, rfl, .inl (hs ▸ hc)⟩⟩
    · obtain rfl := Option.some.inj hu
      exact absurd hreq hle

theorem kept_completed_iff {s : BridgeState} {id destTx : String} (ht : s.getTransfer id = some t) :
    Kept s (s.put id (BridgeState.completed t destTx now)) now ↔ s.Orderly (.completed id now) := by
  rw [kept_write_iff fun k => BridgeState.getTransfer_put s id k _]
  simp only [BridgeState.Orderly]
  rw [ht]
  simp only [Entered, BridgeState.completed, Option.some.injEq, forall_eq', exists_eq_left',
    true_implies, reduceCtorEq, false_implies, and_true]
  constructor
  · exact fun h => h.2
  · intro h
    refine ⟨fun hterm => ?_, h⟩
    rcases h with h | ⟨h, -⟩
    · exact h.symm
    · simp [h, BridgeTransferStatus.Terminal] at hterm

theorem kept_failed_iff {s : BridgeState} {id : String} (ht : s.getTransfer id = some t) :
    Kept s (s.put id (BridgeState.failed t now)) now ↔ s.Orderly (.failed id now) := by
  rw [kept_write_iff fun k => BridgeState.getTransfer_put s id k _]
  simp only [BridgeState.Orderly]
  rw [ht]
  simp only [Entered, BridgeState.failed, Option.some.injEq, forall_eq', reduceCtorEq,
    false_implies, and_true]
  constructor
  · intro h
    by_cases hterm : t.status.Terminal
    · exact .inl (h hterm).symm
    · exact .inr hterm
  · rintro (h | h) hterm
    · exact h.symm
    · exact absurd hterm h

theorem now_written {r : BridgeRelayer} {op : BridgeOp} {now : ℕ}
    (h : (∃ id validator, r.written op = .confirmed id validator now) ∨
      (∃ id, r.written op = .completed id now) ∨ ∃ id, r.written op = .failed id now) :
    op.now = now := by
  unfold BridgeRelayer.written at h
  split at h
  · cases op <;> simp_all [BridgeOp.write, BridgeOp.now]
  · simp at h

theorem kept_call_iff (r : BridgeRelayer) (op : BridgeOp) :
    Kept r.state (r.call op).2.state op.now ↔ r.state.Orderly (r.written op) := by
  have hw := r.writes_call op
  have hnow := @now_written r op
  generalize (r.call op).2.state = s' at hw ⊢
  generalize r.written op = w at hw hnow ⊢
  cases hw with
  | nothing h =>
    refine iff_of_true ⟨fun id t ht _ => ⟨t, by rw [h.getTransfer, ht], rfl⟩, fun id t' ht' => ?_⟩
      trivial
    rw [h.getTransfer] at ht'
    rw [ht']
    exact Entered.refl t' _
  | outbound h _ _ hstatus => exact kept_opened_iff h (.inl hstatus)
  | inbound h _ _ hstatus => exact kept_opened_iff h (.inr (.inl hstatus))
  | confirmed ht hstatus =>
    rw [hnow (.inl ⟨_, _, rfl⟩)]
    exact kept_confirmed_iff ht
  | completed destTx ht =>
    rw [hnow (.inr (.inl ⟨_, rfl⟩))]
    exact kept_completed_iff ht
  | failed ht =>
    rw [hnow (.inr (.inr ⟨_, rfl⟩))]
    exact kept_failed_iff ht

/-! ### Runs -/

theorem final_of_kept {r : BridgeRelayer} {p l : List BridgeOp}
    (h : ∀ l' op, l' ++ [op] <+: l →
      Kept (r.after (p ++ l')).state (r.after (p ++ l' ++ [op])).state op.now)
    {id : String} (ht : (r.after p).state.getTransfer id = some t) (hterm : t.status.Terminal) :
    ∃ t', (r.after (p ++ l)).state.getTransfer id = some t' ∧ t'.status = t.status := by
  induction l using List.reverseRecOn with
  | nil => exact ⟨t, by rwa [List.append_nil], rfl⟩
  | append_singleton l op ih =>
    obtain ⟨u, hu, hstatus⟩ := ih fun l' op' hl' => h l' op' (hl'.trans (List.prefix_append l [op]))
    have hstep := h l op (List.prefix_refl _)
    obtain ⟨t', ht', hs⟩ := hstep.1 id u hu (hstatus ▸ hterm)
    exact ⟨t', by rwa [← List.append_assoc], hs.trans hstatus⟩

theorem LifecycleKept.orderly {r : BridgeRelayer} {ops : List BridgeOp} (h : LifecycleKept r ops)
    {p : List BridgeOp} {op : BridgeOp} (hp : p ++ [op] <+: ops) :
    (r.after p).state.Orderly ((r.after p).written op) := by
  refine (kept_call_iff _ op).mp ?_
  have hfinal := h.final p (p ++ [op]) (List.prefix_append p [op]) hp
  have hentered := h.entered p op hp
  rw [r.after_concat] at hfinal hentered
  exact ⟨hfinal, hentered⟩

/-- **The lifecycle is kept along a run exactly when every call of it is orderly**: when the
statuses and the times that the operations do not check are right at every call. -/
theorem lifecycleKept_iff (r : BridgeRelayer) (ops : List BridgeOp) :
    LifecycleKept r ops ↔ ∀ p op, p ++ [op] <+: ops →
      (r.after p).state.Orderly ((r.after p).written op) := by
  constructor
  · exact fun h p op hp => h.orderly hp
  · intro h
    have hkept : ∀ p op, p ++ [op] <+: ops →
        Kept (r.after p).state (r.after (p ++ [op])).state op.now := by
      intro p op hp
      rw [r.after_concat]
      exact (kept_call_iff _ op).mpr (h p op hp)
    refine ⟨fun p q hpq hq id t ht hterm => ?_, fun p op hp => (hkept p op hp).2⟩
    obtain ⟨l, rfl⟩ := hpq
    refine final_of_kept (fun l' op hl' => hkept (p ++ l') op ?_) ht hterm
    rw [List.append_assoc]
    exact ((List.prefix_append_right_inj p).mpr hl').trans hq

/-- A validator and a transfer that needs its confirmation alone. -/
def requested : List BridgeOp :=
  [.addValidator (party 1) ⟨Vector.replicate 32 1⟩ 100 1,
    .initiateOutbound (party 3) .ethereum "0xrecipient" "RCT" 10000 10 3 3]

/-- A transfer is validated after it failed, fails after it was completed, and is validated after
its time. -/
theorem not_lifecycleKept :
    ¬ LifecycleKept (.fresh ⟨1, 10, true, true⟩ ∅ ∅)
      (requested ++ [.failTransfer "bridge-3-1" 4] ++
        [.submitConfirmation "bridge-3-1" (party 1) 5]) ∧
    ¬ LifecycleKept (.fresh ⟨1, 10, true, true⟩ ∅ ∅)
      (requested ++ [.submitConfirmation "bridge-3-1" (party 1) 4,
        .finalizeTransfer "bridge-3-1" (fun _ => .ok "0xtx") 5] ++
        [.failTransfer "bridge-3-1" 6]) ∧
    ¬ LifecycleKept (.fresh ⟨1, 10, true, true⟩ ∅ ∅)
      (requested ++ [.submitConfirmation "bridge-3-1" (party 1) 20000]) := by
  refine ⟨fun h => ?_, fun h => ?_, fun h => ?_⟩
  · exact absurd (h.orderly (List.prefix_refl _)) (by decide +kernel)
  · exact absurd (h.orderly (List.prefix_refl _)) (by decide +kernel)
  · exact absurd (h.orderly (List.prefix_refl _)) (by decide +kernel)

/-! ### Ids

The only way in which a new transfer replaces an old one is that both have the same id. The counter
in the id rules that out until it wraps. -/

/-- The id that `next_id` makes of the time and the counter. -/
def bridgeId (now counter : ℕ) : String := s!"bridge-{now}-{counter}"

theorem toList_bridgeId (now counter : ℕ) : (bridgeId now counter).toList =
    ("bridge-".toList ++ Nat.toDigits 10 now) ++ '-' :: Nat.toDigits 10 counter := by
  simp only [bridgeId, String.toList_append, Nat.toString_eq_ofList_toDigits, String.toList_ofList,
    List.append_assoc]
  rfl

theorem dash_notMem_toDigits (n : ℕ) : '-' ∉ Nat.toDigits 10 n := by
  intro h
  exact absurd (Nat.isDigit_of_mem_toDigits (by decide) (by decide) h) (by decide)

theorem counter_eq_of_bridgeId_eq {m n c d : ℕ} (h : bridgeId m c = bridgeId n d) : c = d := by
  have hl := congrArg String.toList h
  rw [toList_bridgeId, toList_bridgeId] at hl
  have hdigits := (cut_last (dash_notMem_toDigits c) (dash_notMem_toDigits d) hl).2
  have hread : ∀ n, Nat.ofDigitChars 10 (Nat.toDigits 10 n) 0 = n := fun n =>
    Nat.ofDigitChars_toDigits (by decide) (by decide)
  rw [← hread c, hdigits, hread d]

/-- The ids in the table carry counters up to the present one, which is at most `n`. -/
def IdsUpTo (n : ℕ) (s : BridgeState) : Prop :=
  s.counter ≤ n ∧ ∀ id t, s.getTransfer id = some t → ∃ m c, id = bridgeId m c ∧ c ≤ s.counter

theorem exists_id_opened {s s' : BridgeState} {n : ℕ} (hn : n + 1 < 2 ^ 64) (hids : IdsUpTo n s)
    (h : BridgeState.Opened s t s') :
    s'.counter = s.counter + 1 ∧ ∃ m, t.id = bridgeId m (s.counter + 1) := by
  have hle := hids.1
  have hval : (addU 64 s.counter 1).val = s.counter + 1 := Nat.mod_eq_of_lt (by omega)
  obtain ⟨m, hm⟩ := h.id
  refine ⟨h.counter.trans hval, m, hm.trans ?_⟩
  show bridgeId m (addU 64 s.counter 1).val = _
  rw [hval]

theorem idsUpTo_call {r : BridgeRelayer} {n : ℕ} (hn : n + 1 < 2 ^ 64) (h : IdsUpTo n r.state)
    (op : BridgeOp) : IdsUpTo (n + 1) (r.call op).2.state := by
  have hw := r.writes_call op
  generalize (r.call op).2.state = s' at hw ⊢
  generalize r.written op = w at hw
  obtain ⟨hcounter, hids⟩ := id h
  have opened : ∀ t, BridgeState.Opened r.state t s' → IdsUpTo (n + 1) s' := by
    intro t ho
    obtain ⟨hc, m, hm⟩ := exists_id_opened hn h ho
    refine ⟨by omega, fun k u hu => ?_⟩
    rw [ho.getTransfer] at hu
    split_ifs at hu with hk
    · exact ⟨m, r.state.counter + 1, hk.trans hm, by omega⟩
    · obtain ⟨m', c, hid, hle⟩ := hids k u hu
      exact ⟨m', c, hid, by omega⟩
  have put : ∀ id t t', r.state.getTransfer id = some t → IdsUpTo (n + 1) (r.state.put id t') := by
    intro id t t' ht
    refine ⟨Nat.le_succ_of_le hcounter, fun k u hu => ?_⟩
    rw [BridgeState.getTransfer_put] at hu
    split_ifs at hu with hk
    · exact hids k t (hk ▸ ht)
    · exact hids k u hu
  cases hw with
  | nothing hi =>
    refine ⟨by rw [hi.counter]; omega, fun k u hu => ?_⟩
    rw [hi.getTransfer] at hu
    rw [hi.counter]
    exact hids k u hu
  | outbound ho => exact opened _ ho
  | inbound ho => exact opened _ ho
  | confirmed ht => exact put _ _ _ ht
  | completed _ ht => exact put _ _ _ ht
  | failed ht => exact put _ _ _ ht

theorem idsUpTo_after (config : BridgeConfig) (validators : BridgeValidatorSet)
    (adapters : Finset ExternalChain) {ops : List BridgeOp} (h : ops.length < 2 ^ 64) :
    IdsUpTo ops.length ((BridgeRelayer.fresh config validators adapters).after ops).state := by
  induction ops using List.reverseRecOn with
  | nil => exact ⟨le_rfl, fun id t ht => by cases ht⟩
  | append_singleton ops op ih =>
    rw [List.length_append, List.length_singleton] at h ⊢
    rw [BridgeRelayer.after_concat]
    exact idsUpTo_call h (ih (by omega)) op

theorem getTransfer_opened_eq_none (config : BridgeConfig) (validators : BridgeValidatorSet)
    (adapters : Finset ExternalChain) {p : List BridgeOp} {op : BridgeOp}
    (hlen : (p ++ [op]).length < 2 ^ 64)
    (h : ((BridgeRelayer.fresh config validators adapters).after p).written op = .opened t) :
    ((BridgeRelayer.fresh config validators adapters).after p).state.getTransfer t.id = none := by
  rw [List.length_append, List.length_singleton] at hlen
  have hids := @idsUpTo_after config validators adapters p (by omega)
  generalize (BridgeRelayer.fresh config validators adapters).after p = r at h hids ⊢
  have hw := r.writes_call op
  rw [h] at hw
  have fresh : ∀ s', BridgeState.Opened r.state t s' → r.state.getTransfer t.id = none := by
    intro s' ho
    obtain ⟨-, m, hm⟩ := exists_id_opened hlen hids ho
    cases hold : r.state.getTransfer t.id with
    | none => rfl
    | some old =>
      obtain ⟨m', c, hid, hle⟩ := hids.2 _ old hold
      have := counter_eq_of_bridgeId_eq (hid.symm.trans hm)
      omega
  cases hw with
  | outbound ho => exact fresh _ ho
  | inbound ho => exact fresh _ ho

end Rustchain.Bridge

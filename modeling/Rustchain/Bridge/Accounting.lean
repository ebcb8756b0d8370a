import Rustchain.Bridge.Lifecycle

/-! # The books of the bridge

What is minted and what is locked for a chain and a token is written when a transfer is opened, and
nothing that happens to the transfer later touches it again. The runs are recorded here with the
transfers that were opened; the totals are the sums over that record, wrapped to 128 bits. -/

namespace Rustchain.Bridge

open Rustchain.Core Lib.Machine Lib.Maps Lib.Runs Lib.Keys

/-! ### Keys -/

theorem ExternalChain.colon_notMem_name (c : ExternalChain) : ':' ∉ c.name.toList := by
  cases c <;> decide

theorem ExternalChain.name_injective : Function.Injective ExternalChain.name := by
  intro a b h
  cases a <;> cases b <;> simp_all [ExternalChain.name]

variable (s : BridgeState) (chain : ExternalChain) (token : String)

theorem toList_lockKey :
    (BridgeState.lockKey chain token).toList = chain.name.toList ++ ':' :: token.toList := by
  simp only [BridgeState.lockKey, String.toList_append, List.append_assoc]
  rfl

theorem lockKey_inj {c d : ExternalChain} {t u : String}
    (h : BridgeState.lockKey c t = BridgeState.lockKey d u) : c = d ∧ t = u := by
  have hl := congrArg String.toList h
  rw [toList_lockKey, toList_lockKey] at hl
  obtain ⟨hn, ht⟩ := cut_first c.colon_notMem_name d.colon_notMem_name hl
  exact ⟨ExternalChain.name_injective (String.toList_inj.mp hn), String.toList_inj.mp ht⟩

/-! ### Totals -/

namespace BridgeState

/-- `wrapped.total_minted` of a chain and a token. -/
def minted (s : BridgeState) (chain : ExternalChain) (token : String) : ℕ :=
  ((s.wrapped.lookup (lockKey chain token)).getD ⟨0, 0⟩).totalMinted

/-- `locked` of a chain and a token. -/
def lockedAmount (s : BridgeState) (chain : ExternalChain) (token : String) : ℕ :=
  (s.locked.lookup (lockKey chain token)).getD 0

end BridgeState

namespace BridgeTransfer

/-- A transfer of the token from the chain. -/
def From (chain : ExternalChain) (token : String) (t : BridgeTransfer) : Prop :=
  t.direction = .inbound ∧ t.sourceChain = chain.name ∧ t.tokenSymbol = token

/-- A transfer of the token to the chain. -/
def To (chain : ExternalChain) (token : String) (t : BridgeTransfer) : Prop :=
  t.direction = .outbound ∧ t.destChain = chain.name ∧ t.tokenSymbol = token

instance (chain : ExternalChain) (token : String) (t : BridgeTransfer) :
    Decidable (t.From chain token) := by
  unfold From
  infer_instance

instance (chain : ExternalChain) (token : String) (t : BridgeTransfer) :
    Decidable (t.To chain token) := by
  unfold To
  infer_instance

/-- What a transfer from the chain brings, without the fee. -/
def netFrom (chain : ExternalChain) (token : String) (t : BridgeTransfer) : ℕ :=
  if t.From chain token then t.amount - t.fee else 0

def amountTo (chain : ExternalChain) (token : String) (t : BridgeTransfer) : ℕ :=
  if t.To chain token then t.amount else 0

/-- `netFrom` where the transfer is completed. -/
def completedFrom (chain : ExternalChain) (token : String) (t : BridgeTransfer) : ℕ :=
  if t.status = .completed then t.netFrom chain token else 0

/-- The transfer has not come to nothing. -/
def Live (t : BridgeTransfer) : Prop :=
  t.status ≠ .failed ∧ t.status ≠ .expired ∧ t.status ≠ .refunded

instance (t : BridgeTransfer) : Decidable t.Live := by
  unfold Live
  infer_instance

/-- `amountTo` where the transfer has not come to nothing. -/
def liveTo (chain : ExternalChain) (token : String) (t : BridgeTransfer) : ℕ :=
  if t.Live then t.amountTo chain token else 0

theorem completedFrom_le (chain : ExternalChain) (token : String) (t : BridgeTransfer) :
    t.completedFrom chain token ≤ t.netFrom chain token := by
  unfold completedFrom
  split_ifs
  · exact le_rfl
  · exact Nat.zero_le _

theorem liveTo_le (chain : ExternalChain) (token : String) (t : BridgeTransfer) :
    t.liveTo chain token ≤ t.amountTo chain token := by
  unfold liveTo
  split_ifs
  · exact le_rfl
  · exact Nat.zero_le _

end BridgeTransfer

open BridgeTransfer

/-- The total of a weight over the transfers in the table. -/
def BridgeState.sum (s : BridgeState) (f : BridgeTransfer → ℕ) : ℕ := total f s.transfers.toFinmap

/-- **The books are right**: what is minted is what completed inbound transfers brought, and what is
locked is what live outbound transfers took. -/
def Accounted (s : BridgeState) : Prop :=
  ∀ chain token, s.minted chain token = s.sum (completedFrom chain token) ∧
    s.lockedAmount chain token = s.sum (liveTo chain token)

/-! ### The record -/

def Write.transfers : Write → List BridgeTransfer
  | .opened t => [t]
  | _ => []

/-- A relayer with all transfers that were ever opened. -/
structure Audited where
  relayer : BridgeRelayer
  opened : List BridgeTransfer

namespace Audited

def next (s : Audited) (op : BridgeOp) : Audited :=
  ⟨(s.relayer.call op).2, s.opened ++ (s.relayer.written op).transfers⟩

def start (r : BridgeRelayer) : Audited := ⟨r, []⟩

/-- The total of a weight over all transfers ever opened. -/
def recorded (s : Audited) (f : BridgeTransfer → ℕ) : ℕ := (s.opened.map f).sum

theorem recorded_next (s : Audited) (op : BridgeOp) (f : BridgeTransfer → ℕ) :
    (s.next op).recorded f = s.recorded f + ((s.relayer.written op).transfers.map f).sum := by
  simp [recorded, next]

/-- A weight that confirming, completing and failing a transfer leaves as it is. -/
structure Fixed (f : BridgeTransfer → ℕ) : Prop where
  confirmed : ∀ t now, f (BridgeState.confirmed t now) = f t
  completed : ∀ t destTx now, f (BridgeState.completed t destTx now) = f t
  failed : ∀ t now, f (BridgeState.failed t now) = f t

theorem fixed_netFrom (chain : ExternalChain) (token : String) : Fixed (netFrom chain token) :=
  ⟨fun _ _ => rfl, fun _ _ _ => rfl, fun _ _ => rfl⟩

theorem fixed_amountTo (chain : ExternalChain) (token : String) : Fixed (amountTo chain token) :=
  ⟨fun _ _ => rfl, fun _ _ _ => rfl, fun _ _ => rfl⟩

end Audited

namespace BridgeState

theorem sum_put {s : BridgeState} {id : String} {t : BridgeTransfer}
    (ht : s.getTransfer id = some t) (t' : BridgeTransfer) (f : BridgeTransfer → ℕ) :
    (s.put id t').sum f + f t = s.sum f + f t' := by
  have h := total_insert_of_lookup f (m := s.transfers.toFinmap) (k := id) (v := t) ht t'
  rwa [Finmap.insert_toFinmap] at h

theorem sum_opened {s s' : BridgeState} {t : BridgeTransfer} (h : Opened s t s')
    (f : BridgeTransfer → ℕ) :
    s'.sum f + weightAt f s.transfers.toFinmap t.id = s.sum f + f t := by
  unfold sum
  rw [h.transfers, ← Finmap.insert_toFinmap]
  exact total_insert f _ _ t

theorem sum_writes {s s' : BridgeState} {w : Write} {f : BridgeTransfer → ℕ} (hf : Audited.Fixed f)
    (h : Writes s w s') :
    s'.sum f ≤ s.sum f + (w.transfers.map f).sum ∧
    ((∀ t, w = .opened t → s.getTransfer t.id = none) →
      s'.sum f = s.sum f + (w.transfers.map f).sum) := by
  have opened : ∀ t, Opened s t s' → w = .opened t →
      s'.sum f ≤ s.sum f + (w.transfers.map f).sum ∧
      ((∀ t, w = .opened t → s.getTransfer t.id = none) →
        s'.sum f = s.sum f + (w.transfers.map f).sum) := by
    rintro t ho rfl
    have hsum := sum_opened ho f
    have hw : ((Write.opened t).transfers.map f).sum = f t := by simp [Write.transfers]
    rw [hw]
    refine ⟨by omega, fun hfresh => ?_⟩
    have hzero : weightAt f s.transfers.toFinmap t.id = 0 := by
      have hnone : s.transfers.toFinmap.lookup t.id = none := hfresh t rfl
      rw [weightAt, hnone]
      rfl
    omega
  have put : ∀ id t t', s.getTransfer id = some t → f t' = f t → (s.put id t').sum f = s.sum f := by
    intro id t t' ht hft
    have hsum := sum_put ht t' f
    omega
  cases h with
  | nothing hi =>
    have hsum : s'.sum f = s.sum f := by rw [sum, hi.transfers, sum]
    simp [Write.transfers, hsum]
  | outbound ho => exact opened _ ho rfl
  | inbound ho => exact opened _ ho rfl
  | confirmed ht => simp [Write.transfers, put _ _ _ ht (hf.confirmed _ _)]
  | completed destTx ht => simp [Write.transfers, put _ _ _ ht (hf.completed _ _ _)]
  | failed ht => simp [Write.transfers, put _ _ _ ht (hf.failed _ _)]

theorem wrapped_of_same {x x' n : ℕ} (hlt : x < 2 ^ 128) (hx : x' = x) (hn : n = 0) :
    x' = (x + n) % 2 ^ 128 := by
  rw [hx, hn, Nat.add_zero, Nat.mod_eq_of_lt hlt]

section
variable {s s' : BridgeState} {w : Write} (h : Writes s w s') (chain : ExternalChain)
  (token : String)
include h

theorem minted_writes (hlt : s.minted chain token < 2 ^ 128) :
    s'.minted chain token =
      (s.minted chain token + (w.transfers.map (netFrom chain token)).sum) % 2 ^ 128 := by
  have same : s'.wrapped = s.wrapped → s'.minted chain token = s.minted chain token := by
    intro hw
    rw [minted, hw, minted]
  cases h with
  | nothing hi => exact wrapped_of_same hlt (same hi.wrapped) rfl
  | outbound ho hdir hchain hstatus hlocked hwrapped =>
    exact wrapped_of_same hlt (same hwrapped) (by simp [Write.transfers, netFrom, From, hdir])
  | @inbound _ t c ho hdir hchain hstatus hwrapped hlocked =>
    by_cases hkey : lockKey chain token = lockKey c t.tokenSymbol
    · obtain ⟨rfl, rfl⟩ := lockKey_inj hkey
      have hnet : ((Write.opened t).transfers.map (netFrom chain t.tokenSymbol)).sum =
          t.amount - t.fee := by
        simp [Write.transfers, netFrom, From, hdir, hchain]
      rw [hnet, minted, hwrapped, AList.lookup_insert]
      rfl
    · have hnet : netFrom chain token t = 0 := by
        refine if_neg fun hfrom => hkey ?_
        obtain ⟨-, hsource, rfl⟩ := hfrom
        rw [ExternalChain.name_injective (hsource.symm.trans hchain)]
      refine wrapped_of_same hlt ?_ (by simp [Write.transfers, hnet])
      rw [minted, hwrapped, AList.lookup_insert_ne hkey, minted]
  | confirmed => exact wrapped_of_same hlt rfl rfl
  | completed => exact wrapped_of_same hlt rfl rfl
  | failed => exact wrapped_of_same hlt rfl rfl

theorem lockedAmount_writes (hlt : s.lockedAmount chain token < 2 ^ 128) :
    s'.lockedAmount chain token =
      (s.lockedAmount chain token + (w.transfers.map (amountTo chain token)).sum) % 2 ^ 128 := by
  have same : s'.locked = s.locked → s'.lockedAmount chain token = s.lockedAmount chain token := by
    intro hl
    rw [lockedAmount, hl, lockedAmount]
  cases h with
  | nothing hi => exact wrapped_of_same hlt (same hi.locked) rfl
  | inbound ho hdir hchain hstatus hwrapped hlocked =>
    exact wrapped_of_same hlt (same hlocked) (by simp [Write.transfers, amountTo, To, hdir])
  | @outbound _ t c ho hdir hchain hstatus hlocked hwrapped =>
    by_cases hkey : lockKey chain token = lockKey c t.tokenSymbol
    · obtain ⟨rfl, rfl⟩ := lockKey_inj hkey
      have hamount : ((Write.opened t).transfers.map (amountTo chain t.tokenSymbol)).sum =
          t.amount := by
        simp [Write.transfers, amountTo, To, hdir, hchain]
      rw [hamount, lockedAmount, hlocked, AList.lookup_insert]
      rfl
    · have hamount : amountTo chain token t = 0 := by
        refine if_neg fun hto => hkey ?_
        obtain ⟨-, hdest, rfl⟩ := hto
        rw [ExternalChain.name_injective (hdest.symm.trans hchain)]
      refine wrapped_of_same hlt ?_ (by simp [Write.transfers, hamount])
      rw [lockedAmount, hlocked, AList.lookup_insert_ne hkey, lockedAmount]
  | confirmed => exact wrapped_of_same hlt rfl rfl
  | completed => exact wrapped_of_same hlt rfl rfl
  | failed => exact wrapped_of_same hlt rfl rfl

end

end BridgeState

namespace Audited

/-- The totals are the sums over the record, wrapped, and the table holds no more than the record.
-/
structure Books (s : Audited) : Prop where
  minted : ∀ chain token,
    s.relayer.state.minted chain token = s.recorded (netFrom chain token) % 2 ^ 128
  locked : ∀ chain token,
    s.relayer.state.lockedAmount chain token = s.recorded (amountTo chain token) % 2 ^ 128
  sum_le : ∀ f, Fixed f → s.relayer.state.sum f ≤ s.recorded f

variable (config : BridgeConfig) (validators : BridgeValidatorSet) (adapters : Finset ExternalChain)
variable (ops : List BridgeOp) (op : BridgeOp)

theorem books_start : Books (start (.fresh config validators adapters)) :=
  ⟨fun _ _ => rfl, fun _ _ => rfl, fun _ _ => le_rfl⟩

theorem books_next {s : Audited} (h : Books s) (op : BridgeOp) : Books (s.next op) := by
  have hw := s.relayer.writes_call op
  refine ⟨fun chain token => ?_, fun chain token => ?_, fun f hf => ?_⟩
  · have hmod := Nat.mod_lt (s.recorded (netFrom chain token)) (Nat.two_pow_pos 128)
    have hstep := BridgeState.minted_writes hw chain token (by rw [h.minted]; exact hmod)
    rw [h.minted, Nat.mod_add_mod, ← recorded_next] at hstep
    exact hstep
  · have hmod := Nat.mod_lt (s.recorded (amountTo chain token)) (Nat.two_pow_pos 128)
    have hstep := BridgeState.lockedAmount_writes hw chain token (by rw [h.locked]; exact hmod)
    rw [h.locked, Nat.mod_add_mod, ← recorded_next] at hstep
    exact hstep
  · rw [recorded_next]
    exact (BridgeState.sum_writes hf hw).1.trans (Nat.add_le_add_right (h.sum_le f hf) _)

def after (config : BridgeConfig) (validators : BridgeValidatorSet)
    (adapters : Finset ExternalChain) (ops : List BridgeOp) : Audited :=
  ops.foldl next (start (.fresh config validators adapters))

theorem after_concat :
    after config validators adapters (ops ++ [op]) =
      (after config validators adapters ops).next op := by
  unfold after
  rw [List.foldl_append]
  rfl

theorem relayer_after :
    (after config validators adapters ops).relayer =
      (BridgeRelayer.fresh config validators adapters).after ops := by
  induction ops using List.reverseRecOn with
  | nil => rfl
  | append_singleton ops op ih =>
    rw [after_concat, BridgeRelayer.after_concat, ← ih]
    rfl

theorem books_after : Books (after config validators adapters ops) :=
  foldl_invariant (books_start config validators adapters) (fun _ op h => books_next h op) ops

theorem sum_eq_recorded (config : BridgeConfig) (validators : BridgeValidatorSet)
    (adapters : Finset ExternalChain) {ops : List BridgeOp} (hlen : ops.length < 2 ^ 64)
    {f : BridgeTransfer → ℕ} (hf : Fixed f) :
    (after config validators adapters ops).relayer.state.sum f =
      (after config validators adapters ops).recorded f := by
  induction ops using List.reverseRecOn with
  | nil => rfl
  | append_singleton ops op ih =>
    have ih := ih (by rw [List.length_append] at hlen; omega)
    have hfresh : ∀ t,
        (after config validators adapters ops).relayer.written op = .opened t →
        (after config validators adapters ops).relayer.state.getTransfer t.id = none := by
      intro t ht
      rw [relayer_after] at ht ⊢
      exact getTransfer_opened_eq_none config validators adapters hlen ht
    rw [after_concat]
    generalize after config validators adapters ops = s at ih hfresh ⊢
    have hsum := (BridgeState.sum_writes hf (s.relayer.writes_call op)).2 hfresh
    show (s.relayer.call op).2.state.sum f = (s.next op).recorded f
    rw [recorded_next, hsum, ih]

end Audited

/-! ### The theorem -/

/-- A wrapped total is what is counted exactly when what is not counted is what was wrapped away. -/
theorem mod_eq_iff_sub_eq {r c M : ℕ} (h : c ≤ r) : r % M = c ↔ r - c = M * (r / M) := by
  have hdiv := Nat.div_add_mod r M
  generalize M * (r / M) = q at hdiv ⊢
  omega

theorem sum_netFrom_eq_iff :
    s.sum (netFrom chain token) = s.sum (completedFrom chain token) ↔
      ∀ id t, s.getTransfer id = some t → t.From chain token →
        t.amount ≤ t.fee ∨ t.status = .completed := by
  rw [eq_comm]
  refine (total_eq_total_iff (completedFrom_le chain token) _).trans ?_
  refine forall_congr' fun id => forall_congr' fun t => forall_congr' fun _ => ?_
  unfold completedFrom netFrom
  by_cases hfrom : t.From chain token
  · by_cases hc : t.status = .completed
    · simp [hc]
    · simp only [hc, hfrom, if_true, if_false, or_false, true_implies]
      omega
  · simp [hfrom]

theorem sum_amountTo_eq_iff :
    s.sum (amountTo chain token) = s.sum (liveTo chain token) ↔
      ∀ id t, s.getTransfer id = some t → t.To chain token → t.amount = 0 ∨ t.Live := by
  rw [eq_comm]
  refine (total_eq_total_iff (liveTo_le chain token) _).trans ?_
  refine forall_congr' fun id => forall_congr' fun t => forall_congr' fun _ => ?_
  unfold liveTo amountTo
  by_cases hto : t.To chain token
  · by_cases hl : t.Live
    · simp [hl]
    · simp only [hl, hto, if_true, if_false, or_false, true_implies]
      omega
  · simp [hto]

open Audited

/-- **What the books of the bridge say.** After every run the totals are right exactly when, for
every chain and token, what was opened inbound and is not completed, and what was opened outbound
and is not live, are the multiples of `2 ^ 128` that the totals lost. For runs of less than `2 ^ 64`
calls whose sums stay below `2 ^ 128` that says that every inbound transfer that brings something is
completed and every outbound transfer that takes something is live. -/
theorem accounted_iff (config : BridgeConfig) (validators : BridgeValidatorSet)
    (adapters : Finset ExternalChain) (ops : List BridgeOp) :
    (Accounted (after config validators adapters ops).relayer.state ↔ ∀ chain token,
      (after config validators adapters ops).recorded (netFrom chain token) -
          (after config validators adapters ops).relayer.state.sum (completedFrom chain token) =
        2 ^ 128 *
          ((after config validators adapters ops).recorded (netFrom chain token) / 2 ^ 128) ∧
      (after config validators adapters ops).recorded (amountTo chain token) -
          (after config validators adapters ops).relayer.state.sum (liveTo chain token) =
        2 ^ 128 *
          ((after config validators adapters ops).recorded (amountTo chain token) / 2 ^ 128)) ∧
    (ops.length < 2 ^ 64 →
      (∀ chain token,
        (after config validators adapters ops).recorded (netFrom chain token) < 2 ^ 128 ∧
        (after config validators adapters ops).recorded (amountTo chain token) < 2 ^ 128) →
      (Accounted (after config validators adapters ops).relayer.state ↔ ∀ chain token,
        (∀ id t, (after config validators adapters ops).relayer.state.getTransfer id = some t →
          t.From chain token → t.amount ≤ t.fee ∨ t.status = .completed) ∧
        ∀ id t, (after config validators adapters ops).relayer.state.getTransfer id = some t →
          t.To chain token → t.amount = 0 ∨ t.Live)) := by
  have hbooks := books_after config validators adapters ops
  have hall := @sum_eq_recorded config validators adapters ops
  generalize after config validators adapters ops = s at hbooks hall ⊢
  constructor
  · refine forall_congr' fun chain => forall_congr' fun token => ?_
    have hnet := (total_le_total (completedFrom_le chain token) _).trans
      (hbooks.sum_le _ (fixed_netFrom chain token))
    have hout := (total_le_total (liveTo_le chain token) _).trans
      (hbooks.sum_le _ (fixed_amountTo chain token))
    rw [hbooks.minted, hbooks.locked]
    exact and_congr (mod_eq_iff_sub_eq hnet) (mod_eq_iff_sub_eq hout)
  · intro hlen hrange
    refine forall_congr' fun chain => forall_congr' fun token => ?_
    rw [hbooks.minted, hbooks.locked, Nat.mod_eq_of_lt (hrange chain token).1,
      Nat.mod_eq_of_lt (hrange chain token).2, ← hall hlen (fixed_netFrom chain token),
      ← hall hlen (fixed_amountTo chain token)]
    exact and_congr (sum_netFrom_eq_iff _ chain token) (sum_amountTo_eq_iff _ chain token)

/-- A transfer is minted for as soon as it is recorded, and stays locked for after it failed. -/
theorem not_accounted :
    ¬ Accounted (after .default ∅ ∅
      [.processInboundEvent .ethereum "0xsender" (party 1) "ETH" 10000 "0xhash" 3
        3]).relayer.state ∧
    ¬ Accounted (after .default ∅ ∅
      [.processOutboundRequest (party 1) .ethereum "0xrecipient" "RCT" 10000 3 3,
        .failTransfer "bridge-3-1" 4]).relayer.state := by
  refine ⟨fun h => ?_, fun h => ?_⟩
  · exact absurd (h .ethereum "ETH").1 (by decide +kernel)
  · exact absurd (h .ethereum "RCT").2 (by decide +kernel)

/-! ### Deliveries of external events -/

/-- A call of `process_inbound_event`. -/
structure Delivery where
  sourceChain : ExternalChain
  sender : String
  recipient : Address
  tokenSymbol : String
  amount : ℕ
  sourceTxHash : String
  now : ℕ
  idNow : ℕ
  deriving DecidableEq, Repr

namespace Delivery

def op (d : Delivery) : BridgeOp :=
  .processInboundEvent d.sourceChain d.sender d.recipient d.tokenSymbol d.amount d.sourceTxHash
    d.now d.idNow

/-- What identifies the lock on the other chain. -/
def event (d : Delivery) : ExternalChain × String := (d.sourceChain, d.sourceTxHash)

end Delivery

/-- The transfer stands for the event. -/
def BridgeTransfer.For (e : ExternalChain × String) (t : BridgeTransfer) : Prop :=
  t.direction = .inbound ∧ t.sourceChain = e.1.name ∧ t.sourceTxHash = some e.2

instance (e : ExternalChain × String) (t : BridgeTransfer) : Decidable (t.For e) := by
  unfold BridgeTransfer.For
  infer_instance

/-- One for a transfer that stands for the event. -/
def BridgeTransfer.one (e : ExternalChain × String) (t : BridgeTransfer) : ℕ :=
  if t.For e then 1 else 0

theorem Audited.fixed_one (e : ExternalChain × String) : Fixed (one e) :=
  ⟨fun _ _ => rfl, fun _ _ _ => rfl, fun _ _ => rfl⟩

/-- No event stands behind more than one transfer in the table or one addition to what is minted. -/
def OneCredit (s : Audited) : Prop :=
  ∀ e, s.relayer.state.sum (one e) ≤ 1 ∧ s.recorded (one e) ≤ 1

theorem written_delivery (r : BridgeRelayer) (d : Delivery) (hpaused : r.state.paused = false) :
    (r.call d.op).2.state.paused = false ∧
    (r.call d.op).2.state.config = r.state.config ∧
    ∀ e, ((r.written d.op).transfers.map (one e)).sum =
      if r.state.config.acceptInbound = true ∧ d.event = e then 1 else 0 := by
  unfold BridgeRelayer.written
  simp only [Delivery.op, BridgeRelayer.call, BridgeRelayer.onState,
    BridgeRelayer.processInboundEvent, BridgeState.recordInbound, hpaused, Bool.false_eq_true,
    if_false]
  cases hacc : r.state.config.acceptInbound with
  | false =>
    refine ⟨hpaused, rfl, fun e => ?_⟩
    simp only [Bool.false_eq_true, false_and, if_false]
    rfl
  | true =>
    refine ⟨hpaused, rfl, fun e => ?_⟩
    obtain ⟨c, hash⟩ := e
    simp only [Bool.true_eq_false, if_false, Except.map, BridgeOp.write, Write.transfers,
      List.map_singleton, List.sum_singleton, one, For, Delivery.event, true_and, Option.some.injEq,
      ExternalChain.name_injective.eq_iff, Prod.mk.injEq]

theorem recorded_deliveries (config : BridgeConfig) (validators : BridgeValidatorSet)
    (adapters : Finset ExternalChain) (ds : List Delivery) :
    let s := after config validators adapters (ds.map Delivery.op)
    s.relayer.state.paused = false ∧ s.relayer.state.config = config ∧
    ∀ e, s.recorded (one e) =
      if config.acceptInbound = true then (ds.map Delivery.event).count e else 0 := by
  induction ds using List.reverseRecOn with
  | nil => exact ⟨rfl, rfl, fun e => by simp [after, recorded, start]⟩
  | append_singleton ds d ih =>
    rw [List.map_append, List.map_singleton, after_concat]
    obtain ⟨hpaused, hconfig, hrec⟩ := ih
    obtain ⟨hpaused', hconfig', hone⟩ := written_delivery _ d hpaused
    refine ⟨hpaused', hconfig'.trans hconfig, fun e => ?_⟩
    rw [recorded_next, hrec, hone, hconfig, List.map_append, List.count_append]
    by_cases hacc : config.acceptInbound = true
    · simp [hacc, List.count_singleton]
    · simp [hacc]

/-- **Every accepted delivery is a credit of its own.** After any deliveries every external event
has at most one transfer and one addition to what is minted exactly when the bridge takes no inbound
transfers or no event was delivered twice; each recorded transfer is one addition. -/
theorem oneCredit_iff (config : BridgeConfig) (validators : BridgeValidatorSet)
    (adapters : Finset ExternalChain) (ds : List Delivery) :
    (OneCredit (after config validators adapters (ds.map Delivery.op)) ↔
      config.acceptInbound = false ∨ (ds.map Delivery.event).Nodup) ∧
    ∀ chain token,
      (after config validators adapters (ds.map Delivery.op)).relayer.state.minted chain token =
        (after config validators adapters (ds.map Delivery.op)).recorded (netFrom chain token) %
          2 ^ 128 := by
  have hbooks := books_after config validators adapters (ds.map Delivery.op)
  obtain ⟨-, -, hrec⟩ := recorded_deliveries config validators adapters ds
  generalize after config validators adapters (ds.map Delivery.op) = s at hbooks hrec ⊢
  refine ⟨?_, hbooks.minted⟩
  have hcredit : OneCredit s ↔ ∀ e, s.recorded (one e) ≤ 1 := by
    refine forall_congr' fun e => ⟨fun h => h.2, fun h => ⟨?_, h⟩⟩
    exact (hbooks.sum_le _ (fixed_one e)).trans h
  rw [hcredit, List.nodup_iff_count_le_one]
  cases hacc : config.acceptInbound with
  | false => simp [hrec, hacc]
  | true => simp [hrec, hacc]

/-- The same event delivered by two relayers is minted for twice. -/
theorem not_oneCredit :
    ¬ OneCredit (after .default ∅ ∅
      (List.map Delivery.op
        [⟨.ethereum, "0xsender", party 1, "ETH", 10000, "0xhash", 3, 3⟩,
          ⟨.ethereum, "0xsender", party 1, "ETH", 10000, "0xhash", 4, 4⟩])) ∧
    (after .default ∅ ∅
      (List.map Delivery.op
        [⟨.ethereum, "0xsender", party 1, "ETH", 10000, "0xhash", 3, 3⟩,
          ⟨.ethereum, "0xsender", party 1, "ETH", 10000, "0xhash", 4, 4⟩])).relayer.state.minted
      .ethereum "ETH" = 19980 := by
  refine ⟨fun h => ?_, by decide +kernel⟩
  exact absurd (h (.ethereum, "0xhash")).1 (by decide +kernel)

end Rustchain.Bridge

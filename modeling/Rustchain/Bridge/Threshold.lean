import Rustchain.Bridge.Operations
import Rustchain.Lib.Counting
import Rustchain.Lib.Runs

/-! # The threshold of the bridge

A transfer counts its confirmations and keeps no record of who made them. Here the runs of the
bridge are recorded with the confirmations that were accepted, each with its validator and whether
that validator was active at the time, and the counter is compared with the number of different
active validators in the record. The two agree as long as the confirmations that make up the
threshold come from different active validators and no transfer is completed below it. -/

namespace Rustchain.Bridge

open Rustchain.Core Lib.Machine Lib.Maps Lib.Runs Lib.Counting

/-- An accepted confirmation; `active` says whether its validator was active when it was made. -/
structure Confirmation where
  id : String
  validator : Address
  active : Bool
  deriving DecidableEq, Repr

/-- A relayer with the record of the confirmations that it accepted. -/
structure Recorded where
  relayer : BridgeRelayer
  log : List Confirmation

namespace Recorded

/-- The record after a write. A transfer that is opened starts without confirmations. -/
def record (validators : BridgeValidatorSet) (log : List Confirmation) :
    Write → List Confirmation
  | .opened t => log.filter fun c => c.id ≠ t.id
  | .confirmed id validator _ =>
    log ++ [⟨id, validator, BridgeValidatorSet.isValidator validators validator⟩]
  | _ => log

def next (s : Recorded) (op : BridgeOp) : Recorded :=
  ⟨(s.relayer.call op).2, record s.relayer.validators s.log (s.relayer.written op)⟩

def start (r : BridgeRelayer) : Recorded := ⟨r, []⟩

def confirmations (s : Recorded) (id : String) : List Confirmation :=
  s.log.filter fun c => c.id = id

/-- The different validators that confirmed a transfer while they were active. -/
def confirmers (s : Recorded) (id : String) : Finset Address :=
  distinct Confirmation.active Confirmation.validator (s.confirmations id)

/-- Every transfer that is validated or completed has its threshold of different active validators
behind it. -/
def ThresholdMet (s : Recorded) : Prop :=
  ∀ id t, s.relayer.state.getTransfer id = some t →
    t.status = .validated ∨ t.status = .completed → t.requiredConfirmations ≤ (s.confirmers id).card

/-- The first `n` confirmations are by different validators, each active at the time. -/
def FirstDistinct (n : ℕ) (l : List Confirmation) : Prop :=
  (∀ c ∈ l.take n, c.active = true) ∧ ((l.take n).map Confirmation.validator).Nodup

/-- Where a transfer has reached its threshold, the confirmations up to it are by different active
validators, and no transfer is completed below its threshold. -/
def DistinctUpToThreshold (s : Recorded) : Prop :=
  ∀ id t, s.relayer.state.getTransfer id = some t →
    (t.requiredConfirmations ≤ (s.confirmations id).length →
      FirstDistinct t.requiredConfirmations (s.confirmations id)) ∧
    (t.status = .completed → t.requiredConfirmations ≤ (s.confirmations id).length)

instance (n : ℕ) (l : List Confirmation) : Decidable (FirstDistinct n l) := by
  unfold FirstDistinct
  infer_instance

instance (s : Recorded) : Decidable (ThresholdMet s) :=
  decidable_of_iff _ BridgeState.forall_getTransfer_iff.symm

instance (s : Recorded) : Decidable (DistinctUpToThreshold s) :=
  decidable_of_iff _ BridgeState.forall_getTransfer_iff.symm

/-- The counter of a transfer counts its recorded confirmations, and a validated transfer has
reached its threshold. -/
structure Counted (n : ℕ) (t : BridgeTransfer) (l : List Confirmation) : Prop where
  required : t.requiredConfirmations = n
  counter : t.confirmations = l.length % 2 ^ 64
  validated : t.status = .validated → n ≤ l.length

/-- All transfers are counted, against one threshold. -/
structure Counts (n : ℕ) (s : Recorded) : Prop where
  config : s.relayer.state.config.minSignatures = n
  counted : ∀ id t, s.relayer.state.getTransfer id = some t → Counted n t (s.confirmations id)

/-! ### The transfers and their confirmations after a call -/

/-- What a call does to one transfer and its confirmations. -/
inductive Turn (s s' : Recorded) (id : String) : Prop
  | same (ht : s'.relayer.state.getTransfer id = s.relayer.state.getTransfer id)
      (hc : s'.confirmations id = s.confirmations id)
  | opened {t : BridgeTransfer} (ht : s'.relayer.state.getTransfer id = some t)
      (hc : s'.confirmations id = []) (hn : t.confirmations = 0)
      (hr : t.requiredConfirmations = s.relayer.state.config.minSignatures)
      (hs : t.status = .pending ∨ t.status = .sourceConfirmed)
  | confirmed {t : BridgeTransfer} {c : Confirmation} {now : ℕ}
      (ht : s.relayer.state.getTransfer id = some t) (hs : t.status ≠ .completed)
      (ht' : s'.relayer.state.getTransfer id = some (BridgeState.confirmed t now))
      (hc : s'.confirmations id = s.confirmations id ++ [c])
  | completed {t : BridgeTransfer} {destTx : String} {now : ℕ}
      (ht : s.relayer.state.getTransfer id = some t)
      (ht' : s'.relayer.state.getTransfer id = some (BridgeState.completed t destTx now))
      (hc : s'.confirmations id = s.confirmations id)
  | failed {t : BridgeTransfer} {now : ℕ} (ht : s.relayer.state.getTransfer id = some t)
      (ht' : s'.relayer.state.getTransfer id = some (BridgeState.failed t now))
      (hc : s'.confirmations id = s.confirmations id)

theorem filter_confirmed_self (log : List Confirmation) (c : Confirmation) :
    (log ++ [c]).filter (fun d => d.id = c.id) = log.filter (fun d => d.id = c.id) ++ [c] := by
  simp

theorem filter_confirmed_ne (log : List Confirmation) {c : Confirmation} {id : String}
    (h : id ≠ c.id) :
    (log ++ [c]).filter (fun d => d.id = id) = log.filter fun d => d.id = id := by
  simp [Ne.symm h]

theorem filter_opened_self (log : List Confirmation) (id : String) :
    (log.filter fun c => c.id ≠ id).filter (fun c => c.id = id) = [] := by
  simp

theorem filter_opened_ne (log : List Confirmation) {id k : String} (h : k ≠ id) :
    (log.filter fun c => c.id ≠ id).filter (fun c => c.id = k) =
      log.filter fun c => c.id = k := by
  rw [List.filter_filter]
  refine List.filter_congr fun c _ => ?_
  by_cases hc : c.id = k
  · simp [hc, h]
  · simp [hc]

variable {t : BridgeTransfer}

theorem Turn.of_put {s s' : Recorded} {id k : String}
    (hstate : s'.relayer.state = s.relayer.state.put k t)
    (hlog : id ≠ k → s'.confirmations id = s.confirmations id)
    (hturn : id = k → s'.relayer.state.getTransfer id = some t → Turn s s' id) : Turn s s' id := by
  have ht := BridgeState.getTransfer_put s.relayer.state k id t
  rw [← hstate] at ht
  by_cases hid : id = k
  · rw [if_pos hid] at ht
    exact hturn hid ht
  · rw [if_neg hid] at ht
    exact .same ht (hlog hid)

theorem turn_next (s : Recorded) (op : BridgeOp) (id : String) : Turn s (s.next op) id := by
  have hw := s.relayer.writes_call op
  have hstate : (s.next op).relayer.state = (s.relayer.call op).2.state := rfl
  have hlog : (s.next op).log = record s.relayer.validators s.log (s.relayer.written op) := rfl
  generalize s.next op = s' at hstate hlog ⊢
  generalize s.relayer.written op = w at hw hlog
  generalize (s.relayer.call op).2.state = u at hw hstate
  have opened : ∀ t, BridgeState.Opened s.relayer.state t u →
      (t.status = .pending ∨ t.status = .sourceConfirmed) →
      s'.log = s.log.filter (fun c => c.id ≠ t.id) → Turn s s' id := by
    intro t h hs hlog
    have ht := h.getTransfer id
    rw [← hstate] at ht
    by_cases hid : id = t.id
    · rw [if_pos hid] at ht
      refine .opened ht ?_ h.confirmations h.required hs
      rw [confirmations, hlog, hid, filter_opened_self]
    · rw [if_neg hid] at ht
      refine .same ht ?_
      rw [confirmations, hlog, filter_opened_ne _ hid, confirmations]
  cases hw with
  | nothing h =>
    refine .same ?_ ?_
    · rw [hstate, h.getTransfer id]
    · rw [confirmations, hlog]
      rfl
  | outbound h _ _ hstatus => exact opened _ h (.inl hstatus) hlog
  | inbound h _ _ hstatus => exact opened _ h (.inr hstatus) hlog
  | @confirmed k validator now t ht hs =>
    refine Turn.of_put hstate (fun hid => ?_) fun hid ht' => ?_
    · rw [confirmations, hlog]
      exact filter_confirmed_ne _ hid
    · subst hid
      have hc : s'.confirmations id = s.confirmations id ++
          [⟨id, validator, BridgeValidatorSet.isValidator s.relayer.validators validator⟩] := by
        rw [confirmations, hlog]
        exact filter_confirmed_self _ ⟨id, validator, _⟩
      exact .confirmed ht hs ht' hc
  | @completed k now t destTx ht =>
    have hc : s'.confirmations id = s.confirmations id := by rw [confirmations, hlog]; rfl
    refine Turn.of_put hstate (fun _ => hc) fun hid ht' => ?_
    subst hid
    exact .completed ht ht' hc
  | @failed k now t ht =>
    have hc : s'.confirmations id = s.confirmations id := by rw [confirmations, hlog]; rfl
    refine Turn.of_put hstate (fun _ => hc) fun hid ht' => ?_
    subst hid
    exact .failed ht ht' hc

theorem config_next (s : Recorded) (op : BridgeOp) :
    (s.next op).relayer.state.config = s.relayer.state.config := by
  have hw := s.relayer.writes_call op
  show (s.relayer.call op).2.state.config = _
  generalize (s.relayer.call op).2.state = u at hw ⊢
  generalize s.relayer.written op = w at hw
  cases hw with
  | nothing h => exact h.config
  | outbound h => exact h.config
  | inbound h => exact h.config
  | confirmed => rfl
  | completed => rfl
  | failed => rfl

/-! ### The counter -/

variable {l : List Confirmation}

theorem Counted.confirmations_confirmed {n : ℕ} (h : Counted n t l) (c : Confirmation) (now : ℕ) :
    (BridgeState.confirmed t now).confirmations = (l ++ [c]).length % 2 ^ 64 := by
  show (t.confirmations + 1) % 2 ^ 64 = _
  rw [h.counter, List.length_append, List.length_singleton, Nat.mod_add_mod]

theorem Counted.status_confirmed {n : ℕ} (h : Counted n t l) (c : Confirmation) (now : ℕ) :
    (BridgeState.confirmed t now).status =
      if n ≤ (l ++ [c]).length % 2 ^ 64 then .validated else t.status := by
  rw [← h.confirmations_confirmed c now, ← h.required]
  rfl

theorem Counted.confirmed {n : ℕ} {t : BridgeTransfer} {l : List Confirmation} (h : Counted n t l)
    (c : Confirmation) (now : ℕ) : Counted n (BridgeState.confirmed t now) (l ++ [c]) := by
  refine ⟨h.required, h.confirmations_confirmed c now, fun hv => ?_⟩
  rw [h.status_confirmed c] at hv
  split_ifs at hv with hle
  · exact hle.trans (Nat.mod_le _ _)
  · have := h.validated hv
    rw [List.length_append]
    omega

theorem counts_next {n : ℕ} {s : Recorded} (h : Counts n s) (op : BridgeOp) :
    Counts n (s.next op) := by
  refine ⟨by rw [config_next, h.config], fun id t' ht' => ?_⟩
  cases turn_next s op id with
  | same ht hc =>
    rw [hc]
    exact h.counted id t' (ht ▸ ht')
  | opened ht hc hn hr hs =>
    obtain rfl := Option.some.inj (ht.symm.trans ht')
    rw [hc]
    refine ⟨hr.trans h.config, hn, fun hv => ?_⟩
    rw [hv] at hs
    simp at hs
  | confirmed ht hs htn hc =>
    obtain rfl := Option.some.inj (htn.symm.trans ht')
    rw [hc]
    exact (h.counted id _ ht).confirmed _ _
  | completed ht htn hc =>
    obtain rfl := Option.some.inj (htn.symm.trans ht')
    rw [hc]
    have hold := h.counted id _ ht
    exact ⟨hold.required, hold.counter, by simp [BridgeState.completed]⟩
  | failed ht htn hc =>
    obtain rfl := Option.some.inj (htn.symm.trans ht')
    rw [hc]
    have hold := h.counted id _ ht
    exact ⟨hold.required, hold.counter, by simp [BridgeState.failed]⟩

/-! ### The two conditions, transfer by transfer -/

/-- `ThresholdMet` for one transfer. -/
def MetBy (t : BridgeTransfer) (l : List Confirmation) : Prop :=
  t.status = .validated ∨ t.status = .completed →
    t.requiredConfirmations ≤ (distinct Confirmation.active Confirmation.validator l).card

/-- `DistinctUpToThreshold` for one transfer. -/
def DistinctBy (t : BridgeTransfer) (l : List Confirmation) : Prop :=
  (t.requiredConfirmations ≤ l.length → FirstDistinct t.requiredConfirmations l) ∧
    (t.status = .completed → t.requiredConfirmations ≤ l.length)

/-- A confirmation keeps the two conditions together: below the threshold both are empty, past it
both hold, and at it the record has as many different active validators as entries exactly when
these are all active and different. -/
theorem metBy_confirmed_iff {n : ℕ} (hn : n < 2 ^ 64) (h : Counted n t l)
    (hstatus : t.status ≠ .completed) (hd : DistinctBy t l) (c : Confirmation) (now : ℕ) :
    MetBy (BridgeState.confirmed t now) (l ++ [c]) ↔
      DistinctBy (BridgeState.confirmed t now) (l ++ [c]) := by
  have hs := h.status_confirmed c now
  have hreq : (BridgeState.confirmed t now).requiredConfirmations = n := h.required
  have hlen : (l ++ [c]).length = l.length + 1 := by simp
  have hnot : (BridgeState.confirmed t now).status ≠ .completed := by
    rw [hs]
    split_ifs
    · simp
    · exact hstatus
  unfold DistinctBy at hd
  unfold MetBy DistinctBy
  rw [hreq]
  rw [h.required] at hd
  simp only [hnot, or_false, false_implies, and_true]
  rcases Nat.lt_trichotomy n (l.length + 1) with hlt | heq | hgt
  · -- past the threshold: the entries up to it are those of `l`
    have hle : n ≤ l.length := by omega
    obtain ⟨hall, hnodup⟩ := hd.1 hle
    have htake : (l ++ [c]).take n = l.take n := List.take_append_of_le_length hle
    have hfirst : FirstDistinct n (l ++ [c]) := by
      unfold FirstDistinct
      rw [htake]
      exact ⟨hall, hnodup⟩
    have hcard := le_card_distinct_of_take (by omega) hfirst.1 hfirst.2
    exact ⟨fun _ _ => hfirst, fun _ _ => hcard⟩
  · have hval : (BridgeState.confirmed t now).status = .validated := by
      rw [hs, hlen, ← heq, Nat.mod_eq_of_lt hn, if_pos le_rfl]
    have htake : (l ++ [c]).take n = l ++ [c] := by rw [heq, ← hlen, List.take_length]
    have hiff := length_le_card_distinct_iff (p := Confirmation.active)
      (f := Confirmation.validator) (l ++ [c])
    rw [hlen, ← heq] at hiff
    unfold FirstDistinct
    rw [htake, hlen]
    simp only [hval, true_implies, heq.le]
    exact hiff
  · have hval : (BridgeState.confirmed t now).status ≠ .validated := by
      have hmod := Nat.mod_le (l.length + 1) (2 ^ 64)
      rw [hs, hlen, if_neg (by omega)]
      intro hv
      have := h.validated hv
      omega
    have hshort : ¬ n ≤ (l ++ [c]).length := by omega
    exact ⟨fun _ hle => absurd hle hshort, fun _ hv => absurd hv hval⟩

theorem metBy_completed_iff (hd : DistinctBy t l) (destTx : String) (now : ℕ) :
    MetBy (BridgeState.completed t destTx now) l ↔
      DistinctBy (BridgeState.completed t destTx now) l := by
  constructor
  · intro hm
    have hle := (hm (.inr rfl)).trans (card_distinct_le_length l)
    exact ⟨hd.1, fun _ => hle⟩
  · rintro ⟨hfirst, hle⟩ _
    obtain ⟨hall, hnodup⟩ := hfirst (hle rfl)
    exact le_card_distinct_of_take (hle rfl) hall hnodup

theorem thresholdMet_next_iff {n : ℕ} (hn : n < 2 ^ 64) {s : Recorded} (h : Counts n s)
    (hm : ThresholdMet s) (hd : DistinctUpToThreshold s) (op : BridgeOp) :
    ThresholdMet (s.next op) ↔ DistinctUpToThreshold (s.next op) := by
  have key : ∀ id t', (s.next op).relayer.state.getTransfer id = some t' →
      (MetBy t' ((s.next op).confirmations id) ↔ DistinctBy t' ((s.next op).confirmations id)) := by
    intro id t' ht'
    cases turn_next s op id with
    | same ht hc =>
      rw [hc]
      rw [ht] at ht'
      exact iff_of_true (hm id t' ht') (hd id t' ht')
    | opened ht hc hcount hr hs =>
      obtain rfl := Option.some.inj (ht.symm.trans ht')
      rw [hc]
      refine iff_of_true (fun hv => ?_) ⟨fun hle => ?_, fun hv => ?_⟩
      · rcases hs with hs | hs <;> simp [hs] at hv
      · simp [FirstDistinct]
      · rcases hs with hs | hs <;> simp [hs] at hv
    | confirmed ht hs htn hc =>
      obtain rfl := Option.some.inj (htn.symm.trans ht')
      rw [hc]
      exact metBy_confirmed_iff hn (h.counted id _ ht) hs (hd id _ ht) _ _
    | completed ht htn hc =>
      obtain rfl := Option.some.inj (htn.symm.trans ht')
      rw [hc]
      exact metBy_completed_iff (hd id _ ht) _ _
    | failed ht htn hc =>
      obtain rfl := Option.some.inj (htn.symm.trans ht')
      rw [hc]
      exact iff_of_true (by simp [MetBy, BridgeState.failed])
        ⟨(hd id _ ht).1, by simp [BridgeState.failed]⟩
  exact forall_congr' fun id => forall_congr' fun t' => forall_congr' fun ht' => key id t' ht'

theorem getTransfer_start (config : BridgeConfig) (validators : BridgeValidatorSet)
    (adapters : Finset ExternalChain) (id : String) :
    (start (.fresh config validators adapters)).relayer.state.getTransfer id = none := rfl

theorem counts_start (config : BridgeConfig) (validators : BridgeValidatorSet)
    (adapters : Finset ExternalChain) :
    Counts config.minSignatures (start (.fresh config validators adapters)) := by
  refine ⟨rfl, fun id t ht => ?_⟩
  rw [getTransfer_start] at ht
  cases ht

end Recorded

/-! ### The theorem -/

namespace BridgeValidatorSet

/-- The different active validators among the signers. -/
def activeSigners (vs : BridgeValidatorSet) (signers : List Address) : Finset Address :=
  distinct (isValidator vs) id signers

theorem verifyThreshold_eq_ok_iff (vs : BridgeValidatorSet) (minSignatures : ℕ)
    (signers : List Address) :
    verifyThreshold vs minSignatures signers = .ok () ↔
      minSignatures ≤ (signers.filter (isValidator vs)).length := by
  unfold verifyThreshold
  dsimp only
  split_ifs with h
  · simp [h]
  · simp [Nat.not_lt.mp h]

end BridgeValidatorSet

open Recorded BridgeValidatorSet

/-- A transfer is requested and confirmed by `a` and `b`, with `party 1` and `party 2` as the
validators. -/
def confirmedBy (a b : Address) : List BridgeOp :=
  [.addValidator (party 1) ⟨Vector.replicate 32 1⟩ 100 1,
    .addValidator (party 2) ⟨Vector.replicate 32 2⟩ 100 2,
    .processOutboundRequest (party 3) .ethereum "0xrecipient" "RCT" 10000 3 3,
    .submitConfirmation "bridge-3-1" a 4, .submitConfirmation "bridge-3-1" b 5]

end Rustchain.Bridge

import Rustchain.Bridge.Relay
import Rustchain.Lib.Runs

/-! # Concurrent finalization

Any number of calls of `finalize_transfer` on one transfer, interleaved access by access with each
other and with confirmations and failures. A call decides on the clone it has read, so what counts
is how many calls read the transfer while it is validated: each of them goes on to the adapter. -/

namespace Rustchain.Bridge

open Rustchain.Core Lib.Maps Lib.Runs

/-- The relayer, the calls on a transfer, and a record of what they did: `reads` has the calls that
found the transfer ready to be unlocked, `unlocks` the calls of `submit_unlock` with the answers. -/
structure RelaySystem where
  relayer : BridgeRelayer
  calls : ℕ → FinalizeCall
  reads : List ℕ
  unlocks : List (ℕ × UnlockRequest × Except BridgeError String)

namespace RelaySystem

def start (r : BridgeRelayer) : RelaySystem := ⟨r, fun _ => .reading, [], []⟩

/-- One access of a call, or an operation that comes in between. -/
inductive Event where
  | access (k : ℕ) (response : Except BridgeError String) (now : ℕ)
  | confirm (id : String) (validator : Address) (now : ℕ)
  | fail (id : String) (now : ℕ)

/-- The call is about to call `submit_unlock`. -/
def Unlocking (c : FinalizeCall) : Prop := ∃ request, c = .unlocking request

/-- The calls that read the transfer for an unlock, once `k` went from `c` to `c'`. -/
def readsAfter (reads : List ℕ) (k : ℕ) : FinalizeCall → FinalizeCall → List ℕ
  | .reading, .unlocking _ => reads ++ [k]
  | _, _ => reads

/-- The calls of `submit_unlock` once `k` has made an access at `c`. -/
def unlocksAfter (unlocks : List (ℕ × UnlockRequest × Except BridgeError String)) (k : ℕ)
    (response : Except BridgeError String) :
    FinalizeCall → List (ℕ × UnlockRequest × Except BridgeError String)
  | .unlocking request => unlocks ++ [(k, request, response)]
  | _ => unlocks

/-- The system after an event; the calls are all on the transfer `id`. -/
def next (id : String) (s : RelaySystem) : Event → RelaySystem
  | .access k response now =>
    let r := FinalizeCall.access s.relayer.adapters id response now s.relayer.state (s.calls k)
    { relayer := { s.relayer with state := r.2 }
      calls := Function.update s.calls k r.1
      reads := readsAfter s.reads k (s.calls k) r.1
      unlocks := unlocksAfter s.unlocks k response (s.calls k) }
  | .confirm i validator now =>
    { s with relayer := (s.relayer.submitConfirmation i validator now).2 }
  | .fail i now =>
    { s with relayer := { s.relayer with state := (s.relayer.state.failTransfer i now).2 } }

def Step (id : String) (s : RelaySystem) (e : Event) (s' : RelaySystem) : Prop := s.next id e = s'

theorem run_foldl (id : String) (s : RelaySystem) (events : List Event) :
    Run (Step id) Free s events (events.foldl (next id) s) := by
  induction events using List.reverseRecOn with
  | nil => exact .nil
  | append_singleton events e ih =>
    rw [List.foldl_append]
    exact ih.snoc trivial rfl

theorem not_unlocking_returned (result : Except BridgeError BridgeTransfer) :
    ¬ Unlocking (.returned result) := by
  rintro ⟨request, h⟩
  cases h

theorem not_unlocking_completing (destTx : String) : ¬ Unlocking (.completing destTx) := by
  rintro ⟨request, h⟩
  cases h

theorem not_unlocking_reading : ¬ Unlocking .reading := by
  rintro ⟨request, h⟩
  cases h

theorem afterRead_ne_reading (adapters : Finset ExternalChain) (id : String)
    (o : Option BridgeTransfer) : FinalizeCall.afterRead adapters id o ≠ .reading := by
  unfold FinalizeCall.afterRead
  cases o with
  | none => simp
  | some t =>
    dsimp only
    split_ifs
    · simp
    · split
      · simp
      · split
        · simp
        · split_ifs
          · simp
          · simp

/-- What an event does, by the stage of the call that makes an access. -/
inductive Effect (id : String) (s : RelaySystem) : Event → RelaySystem → Prop
  | read {k : ℕ} {request : UnlockRequest} (hk : s.calls k = .reading)
      (hreq : FinalizeCall.afterRead s.relayer.adapters id (s.relayer.state.getTransfer id) =
        .unlocking request) (response : Except BridgeError String) (now : ℕ) :
      Effect id s (.access k response now)
        ⟨s.relayer, Function.update s.calls k (.unlocking request), s.reads ++ [k], s.unlocks⟩
  | pass {k : ℕ} {c : FinalizeCall} (hk : s.calls k = .reading)
      (hc : FinalizeCall.afterRead s.relayer.adapters id (s.relayer.state.getTransfer id) = c)
      (hnot : ¬ Unlocking c) (response : Except BridgeError String) (now : ℕ) :
      Effect id s (.access k response now)
        ⟨s.relayer, Function.update s.calls k c, s.reads, s.unlocks⟩
  | unlock {k : ℕ} {request : UnlockRequest} (hk : s.calls k = .unlocking request)
      (response : Except BridgeError String) (now : ℕ) :
      Effect id s (.access k response now)
        ⟨s.relayer, Function.update s.calls k (FinalizeCall.afterUnlock response), s.reads,
          s.unlocks ++ [(k, request, response)]⟩
  | complete {k : ℕ} {destTx : String} (hk : s.calls k = .completing destTx)
      (response : Except BridgeError String) (now : ℕ) :
      Effect id s (.access k response now)
        ⟨{ s.relayer with state := (s.relayer.state.completeTransfer id destTx now).2 },
          Function.update s.calls k
            (.returned (s.relayer.state.completeTransfer id destTx now).1), s.reads, s.unlocks⟩
  | idle {k : ℕ} {result : Except BridgeError BridgeTransfer} (hk : s.calls k = .returned result)
      (response : Except BridgeError String) (now : ℕ) : Effect id s (.access k response now) s
  | confirm (i : String) (validator : Address) (now : ℕ) :
      Effect id s (.confirm i validator now)
        { s with relayer := (s.relayer.submitConfirmation i validator now).2 }
  | fail (i : String) (now : ℕ) :
      Effect id s (.fail i now)
        { s with relayer := { s.relayer with state := (s.relayer.state.failTransfer i now).2 } }

theorem next_effect (id : String) (s : RelaySystem) (e : Event) : Effect id s e (s.next id e) := by
  cases e with
  | confirm i validator now => exact .confirm i validator now
  | fail i now => exact .fail i now
  | access k response now =>
    dsimp only [next]
    cases hk : s.calls k with
    | reading =>
      cases hc : FinalizeCall.afterRead s.relayer.adapters id (s.relayer.state.getTransfer id) with
      | unlocking request =>
        simp only [FinalizeCall.access, hc]
        exact .read hk hc response now
      | reading => exact absurd hc (afterRead_ne_reading _ _ _)
      | completing destTx =>
        simp only [FinalizeCall.access, hc]
        exact .pass hk hc (not_unlocking_completing destTx) response now
      | returned result =>
        simp only [FinalizeCall.access, hc]
        exact .pass hk hc (not_unlocking_returned result) response now
    | unlocking request => exact .unlock hk response now
    | completing destTx => exact .complete hk response now
    | returned result =>
      have hsame : Function.update s.calls k (.returned result) = s.calls := by
        rw [← hk]
        exact Function.update_eq_self k s.calls
      simp only [FinalizeCall.access, hsame]
      exact .idle hk response now

/-! ### Reads and unlocks -/

/-- The callers of `submit_unlock`. -/
def unlockers (s : RelaySystem) : List ℕ := s.unlocks.map (·.1)

/-- **The record is right**: a call is among the reads exactly if it is about to call the adapter or
has called it, and no call does either twice. -/
structure Tallied (s : RelaySystem) : Prop where
  reads : s.reads.Nodup
  unlockers : s.unlockers.Nodup
  mem : ∀ k, k ∈ s.reads ↔ Unlocking (s.calls k) ∨ k ∈ s.unlockers
  apart : ∀ k, Unlocking (s.calls k) → k ∉ s.unlockers
  fresh : ∀ k, s.calls k = .reading → k ∉ s.reads

theorem tallied_start (r : BridgeRelayer) : Tallied (start r) := by
  refine ⟨List.nodup_nil, List.nodup_nil, ?_, ?_, ?_⟩
  · intro k
    simp [start, Unlocking, RelaySystem.unlockers]
  · intro k _
    simp [start, RelaySystem.unlockers]
  · intro k _
    simp [start]

/-- The record after a step that moves the call `k` to `c`, if nothing is added to it and `k` is
neither before nor after the step about to unlock. -/
theorem Tallied.update {s s' : RelaySystem} (h : Tallied s) {k : ℕ} {c : FinalizeCall}
    (hcalls : s'.calls = Function.update s.calls k c) (hreads : s'.reads = s.reads)
    (hunlocks : s'.unlocks = s.unlocks) (hbefore : ¬ Unlocking (s.calls k))
    (hafter : ¬ Unlocking c) (hread : c = .reading → s.calls k = .reading) : Tallied s' := by
  have hun : s'.unlockers = s.unlockers := by
    unfold RelaySystem.unlockers
    rw [hunlocks]
  have hiff : ∀ j, Unlocking (s'.calls j) ↔ Unlocking (s.calls j) := by
    intro j
    rw [hcalls]
    by_cases hj : j = k
    · subst hj
      rw [Function.update_self]
      exact iff_of_false hafter hbefore
    · rw [Function.update_of_ne hj]
  refine ⟨hreads ▸ h.reads, hun ▸ h.unlockers, ?_, ?_, ?_⟩
  · intro j
    rw [hreads, hun, hiff]
    exact h.mem j
  · intro j hj
    rw [hun]
    exact h.apart j ((hiff j).mp hj)
  · intro j hj
    rw [hreads]
    rw [hcalls] at hj
    by_cases he : j = k
    · subst he
      rw [Function.update_self] at hj
      exact h.fresh j (hread hj)
    · rw [Function.update_of_ne he] at hj
      exact h.fresh j hj

theorem Tallied.read {s : RelaySystem} (h : Tallied s) {k : ℕ} (hk : s.calls k = .reading)
    (request : UnlockRequest) (r : BridgeRelayer) :
    Tallied ⟨r, Function.update s.calls k (.unlocking request), s.reads ++ [k], s.unlocks⟩ := by
  have hnew : k ∉ s.reads := h.fresh k hk
  have hnot : k ∉ s.unlockers := fun hu => hnew ((h.mem k).mpr (.inr hu))
  refine ⟨?_, h.unlockers, ?_, ?_, ?_⟩
  · exact List.nodup_append.mpr ⟨h.reads, List.nodup_singleton k, by
      intro a ha b hb
      rw [List.mem_singleton.mp hb]
      rintro rfl
      exact hnew ha⟩
  · intro j
    rw [List.mem_append, List.mem_singleton]
    by_cases hj : j = k
    · subst hj
      simp [Unlocking]
    · simp only [Function.update_of_ne hj, hj, or_false]
      exact h.mem j
  · intro j hj
    by_cases he : j = k
    · rw [he]
      exact hnot
    · simp only [Function.update_of_ne he] at hj
      exact h.apart j hj
  · intro j hj
    by_cases he : j = k
    · subst he
      simp at hj
    · simp only [Function.update_of_ne he] at hj
      rw [List.mem_append, List.mem_singleton, not_or]
      exact ⟨h.fresh j hj, he⟩

theorem Tallied.unlock {s : RelaySystem} (h : Tallied s) {k : ℕ} {request : UnlockRequest}
    (hk : s.calls k = .unlocking request) (response : Except BridgeError String)
    {c : FinalizeCall} (hc : ¬ Unlocking c) (hread : c ≠ .reading) (r : BridgeRelayer) :
    Tallied ⟨r, Function.update s.calls k c, s.reads, s.unlocks ++ [(k, request, response)]⟩ := by
  have hun : Unlocking (s.calls k) := ⟨request, hk⟩
  have hnew : k ∉ s.unlockers := h.apart k hun
  have hlist : RelaySystem.unlockers
      ⟨r, Function.update s.calls k c, s.reads, s.unlocks ++ [(k, request, response)]⟩ =
        s.unlockers ++ [k] := by
    simp [RelaySystem.unlockers]
  refine ⟨h.reads, ?_, ?_, ?_, ?_⟩
  · rw [hlist]
    exact List.nodup_append.mpr ⟨h.unlockers, List.nodup_singleton k, by
      intro a ha b hb
      rw [List.mem_singleton.mp hb]
      rintro rfl
      exact hnew ha⟩
  · intro j
    rw [hlist, List.mem_append, List.mem_singleton]
    by_cases hj : j = k
    · subst hj
      simp [(h.mem j).mpr (.inl hun)]
    · simp only [Function.update_of_ne hj, hj, or_false]
      exact h.mem j
  · intro j hj
    rw [hlist, List.mem_append, List.mem_singleton, not_or]
    by_cases he : j = k
    · subst he
      simp only [Function.update_self] at hj
      exact absurd hj hc
    · simp only [Function.update_of_ne he] at hj
      exact ⟨h.apart j hj, he⟩
  · intro j hj
    by_cases he : j = k
    · subst he
      simp only [Function.update_self] at hj
      exact absurd hj hread
    · simp only [Function.update_of_ne he] at hj
      exact h.fresh j hj

variable {s : RelaySystem}

theorem Tallied.next (h : Tallied s) (id : String) (e : Event) : Tallied (s.next id e) := by
  have heff := next_effect id s e
  generalize s.next id e = s' at heff
  cases heff with
  | read hk hreq response now => exact h.read hk _ _
  | @pass k c hk hc hnot response now =>
    refine h.update rfl rfl rfl ?_ hnot ?_
    · rw [hk]
      exact not_unlocking_reading
    · exact fun _ => hk
  | unlock hk response now =>
    cases response with
    | error err => exact h.unlock hk _ (not_unlocking_returned _) (by simp) _
    | ok destTx => exact h.unlock hk _ (not_unlocking_completing _) (by simp) _
  | @complete k destTx hk response now =>
    refine h.update rfl rfl rfl ?_ (not_unlocking_returned _) (by simp)
    rw [hk]
    exact not_unlocking_completing destTx
  | idle hk response now => exact h
  | confirm i validator now => exact ⟨h.reads, h.unlockers, h.mem, h.apart, h.fresh⟩
  | fail i now => exact ⟨h.reads, h.unlockers, h.mem, h.apart, h.fresh⟩

variable {id : String} {r : BridgeRelayer}

theorem tallied_of_run {G : RelaySystem → Event → Prop} {events : List Event}
    (hr : Run (Step id) G (start r) events s) :
    Tallied s := by
  refine hr.invariant (tallied_start r) ?_
  rintro t e u ht - rfl
  exact ht.next id e

theorem Tallied.length_eq (h : Tallied s) (hquiet : ∀ k, ¬ Unlocking (s.calls k)) :
    s.unlocks.length = s.reads.length := by
  have hmem : ∀ k, k ∈ s.unlockers ↔ k ∈ s.reads := by
    intro k
    rw [h.mem k]
    exact ⟨.inr, fun ho => ho.resolve_left (hquiet k)⟩
  have hperm : s.unlockers.Perm s.reads :=
    (List.perm_ext_iff_of_nodup h.unlockers h.reads).mpr hmem
  have hlen := hperm.length_eq
  unfold RelaySystem.unlockers at hlen
  rwa [List.length_map] at hlen

/-! ### The transfer -/

/-- Finalizing the transfer goes through an adapter. -/
def ThroughAdapter (adapters : Finset ExternalChain) (t : BridgeTransfer) : Prop :=
  t.direction = .outbound ∧ ∃ chain ∈ adapters, ExternalChain.fromName t.destChain = some chain

/-- The parts of a transfer that no operation changes and `finalize_transfer` branches on. -/
def SameRoute (t t' : BridgeTransfer) : Prop :=
  t'.direction = t.direction ∧ t'.destChain = t.destChain

variable {adapters : Finset ExternalChain}

theorem SameRoute.through {t t' : BridgeTransfer} (h : SameRoute t t') :
    ThroughAdapter adapters t' ↔ ThroughAdapter adapters t := by
  unfold ThroughAdapter
  rw [h.1, h.2]

variable {t : BridgeTransfer}

theorem of_afterRead_unlocking {request : UnlockRequest}
    (h : FinalizeCall.afterRead adapters id (some t) = .unlocking request) :
    t.status = .validated ∧ ThroughAdapter adapters t := by
  unfold FinalizeCall.afterRead at h
  dsimp only at h
  split_ifs at h with hs
  refine ⟨not_not.mp hs, ?_⟩
  cases hd : t.direction with
  | inbound =>
    rw [hd] at h
    cases h
  | outbound =>
    rw [hd] at h
    dsimp only at h
    cases hc : ExternalChain.fromName t.destChain with
    | none =>
      rw [hc] at h
      cases h
    | some chain =>
      rw [hc] at h
      dsimp only at h
      split_ifs at h with ha
      exact ⟨hd, chain, ha, hc⟩

theorem of_afterRead_completing {destTx : String}
    (h : FinalizeCall.afterRead adapters id (some t) = .completing destTx) :
    ¬ ThroughAdapter adapters t := by
  rintro ⟨hd, chain, ha, hc⟩
  unfold FinalizeCall.afterRead at h
  dsimp only at h
  split_ifs at h with hs
  rw [hd] at h
  dsimp only at h
  rw [hc] at h
  dsimp only at h
  rw [if_pos ha] at h
  cases h

theorem confirm_transfer (r : BridgeRelayer) (i : String) (validator : Address) (now : ℕ)
    (ht : r.state.getTransfer id = some t) :
    ∃ t', (r.submitConfirmation i validator now).2.state.getTransfer id = some t' ∧
      SameRoute t t' ∧ t'.destTxHash = t.destTxHash ∧ (t.status = .completed → t' = t) := by
  unfold BridgeRelayer.submitConfirmation
  split_ifs
  · exact ⟨t, ht, ⟨rfl, rfl⟩, rfl, fun _ => rfl⟩
  · dsimp only [BridgeState.addConfirmation]
    cases hi : r.state.transfers.lookup i with
    | none => exact ⟨t, ht, ⟨rfl, rfl⟩, rfl, fun _ => rfl⟩
    | some u =>
      dsimp only
      split_ifs with hc
      · exact ⟨t, ht, ⟨rfl, rfl⟩, rfl, fun _ => rfl⟩
      · rw [BridgeState.getTransfer_put]
        by_cases he : id = i
        · subst he
          obtain rfl : t = u := Option.some.inj (ht.symm.trans hi)
          exact ⟨_, if_pos rfl, ⟨rfl, rfl⟩, rfl, fun h => absurd h hc⟩
        · exact ⟨t, by rw [if_neg he, ht], ⟨rfl, rfl⟩, rfl, fun _ => rfl⟩

theorem fail_transfer (s : BridgeState) (i : String) (now : ℕ) (ht : s.getTransfer id = some t) :
    ∃ t', (s.failTransfer i now).2.getTransfer id = some t' ∧
      SameRoute t t' ∧ t'.destTxHash = t.destTxHash ∧ (i ≠ id → t' = t) := by
  unfold BridgeState.failTransfer
  cases hi : s.transfers.lookup i with
  | none => exact ⟨t, ht, ⟨rfl, rfl⟩, rfl, fun _ => rfl⟩
  | some u =>
    dsimp only
    rw [BridgeState.getTransfer_put]
    by_cases he : id = i
    · subst he
      obtain rfl : t = u := Option.some.inj (ht.symm.trans hi)
      exact ⟨_, if_pos rfl, ⟨rfl, rfl⟩, rfl, fun h => absurd rfl h⟩
    · exact ⟨t, by rw [if_neg he, ht], ⟨rfl, rfl⟩, rfl, fun _ => rfl⟩

theorem complete_transfer {s : BridgeState} (ht : s.getTransfer id = some t) (destTx : String)
    (now : ℕ) :
    (s.completeTransfer id destTx now).2.getTransfer id =
      some { t with status := .completed, destTxHash := some destTx, updatedAt := now } := by
  have hl : s.transfers.lookup id = some t := ht
  unfold BridgeState.completeTransfer
  rw [hl]
  dsimp only
  rw [BridgeState.getTransfer_put, if_pos rfl]

/-- **Where a recorded hash comes from**: for a transfer that goes through an adapter, every hash
that was recorded or is about to be is an answer of the adapter. -/
structure Recorded (adapters : Finset ExternalChain) (id : String) (t₀ : BridgeTransfer)
    (s : RelaySystem) : Prop where
  registered : s.relayer.adapters = adapters
  routed : s.reads ≠ [] → ThroughAdapter adapters t₀
  completing : ThroughAdapter adapters t₀ → ∀ k destTx, s.calls k = .completing destTx →
    ∃ request, (k, request, .ok destTx) ∈ s.unlocks
  transfer : ∃ t, s.relayer.state.getTransfer id = some t ∧ SameRoute t₀ t ∧
    (ThroughAdapter adapters t₀ → ∀ destTx, t.destTxHash = some destTx →
      ∃ k request, (k, request, .ok destTx) ∈ s.unlocks)

theorem recorded_start {t₀ : BridgeTransfer} (ht : r.state.getTransfer id = some t₀)
    (hnew : t₀.destTxHash = none) :
    Recorded r.adapters id t₀ (start r) where
  registered := rfl
  routed h := absurd rfl h
  completing _ k destTx h := by cases h
  transfer := ⟨t₀, ht, ⟨rfl, rfl⟩, fun _ destTx h => by rw [hnew] at h; cases h⟩

section
variable {adapters : Finset ExternalChain} {id : String} {t₀ : BridgeTransfer} {s : RelaySystem}

theorem Recorded.move (h : Recorded adapters id t₀ s) {k : ℕ} {c : FinalizeCall}
    (hc : ThroughAdapter adapters t₀ → ∀ destTx, c ≠ .completing destTx) {reads : List ℕ}
    (hreads : reads ≠ [] → ThroughAdapter adapters t₀) :
    Recorded adapters id t₀ ⟨s.relayer, Function.update s.calls k c, reads, s.unlocks⟩ := by
  refine ⟨h.registered, hreads, ?_, h.transfer⟩
  intro hthrough j destTx hj
  by_cases he : j = k
  · subst he
    simp only [Function.update_self] at hj
    exact absurd hj (hc hthrough destTx)
  · simp only [Function.update_of_ne he] at hj
    exact h.completing hthrough j destTx hj

theorem Recorded.unlock (h : Recorded adapters id t₀ s) (k : ℕ) (request : UnlockRequest)
    (response : Except BridgeError String) :
    Recorded adapters id t₀
      ⟨s.relayer, Function.update s.calls k (FinalizeCall.afterUnlock response), s.reads,
        s.unlocks ++ [(k, request, response)]⟩ := by
  obtain ⟨t, ht, hroute, hdest⟩ := h.transfer
  refine ⟨h.registered, h.routed, ?_, t, ht, hroute, ?_⟩
  · intro hthrough j destTx hj
    by_cases he : j = k
    · subst he
      simp only [Function.update_self] at hj
      cases response with
      | error e => cases hj
      | ok answer =>
        obtain rfl : answer = destTx := FinalizeCall.completing.inj hj
        exact ⟨request, by simp⟩
    · simp only [Function.update_of_ne he] at hj
      obtain ⟨req, hmem⟩ := h.completing hthrough j destTx hj
      exact ⟨req, List.mem_append_left _ hmem⟩
  · intro hthrough destTx hd
    obtain ⟨j, req, hmem⟩ := hdest hthrough destTx hd
    exact ⟨j, req, List.mem_append_left _ hmem⟩

theorem Recorded.complete (h : Recorded adapters id t₀ s) {k : ℕ} {destTx : String}
    (hk : s.calls k = .completing destTx) (now : ℕ)
    (result : Except BridgeError BridgeTransfer) :
    Recorded adapters id t₀
      ⟨{ s.relayer with state := (s.relayer.state.completeTransfer id destTx now).2 },
        Function.update s.calls k (.returned result), s.reads, s.unlocks⟩ := by
  obtain ⟨t, ht, hroute, -⟩ := h.transfer
  refine ⟨h.registered, h.routed, ?_, _, complete_transfer ht destTx now, hroute, ?_⟩
  · intro hthrough j other hj
    by_cases he : j = k
    · subst he
      simp only [Function.update_self] at hj
      cases hj
    · simp only [Function.update_of_ne he] at hj
      exact h.completing hthrough j other hj
  · intro hthrough other hd
    obtain rfl : destTx = other := Option.some.inj hd
    obtain ⟨req, hmem⟩ := h.completing hthrough k destTx hk
    exact ⟨k, req, hmem⟩

theorem Recorded.relayer (h : Recorded adapters id t₀ s) {r : BridgeRelayer}
    (hadapters : r.adapters = s.relayer.adapters)
    (htransfer : ∀ t, s.relayer.state.getTransfer id = some t →
      ∃ t', r.state.getTransfer id = some t' ∧ SameRoute t t' ∧ t'.destTxHash = t.destTxHash) :
    Recorded adapters id t₀ { s with relayer := r } := by
  obtain ⟨t, ht, hroute, hdest⟩ := h.transfer
  obtain ⟨t', ht', hroute', hsame⟩ := htransfer t ht
  refine ⟨hadapters.trans h.registered, h.routed, h.completing, t', ht', ?_, ?_⟩
  · exact ⟨hroute'.1.trans hroute.1, hroute'.2.trans hroute.2⟩
  · rw [hsame]
    exact hdest

theorem adapters_submitConfirmation (r : BridgeRelayer) (i : String) (validator : Address)
    (now : ℕ) : (r.submitConfirmation i validator now).2.adapters = r.adapters := by
  unfold BridgeRelayer.submitConfirmation
  split_ifs
  · rfl
  · rfl

theorem Recorded.next (h : Recorded adapters id t₀ s) (e : Event) :
    Recorded adapters id t₀ (s.next id e) := by
  obtain ⟨t, ht, hroute, -⟩ := h.transfer
  have heff := next_effect id s e
  generalize s.next id e = s' at heff
  cases heff with
  | read hk hreq response now =>
    rw [h.registered, ht] at hreq
    exact h.move (fun _ _ => by simp) fun _ =>
      hroute.through.mp (of_afterRead_unlocking hreq).2
  | pass hk hc hnot response now =>
    rw [h.registered, ht] at hc
    refine h.move ?_ h.routed
    intro hthrough destTx he
    rw [he] at hc
    exact of_afterRead_completing hc (hroute.through.mpr hthrough)
  | unlock hk response now => exact h.unlock _ _ response
  | complete hk response now => exact h.complete hk now _
  | idle hk response now => exact h
  | confirm i validator now =>
    refine h.relayer (adapters_submitConfirmation _ i validator now) ?_
    intro u hu
    obtain ⟨u', hu', hr, hd, -⟩ := confirm_transfer s.relayer i validator now hu
    exact ⟨u', hu', hr, hd⟩
  | fail i now =>
    refine h.relayer (r := { s.relayer with state := _ }) rfl ?_
    intro u hu
    obtain ⟨u', hu', hr, hd, -⟩ := fail_transfer s.relayer.state i now hu
    exact ⟨u', hu', hr, hd⟩

end

theorem recorded_of_run {G : RelaySystem → Event → Prop} {t₀ : BridgeTransfer} {events : List Event}
    (ht : r.state.getTransfer id = some t₀) (hnew : t₀.destTxHash = none)
    (hr : Run (Step id) G (start r) events s) : Recorded r.adapters id t₀ s := by
  refine hr.invariant (recorded_start ht hnew) ?_
  rintro u e v hu - rfl
  exact hu.next e

/-! ### Calls one at a time -/

/-- The call has not begun or has returned. -/
def Idle (c : FinalizeCall) : Prop := c = .reading ∨ ∃ result, c = .returned result

/-- No call begins while another one runs, the adapter does not fail, and a completed transfer is
not marked as failed. -/
def Calm (id : String) (s : RelaySystem) : Event → Prop
  | .access k response _ =>
    (s.calls k = .reading → ∀ j, Idle (s.calls j)) ∧
      (Unlocking (s.calls k) → ∃ destTx, response = .ok destTx)
  | .confirm _ _ _ => True
  | .fail i _ => i = id → ∀ t, s.relayer.state.getTransfer id = some t → t.status ≠ .completed

/-- At most one call has read the transfer for an unlock; if one has, a call runs or the transfer is
completed. -/
structure Serial (id : String) (s : RelaySystem) : Prop where
  transfer : ∃ t, s.relayer.state.getTransfer id = some t ∧
    (s.reads ≠ [] → (∃ k, ¬ Idle (s.calls k)) ∨ t.status = .completed)
  reads : s.reads.length ≤ 1

theorem not_idle_completing (destTx : String) : ¬ Idle (.completing destTx) := by
  rintro (h | ⟨result, h⟩)
  · cases h
  · cases h

theorem not_idle_unlocking (request : UnlockRequest) : ¬ Idle (.unlocking request) := by
  rintro (h | ⟨result, h⟩)
  · cases h
  · cases h

theorem Serial.next (h : Serial id s) {e : Event} (hcalm : Calm id s e) :
    Serial id (s.next id e) := by
  obtain ⟨t, ht, hbusy⟩ := h.transfer
  have heff := next_effect id s e
  generalize s.next id e = s' at heff
  cases heff with
  | @read k request hk hreq response now =>
    -- a second read would need the transfer to be validated, but it is completed
    have hnone : s.reads = [] := by
      by_contra hne
      rcases hbusy hne with ⟨j, hj⟩ | hdone
      · exact hj (hcalm.1 hk j)
      · rw [ht] at hreq
        have hval := (of_afterRead_unlocking hreq).1
        rw [hdone] at hval
        cases hval
    refine ⟨⟨t, ht, fun _ => .inl ⟨k, ?_⟩⟩, ?_⟩
    · simp only [Function.update_self]
      exact not_idle_unlocking request
    · simp [hnone]
  | @pass k c hk hc hnot response now =>
    refine ⟨⟨t, ht, fun hne => ?_⟩, h.reads⟩
    rcases hbusy hne with ⟨j, hj⟩ | hdone
    · exact absurd (hcalm.1 hk j) hj
    · exact .inr hdone
  | @unlock k request hk response now =>
    obtain ⟨destTx, rfl⟩ := hcalm.2 ⟨request, hk⟩
    refine ⟨⟨t, ht, fun _ => .inl ⟨k, ?_⟩⟩, h.reads⟩
    simp only [Function.update_self]
    exact not_idle_completing destTx
  | @complete k destTx hk response now =>
    exact ⟨⟨_, complete_transfer ht destTx now, fun _ => .inr rfl⟩, h.reads⟩
  | idle hk response now => exact h
  | confirm i validator now =>
    obtain ⟨t', ht', -, -, hsame⟩ := confirm_transfer s.relayer i validator now ht
    refine ⟨⟨t', ht', fun hne => ?_⟩, h.reads⟩
    rcases hbusy hne with hrun | hdone
    · exact .inl hrun
    · rw [hsame hdone]
      exact .inr hdone
  | fail i now =>
    obtain ⟨t', ht', -, -, hsame⟩ := fail_transfer s.relayer.state i now ht
    refine ⟨⟨t', ht', fun hne => ?_⟩, h.reads⟩
    rcases hbusy hne with hrun | hdone
    · exact .inl hrun
    · have hother : i ≠ id := fun he => hcalm he t ht hdone
      rw [hsame hother]
      exact .inr hdone

theorem serial_of_run {t₀ : BridgeTransfer} (ht : r.state.getTransfer id = some t₀)
    {events : List Event} (hr : Run (Step id) (Calm id) (start r) events s) : Serial id s := by
  refine hr.invariant ⟨⟨t₀, ht, fun h => absurd rfl h⟩, Nat.zero_le 1⟩ ?_
  rintro u e v hu hcalm rfl
  exact hu.next hcalm

/-- The adapter was called at most once, and a hash that is recorded for the transfer is what the
call returned. -/
def UnlockedOnce (id : String) (s : RelaySystem) : Prop :=
  s.unlocks.length ≤ 1 ∧ ∀ u ∈ s.unlocks, ∀ t destTx, s.relayer.state.getTransfer id = some t →
    t.destTxHash = some destTx → u.2.2 = .ok destTx

def smallTransfer : BridgeTransfer :=
  ⟨"t", .outbound, "RustChain", "Ethereum", "a", "b", "RCT", 1000, 1, .validated, none, none, 2, 2,
    0, 0, 0⟩

/-- A relayer with that transfer and an adapter for Ethereum. -/
def smallRelayer : BridgeRelayer :=
  ⟨(BridgeState.new .default).put "t" smallTransfer, ∅, {.ethereum}⟩

def inTurn : List Event :=
  [.access 0 (.ok "x") 1, .access 0 (.ok "x") 2, .access 0 (.ok "x") 3, .access 1 (.ok "y") 4,
    .access 1 (.ok "y") 5, .access 1 (.ok "y") 6]

def inParallel : List Event :=
  [.access 0 (.ok "x") 1, .access 1 (.ok "y") 2, .access 0 (.ok "x") 3, .access 1 (.ok "y") 4,
    .access 0 (.ok "x") 5, .access 1 (.ok "y") 6]

def isUnlocking : FinalizeCall → Bool
  | .unlocking _ => true
  | _ => false

theorem not_unlocking_of_isUnlocking {c : FinalizeCall} (h : isUnlocking c = false) :
    ¬ Unlocking c := by
  rintro ⟨request, rfl⟩
  cases h

theorem calls_foldl_of_notMem {k : ℕ} (events : List Event) (s : RelaySystem)
    (h : ∀ j response now, Event.access j response now ∈ events → j ≠ k) :
    (events.foldl (next id) s).calls k = s.calls k := by
  induction events generalizing s with
  | nil => rfl
  | cons e events ih =>
    rw [List.foldl_cons, ih _ fun j response now hj => h j response now (.tail _ hj)]
    cases e with
    | access j response now =>
      exact Function.update_of_ne (h j response now (.head _)).symm _ _
    | confirm i validator now => rfl
    | fail i now => rfl

end RelaySystem

end Rustchain.Bridge

import Rustchain.Bridge.Htlc

/-! # Concurrent creation of swaps

Any number of calls of `create_swap` with one hash lock, interleaved access by access: the look for
an existing swap, the write of the new one and the two pushes to the indices. Every call that finds
no swap goes on to write its own, so what counts is how many calls pass the check. -/

namespace Rustchain.Bridge

open Rustchain.Core Lib.Machine Lib.Maps Lib.Runs

/-- Where a call of `create_swap` stands. -/
inductive CreateCall where
  /-- Before `contains_key`. -/
  | checking
  /-- Before the write to the swaps. -/
  | inserting (swap : HtlcSwap)
  /-- Before the push to the index of senders. -/
  | pushingSender (swap : HtlcSwap)
  /-- Before the push to the index of recipients. -/
  | pushingRecipient (swap : HtlcSwap)
  | returned (result : Except BridgeError HtlcSwap)

namespace CreateCall

open HtlcManager

/-- What a call does next, given whether a swap was found. The checks of the amount and of the
timelock touch nothing shared. -/
def afterCheck (defaultTimelock : ℕ) (req : SwapRequest) (now : ℕ) (found : Bool) : CreateCall :=
  let id := swapId req.hashLock
  if found then .returned (.error (.htlcAlreadyExists id))
  else if req.amount = 0 then .returned (.error (.invalidAmount "Amount must be > 0"))
  else
    let timelock := req.timelock.getD (addU 64 now defaultTimelock).val
    if timelock ≤ now then .returned (.error (.invalidAmount "Timelock must be in the future"))
    else .inserting (newSwap req timelock now)

def access (req : SwapRequest) (now : ℕ) (m : HtlcManager) : CreateCall → CreateCall × HtlcManager
  | .checking =>
    (afterCheck m.defaultTimelock req now (m.swaps.lookup (swapId req.hashLock)).isSome, m)
  | .inserting swap => (.pushingSender swap, { m with swaps := m.swaps.insert swap.id swap })
  | .pushingSender swap =>
    (.pushingRecipient swap, { m with bySender := pushId m.bySender swap.sender swap.id })
  | .pushingRecipient swap =>
    (.returned (.ok swap), { m with byRecipient := pushId m.byRecipient swap.recipient swap.id })
  | .returned result => (.returned result, m)

def advance (req : SwapRequest) (now : ℕ) (p : CreateCall × HtlcManager) :
    CreateCall × HtlcManager :=
  access req now p.2 p.1

def swap? : CreateCall → Option HtlcSwap
  | .inserting swap | .pushingSender swap | .pushingRecipient swap | .returned (.ok swap) =>
    some swap
  | .checking | .returned (.error _) => none

end CreateCall

/-- The swaps, the calls on one hash lock, and the calls that passed the check. -/
structure CreateSystem where
  manager : HtlcManager
  calls : ℕ → CreateCall
  passed : List ℕ

namespace CreateSystem

open HtlcManager

def start (m : HtlcManager) : CreateSystem := ⟨m, fun _ => .checking, []⟩

/-- The calls that passed the check, once `k` went from `c` to `c'`. -/
def passedAfter (passed : List ℕ) (k : ℕ) : CreateCall → CreateCall → List ℕ
  | .checking, .inserting _ => passed ++ [k]
  | _, _ => passed

/-- The system after an access of a call, given with its clock reading. -/
def next (reqs : ℕ → SwapRequest) (s : CreateSystem) (e : ℕ × ℕ) : CreateSystem :=
  let r := CreateCall.access (reqs e.1) e.2 s.manager (s.calls e.1)
  { manager := r.2
    calls := Function.update s.calls e.1 r.1
    passed := passedAfter s.passed e.1 (s.calls e.1) r.1 }

def after (reqs : ℕ → SwapRequest) (m : HtlcManager) (events : List (ℕ × ℕ)) : CreateSystem :=
  events.foldl (next reqs) (start m)

theorem after_concat (reqs : ℕ → SwapRequest) (m : HtlcManager) (events : List (ℕ × ℕ))
    (e : ℕ × ℕ) : after reqs m (events ++ [e]) = (after reqs m events).next reqs e := by
  unfold after
  rw [List.foldl_append]
  rfl

/-- Every call that has begun has returned. -/
def Quiet (s : CreateSystem) : Prop :=
  ∀ k, s.calls k = .checking ∨ ∃ result, s.calls k = .returned result

/-- How often an index lists an id, over all its keys. -/
def listed (index : HashMap Address (List String)) (id : String) : ℕ :=
  total (fun ids => ids.count id) index.toFinmap

/-- **One creation**: at most one call returned a swap, which is the one that is stored, no access
overwrote a swap, and each index lists the id at most once. -/
structure CreatedOnce (reqs : ℕ → SwapRequest) (m : HtlcManager) (id : String)
    (events : List (ℕ × ℕ)) : Prop where
  one : ∀ j k a b, (after reqs m events).calls j = .returned (.ok a) →
    (after reqs m events).calls k = .returned (.ok b) → j = k
  stored : ∀ k swap, (after reqs m events).calls k = .returned (.ok swap) →
    (after reqs m events).manager.swaps.lookup id = some swap
  kept : ∀ p e, p ++ [e] <+: events → ∀ swap,
    (after reqs m p).manager.swaps.lookup id = some swap →
    (after reqs m (p ++ [e])).manager.swaps.lookup id = some swap
  bySender : listed (after reqs m events).manager.bySender id ≤ 1
  byRecipient : listed (after reqs m events).manager.byRecipient id ≤ 1

/-! ### One access -/

/-- What an access does, by the stage of the call. -/
inductive Effect (reqs : ℕ → SwapRequest) (s : CreateSystem) (k : ℕ) : CreateSystem → Prop
  | pass {swap : HtlcSwap} (hk : s.calls k = .checking)
      (hfree : s.manager.swaps.lookup (swapId (reqs k).hashLock) = none)
      (hid : swap.id = swapId (reqs k).hashLock) :
      Effect reqs s k ⟨s.manager, Function.update s.calls k (.inserting swap), s.passed ++ [k]⟩
  | refuse (hk : s.calls k = .checking) (e : BridgeError) :
      Effect reqs s k ⟨s.manager, Function.update s.calls k (.returned (.error e)), s.passed⟩
  | insert {swap : HtlcSwap} (hk : s.calls k = .inserting swap) :
      Effect reqs s k ⟨{ s.manager with swaps := s.manager.swaps.insert swap.id swap },
        Function.update s.calls k (.pushingSender swap), s.passed⟩
  | sender {swap : HtlcSwap} (hk : s.calls k = .pushingSender swap) :
      Effect reqs s k
        ⟨{ s.manager with bySender := pushId s.manager.bySender swap.sender swap.id },
          Function.update s.calls k (.pushingRecipient swap), s.passed⟩
  | recipient {swap : HtlcSwap} (hk : s.calls k = .pushingRecipient swap) :
      Effect reqs s k
        ⟨{ s.manager with byRecipient := pushId s.manager.byRecipient swap.recipient swap.id },
          Function.update s.calls k (.returned (.ok swap)), s.passed⟩
  | idle {result : Except BridgeError HtlcSwap} (hk : s.calls k = .returned result) :
      Effect reqs s k s

theorem effect_next (reqs : ℕ → SwapRequest) (s : CreateSystem) (e : ℕ × ℕ) :
    Effect reqs s e.1 (s.next reqs e) := by
  obtain ⟨k, now⟩ := e
  unfold next
  dsimp only
  cases hk : s.calls k with
  | checking =>
    simp only [CreateCall.access, CreateCall.afterCheck]
    split_ifs with hfound hzero hlock
    · exact .refuse hk _
    · exact .refuse hk _
    · exact .refuse hk _
    · exact .pass hk (by simpa using hfound) rfl
  | inserting swap => exact .insert hk
  | pushingSender swap => exact .sender hk
  | pushingRecipient swap => exact .recipient hk
  | returned result =>
    have hsame : Function.update s.calls k (.returned result) = s.calls := by
      rw [← hk]
      exact Function.update_eq_self k s.calls
    simp only [CreateCall.access, passedAfter, hsame]
    exact .idle hk

/-! ### Who has passed -/

/-- The calls that passed are those that store a swap, each once, under the id. -/
structure Tallied (id : String) (s : CreateSystem) : Prop where
  nodup : s.passed.Nodup
  mem : ∀ k, k ∈ s.passed ↔ (s.calls k).swap?.isSome = true
  ids : ∀ k swap, (s.calls k).swap? = some swap → swap.id = id

variable {id : String} {s : CreateSystem}

theorem Tallied.update (h : Tallied id s) {k : ℕ} {c : CreateCall}
    (hc : c.swap? = (s.calls k).swap?) (m : HtlcManager) :
    Tallied id ⟨m, Function.update s.calls k c, s.passed⟩ := by
  have hsame : ∀ j, (Function.update s.calls k c j).swap? = (s.calls j).swap? := by
    intro j
    by_cases hj : j = k
    · subst hj
      rw [Function.update_self, hc]
    · rw [Function.update_of_ne hj]
  refine ⟨h.nodup, fun j => ?_, fun j swap hs => ?_⟩
  · rw [h.mem j]
    show _ ↔ (Function.update s.calls k c j).swap?.isSome = true
    rw [hsame]
  · exact h.ids j swap (by rw [← hsame]; exact hs)

variable {hashLock : Vector UInt8 32} {reqs : ℕ → SwapRequest}

theorem Tallied.next (hreqs : ∀ k, (reqs k).hashLock = hashLock) (h : Tallied (swapId hashLock) s)
    (e : ℕ × ℕ) : Tallied (swapId hashLock) (s.next reqs e) := by
  have heff := effect_next reqs s e
  generalize s.next reqs e = s' at heff ⊢
  cases heff with
  | @pass swap hk hfree hid =>
    have hnot : e.1 ∉ s.passed := by
      rw [h.mem, hk]
      simp [CreateCall.swap?]
    refine ⟨List.nodup_append_comm.mp (h.nodup.cons hnot), fun j => ?_, fun j t hs => ?_⟩
    · by_cases hj : j = e.1
      · subst hj
        simp [CreateCall.swap?]
      · have hm := h.mem j
        simp only [List.mem_append, List.mem_singleton, hj, or_false]
        rw [hm, Function.update_of_ne hj]
    · dsimp only at hs
      by_cases hj : j = e.1
      · subst hj
        rw [Function.update_self] at hs
        obtain rfl := Option.some.inj hs
        rw [hid, hreqs]
      · rw [Function.update_of_ne hj] at hs
        exact h.ids j t hs
  | refuse hk e => exact h.update (by rw [hk]; rfl) _
  | insert hk => exact h.update (by rw [hk]; rfl) _
  | sender hk => exact h.update (by rw [hk]; rfl) _
  | recipient hk => exact h.update (by rw [hk]; rfl) _
  | idle hk => exact h

theorem tallied_after (hreqs : ∀ k, (reqs k).hashLock = hashLock) (m : HtlcManager)
    (events : List (ℕ × ℕ)) :
    Tallied (swapId hashLock) (after reqs m events) := by
  refine foldl_invariant ⟨List.nodup_nil, fun k => ?_, fun k swap hs => ?_⟩
    (fun s e h => h.next hreqs e) events
  · simp [start, CreateCall.swap?]
  · cases hs

theorem passed_prefix_next (reqs : ℕ → SwapRequest) (s : CreateSystem) (e : ℕ × ℕ) :
    s.passed <+: (s.next reqs e).passed := by
  have heff := effect_next reqs s e
  generalize s.next reqs e = s' at heff ⊢
  cases heff with
  | pass hk hfree hid => exact List.prefix_append _ _
  | refuse hk e => exact List.prefix_refl _
  | insert hk => exact List.prefix_refl _
  | sender hk => exact List.prefix_refl _
  | recipient hk => exact List.prefix_refl _
  | idle hk => exact List.prefix_refl _

theorem length_passed_mono (reqs : ℕ → SwapRequest) (m : HtlcManager) {p q : List (ℕ × ℕ)}
    (h : p <+: q) : (after reqs m p).passed.length ≤ (after reqs m q).passed.length := by
  obtain ⟨l, rfl⟩ := h
  induction l using List.reverseRecOn with
  | nil => rw [List.append_nil]
  | append_singleton l e ih =>
    rw [← List.append_assoc, after_concat]
    exact ih.trans (passed_prefix_next reqs _ e).length_le

/-! ### A call on its own -/

/-- The manager while one call stores its swap, by the stage of the call. -/
def stageManager (m : HtlcManager) (swap : HtlcSwap) : CreateCall → HtlcManager
  | .checking | .inserting _ => m
  | .pushingSender _ => { m with swaps := m.swaps.insert swap.id swap }
  | .pushingRecipient _ =>
    { m with
      swaps := m.swaps.insert swap.id swap
      bySender := pushId m.bySender swap.sender swap.id }
  | .returned _ => m.store swap

/-- At most one call has passed, and only its accesses show in the manager. -/
inductive Solo (m : HtlcManager) (id : String) (s : CreateSystem) : Prop
  | none (hp : s.passed = []) (hm : s.manager = m)
  | one {k : ℕ} {swap : HtlcSwap} (hp : s.passed = [k]) (hfree : m.swaps.lookup id = none)
      (hs : (s.calls k).swap? = some swap) (hid : swap.id = id)
      (hm : s.manager = stageManager m swap (s.calls k))

variable {m : HtlcManager}

theorem Solo.advance (h : Solo m id s) (htally : Tallied id s) {k : ℕ} {swap : HtlcSwap}
    {c : CreateCall} {m' : HtlcManager} (hk : (s.calls k).swap? = some swap)
    (hc : c.swap? = some swap)
    (hm' : s.manager = stageManager m swap (s.calls k) → m' = stageManager m swap c) :
    Solo m id ⟨m', Function.update s.calls k c, s.passed⟩ := by
  have hmem : k ∈ s.passed := (htally.mem k).mpr (by rw [hk]; rfl)
  cases h with
  | none hp hm =>
    rw [hp] at hmem
    cases hmem
  | @one j t hp hfree hs hid hm =>
    rw [hp, List.mem_singleton] at hmem
    subst hmem
    obtain rfl := Option.some.inj (hk.symm.trans hs)
    refine .one hp hfree ?_ hid ?_
    · dsimp only
      rw [Function.update_self]
      exact hc
    · dsimp only
      rw [Function.update_self]
      exact hm' hm

theorem Solo.next (hreqs : ∀ k, (reqs k).hashLock = hashLock) (htally : Tallied (swapId hashLock) s)
    (h : Solo m (swapId hashLock) s) (e : ℕ × ℕ) (hle : (s.next reqs e).passed.length ≤ 1) :
    Solo m (swapId hashLock) (s.next reqs e) := by
  have heff := effect_next reqs s e
  generalize s.next reqs e = s' at heff hle ⊢
  cases heff with
  | @pass swap hk hfree hid =>
    cases h with
    | none hp hm =>
      rw [hreqs, hm] at hfree
      rw [hreqs] at hid
      refine .one (k := e.1) (by rw [hp]; rfl) hfree ?_ hid ?_
      · dsimp only
        rw [Function.update_self]
        rfl
      · dsimp only
        rw [Function.update_self]
        exact hm
    | one hp => simp [hp] at hle
  | refuse hk err =>
    cases h with
    | none hp hm => exact .none hp hm
    | @one j t hp hfree hs hid hm =>
      have hne : j ≠ e.1 := by
        rintro rfl
        rw [hk] at hs
        cases hs
      refine .one (k := j) hp hfree ?_ hid ?_
      · dsimp only
        rw [Function.update_of_ne hne]
        exact hs
      · dsimp only
        rw [Function.update_of_ne hne]
        exact hm
  | @insert swap hk =>
    refine h.advance htally (by rw [hk]; rfl) rfl fun hm => ?_
    rw [hm, hk]
    rfl
  | @sender swap hk =>
    refine h.advance htally (by rw [hk]; rfl) rfl fun hm => ?_
    rw [hm, hk]
    rfl
  | @recipient swap hk =>
    refine h.advance htally (by rw [hk]; rfl) rfl fun hm => ?_
    rw [hm, hk]
    rfl
  | idle hk => exact h

variable {events : List (ℕ × ℕ)}

theorem solo_after (hreqs : ∀ k, (reqs k).hashLock = hashLock) (m : HtlcManager)
    (h : (after reqs m events).passed.length ≤ 1) :
    Solo m (swapId hashLock) (after reqs m events) := by
  induction events using List.reverseRecOn with
  | nil => exact .none rfl rfl
  | append_singleton events e ih =>
    have hle := length_passed_mono reqs m (List.prefix_append events [e])
    have hsolo := ih (hle.trans h)
    rw [after_concat] at h ⊢
    exact hsolo.next hreqs (tallied_after hreqs m events) e h

/-! ### The indices -/

theorem listed_pushId (index : HashMap Address (List String)) (key : Address) (k id : String) :
    listed (pushId index key k) id = listed index id + if k = id then 1 else 0 := by
  have h := total_insert (fun ids : List String => ids.count id) index.toFinmap key
    ((index.lookup key).getD [] ++ [k])
  rw [Finmap.insert_toFinmap] at h
  have hw : weightAt (fun ids : List String => ids.count id) index.toFinmap key =
      ((index.lookup key).getD []).count id := by
    show ((index.lookup key).map _).getD 0 = _
    cases index.lookup key with
    | none => rfl
    | some ids => rfl
  rw [hw, List.count_append, List.count_singleton] at h
  unfold listed pushId
  simp only [beq_iff_eq] at h
  omega

/-- The indices list the id at most once, and only if there is a swap. -/
structure Indexed (id : String) (m : HtlcManager) : Prop where
  bySender : listed m.bySender id ≤ 1
  byRecipient : listed m.byRecipient id ≤ 1
  free : m.swaps.lookup id = none → listed m.bySender id = 0 ∧ listed m.byRecipient id = 0

theorem indexed_new (defaultTimelock : ℕ) (id : String) :
    Indexed id (HtlcManager.new defaultTimelock) :=
  ⟨Nat.zero_le 1, Nat.zero_le 1, fun _ => ⟨rfl, rfl⟩⟩

theorem Indexed.put (h : Indexed id m) (k : String) (swap : HtlcSwap) :
    Indexed id (m.put k swap) := by
  refine ⟨h.bySender, h.byRecipient, fun hfree => h.free ?_⟩
  cases hl : m.swaps.lookup id with
  | none => rfl
  | some t =>
    rw [lookup_put hl] at hfree
    cases hfree

theorem Indexed.store (h : Indexed id m) {swap : HtlcSwap} (hfree : m.swaps.lookup swap.id = none) :
    Indexed id (m.store swap) := by
  have hs := listed_pushId m.bySender swap.sender swap.id id
  have hr := listed_pushId m.byRecipient swap.recipient swap.id id
  by_cases hid : swap.id = id
  · obtain ⟨hzero, hzero'⟩ := h.free (hid ▸ hfree)
    rw [if_pos hid] at hs hr
    refine ⟨by show listed (pushId _ _ _) id ≤ 1; omega,
      by show listed (pushId _ _ _) id ≤ 1; omega, fun hnone => ?_⟩
    rw [HtlcManager.store, ← hid, AList.lookup_insert] at hnone
    cases hnone
  · rw [if_neg hid, Nat.add_zero] at hs hr
    refine ⟨hs ▸ h.bySender, hr ▸ h.byRecipient, fun hnone => ?_⟩
    rw [HtlcManager.store, AList.lookup_insert_ne (Ne.symm hid)] at hnone
    obtain ⟨hzero, hzero'⟩ := h.free hnone
    exact ⟨hs.trans hzero, hr.trans hzero'⟩

theorem indexed_of_run {sha256 : Bytes → Vector UInt8 32} {defaultTimelock : ℕ} {ops : List Op}
    (hr : Run (Step sha256) Free (HtlcManager.new defaultTimelock) ops m) (id : String) :
    Indexed id m := by
  refine hr.invariant (indexed_new defaultTimelock id) ?_
  rintro u op v hu - rfl
  have heff := call_effect sha256 u op
  generalize (u.call sha256 op).1 = r at heff
  generalize (u.call sha256 op).2 = v at heff ⊢
  cases heff with
  | none e => exact hu
  | late hl hs ht e => exact hu.put _ _
  | move hl hm => exact hu.put _ _
  | create hop hl => exact hu.store hl
  | @sweep now hop =>
    refine ⟨hu.bySender, hu.byRecipient, fun hfree => hu.free ?_⟩
    rw [expireStaleSwaps, lookup_mapValues] at hfree
    exact Option.map_eq_none_iff.mp hfree

/-! ### The theorem -/

theorem Solo.listed_le (h : Solo m id s) (hindex : Indexed id m) :
    listed s.manager.bySender id ≤ 1 ∧ listed s.manager.byRecipient id ≤ 1 := by
  cases h with
  | none hp hm =>
    rw [hm]
    exact ⟨hindex.bySender, hindex.byRecipient⟩
  | @one k swap hp hfree hs hid hm =>
    obtain ⟨hzero, hzero'⟩ := hindex.free hfree
    have hpush : listed (pushId m.bySender swap.sender swap.id) id ≤ 1 := by
      rw [listed_pushId, hzero, if_pos hid]
    have hpush' : listed (pushId m.byRecipient swap.recipient swap.id) id ≤ 1 := by
      rw [listed_pushId, hzero', if_pos hid]
    rw [hm]
    cases s.calls k with
    | checking => exact ⟨hindex.bySender, hindex.byRecipient⟩
    | inserting => exact ⟨hindex.bySender, hindex.byRecipient⟩
    | pushingSender => exact ⟨hindex.bySender, hindex.byRecipient⟩
    | pushingRecipient => exact ⟨hpush, hindex.byRecipient⟩
    | returned => exact ⟨hpush, hpush'⟩

theorem Solo.lookup_next (h : Solo m id s) (htally : Tallied id s) (e : ℕ × ℕ) {swap : HtlcSwap}
    (hl : s.manager.swaps.lookup id = some swap) :
    (s.next reqs e).manager.swaps.lookup id = some swap := by
  have heff := effect_next reqs s e
  generalize s.next reqs e = s' at heff ⊢
  cases heff with
  | pass hk hfree hid => exact hl
  | refuse hk err => exact hl
  | @insert t hk =>
    have hmem : e.1 ∈ s.passed := (htally.mem e.1).mpr (by rw [hk]; rfl)
    cases h with
    | none hp hm =>
      rw [hp] at hmem
      cases hmem
    | @one j u hp hfree hs hid hm =>
      rw [hp, List.mem_singleton] at hmem
      rw [hm, ← hmem, hk] at hl
      rw [stageManager, hfree] at hl
      cases hl
  | sender hk => exact hl
  | recipient hk => exact hl
  | idle hk => exact hl

/-- At most one call passes when no call makes its check while another stands before its write. -/
theorem length_passed_le_one (hreqs : ∀ k, (reqs k).hashLock = hashLock) (m : HtlcManager)
    (hexcl : ∀ p e, p ++ [e] <+: events → (after reqs m p).calls e.1 =
      .checking → ∀ k swap, (after reqs m p).calls k ≠ .inserting swap) :
    (after reqs m events).passed.length ≤ 1 := by
  induction events using List.reverseRecOn with
  | nil => exact Nat.zero_le 1
  | append_singleton events e ih =>
    have hle := ih fun p e' hp => hexcl p e' (hp.trans (List.prefix_append events [e]))
    have hsolo := solo_after hreqs m hle
    have hlast := hexcl events e (List.prefix_refl _)
    rw [after_concat]
    generalize after reqs m events = s at hle hsolo hlast ⊢
    have heff := effect_next reqs s e
    generalize s.next reqs e = s' at heff ⊢
    cases heff with
    | @pass swap hk hfree hid =>
      rw [hreqs] at hfree
      cases hsolo with
      | none hp hm => simp [hp]
      | @one j t hp hnone hs hid' hm =>
        -- the call that passed has written its swap, so the check would have found it
        exfalso
        have hstored : ∀ u : HashMap String HtlcSwap, u = m.swaps.insert t.id t →
            s.manager.swaps = u → False := by
          rintro u rfl hu
          rw [hu, ← hid', AList.lookup_insert] at hfree
          cases hfree
        cases hj : s.calls j with
        | checking => rw [hj] at hs; cases hs
        | inserting u => exact hlast hk j u hj
        | pushingSender u => exact hstored _ rfl (by rw [hm, hj]; rfl)
        | pushingRecipient u => exact hstored _ rfl (by rw [hm, hj]; rfl)
        | returned r => exact hstored _ rfl (by rw [hm, hj]; rfl)
    | refuse hk err => exact hle
    | insert hk => exact hle
    | sender hk => exact hle
    | recipient hk => exact hle
    | idle hk => exact hle

/-- Two parties that ask for a swap with the hash lock of zeros. -/
def twoRequests (k : ℕ) : SwapRequest :=
  ⟨⟨Vector.replicate 20 (UInt8.ofNat k)⟩, ⟨Vector.replicate 20 9⟩, 100 + k, Vector.replicate 32 0,
    .ethereum, "0xaddress", "1", some 1000⟩

/-- Whether a call is between its check and its return. -/
def isBusy : CreateCall → Bool
  | .inserting _ | .pushingSender _ | .pushingRecipient _ => true
  | .checking | .returned _ => false

theorem quiet_of_isBusy (h : ∀ k, isBusy (s.calls k) = false) : Quiet s := by
  intro k
  have hk := h k
  cases hc : s.calls k with
  | checking => exact .inl rfl
  | returned result => exact .inr ⟨result, rfl⟩
  | inserting swap => rw [hc] at hk; cases hk
  | pushingSender swap => rw [hc] at hk; cases hk
  | pushingRecipient swap => rw [hc] at hk; cases hk

theorem calls_after_of_notMem {k : ℕ} (h : ∀ e ∈ events, e.1 ≠ k) :
    (after reqs m events).calls k = .checking := by
  induction events using List.reverseRecOn with
  | nil => rfl
  | append_singleton events e ih =>
    rw [after_concat]
    refine (Function.update_of_ne (Ne.symm (h e (by simp))) _ _).trans ?_
    exact ih fun e' he' => h e' (by simp [he'])

theorem quiet_two (h : ∀ e ∈ events, e.1 < 2) (h0 : isBusy ((after reqs m events).calls 0) = false)
    (h1 : isBusy ((after reqs m events).calls 1) = false) : Quiet (after reqs m events) := by
  refine quiet_of_isBusy fun k => ?_
  rcases Nat.lt_or_ge k 2 with hk | hk
  · obtain rfl | rfl : k = 0 ∨ k = 1 := by omega
    · exact h0
    · exact h1
  · rw [calls_after_of_notMem]
    · rfl
    · intro e he hek
      have := h e he
      omega

end CreateSystem

end Rustchain.Bridge

import Rustchain.Bridge.Types
import Rustchain.Lib.Runs

/-! # Hash time-locked swaps

`HtlcManager`: swaps that the recipient claims with a preimage before the timelock, and that the
sender takes back from the timelock on. A swap can be marked as expired on the way, by a late claim
or by maintenance. What a call can do to one swap is said once (`Moves`); the results on runs are
read off it. SHA-256 is a parameter. -/

namespace Rustchain.Bridge

open Rustchain.Core Lib.Machine Lib.Maps Lib.Runs

structure HtlcSwap where
  id : String
  hashLock : Vector UInt8 32
  preimage : Option Bytes
  sender : Address
  recipient : Address
  amount : ℕ
  externalChain : ExternalChain
  externalAddress : String
  externalAmount : String
  timelock : ℕ
  status : HtlcStatus
  createdAt : ℕ
  settledAt : Option ℕ
  deriving DecidableEq

structure HtlcManager where
  swaps : HashMap String HtlcSwap
  bySender : HashMap Address (List String)
  byRecipient : HashMap Address (List String)
  defaultTimelock : ℕ

/-- The arguments of `create_swap`. -/
structure SwapRequest where
  sender : Address
  recipient : Address
  amount : ℕ
  hashLock : Vector UInt8 32
  externalChain : ExternalChain
  externalAddress : String
  externalAmount : String
  timelock : Option ℕ

namespace HtlcManager

def new (defaultTimelock : ℕ) : HtlcManager := ⟨∅, ∅, ∅, defaultTimelock⟩

/-- The id of a swap: its hash lock in hexadecimal. -/
def swapId (hashLock : Vector UInt8 32) : String := hexEncode hashLock.toList

/-- The swap that `create_swap` stores. -/
def newSwap (req : SwapRequest) (timelock now : ℕ) : HtlcSwap where
  id := swapId req.hashLock
  hashLock := req.hashLock
  preimage := none
  sender := req.sender
  recipient := req.recipient
  amount := req.amount
  externalChain := req.externalChain
  externalAddress := req.externalAddress
  externalAmount := req.externalAmount
  timelock := timelock
  status := .active
  createdAt := now
  settledAt := none

/-- `entry(key).or_default().push(id)`. -/
def pushId (index : HashMap Address (List String)) (key : Address) (id : String) :
    HashMap Address (List String) :=
  index.insert key ((index.lookup key).getD [] ++ [id])

/-- The three writes of `create_swap`. -/
def store (m : HtlcManager) (swap : HtlcSwap) : HtlcManager :=
  { m with
    swaps := m.swaps.insert swap.id swap
    bySender := pushId m.bySender swap.sender swap.id
    byRecipient := pushId m.byRecipient swap.recipient swap.id }

/-- **`create_swap`** at the clock reading `now`. The sum of `now` and the default timelock wraps
as in a build without overflow checks; with them the call panics there, before any write. -/
def createSwap (m : HtlcManager) (req : SwapRequest) (now : ℕ) :
    Except BridgeError HtlcSwap × HtlcManager :=
  let id := swapId req.hashLock
  if (m.swaps.lookup id).isSome then (.error (.htlcAlreadyExists id), m)
  else if req.amount = 0 then (.error (.invalidAmount "Amount must be > 0"), m)
  else
    let timelock := req.timelock.getD (addU 64 now m.defaultTimelock).val
    if timelock ≤ now then (.error (.invalidAmount "Timelock must be in the future"), m)
    else (.ok (newSwap req timelock now), m.store (newSwap req timelock now))

/-- Write through `get_mut`. -/
def put (m : HtlcManager) (id : String) (swap : HtlcSwap) : HtlcManager :=
  { m with swaps := m.swaps.insert id swap }

/-- **`claim_swap`** at the clock reading `now`. -/
def claimSwap (sha256 : Bytes → Vector UInt8 32) (m : HtlcManager) (id : String) (preimage : Bytes)
    (claimer : Address) (now : ℕ) : Except BridgeError HtlcSwap × HtlcManager :=
  match m.swaps.lookup id with
  | none => (.error (.htlcNotFound id), m)
  | some swap =>
    if swap.status = .claimed then (.error .htlcAlreadyClaimed, m)
    else if swap.status = .refunded then (.error .htlcAlreadyRefunded, m)
    else if claimer ≠ swap.recipient then
      (.error (.unauthorized "Only the recipient can claim"), m)
    else if swap.timelock ≤ now then
      (.error .htlcExpired, m.put id { swap with status := .expired })
    else if sha256 preimage ≠ swap.hashLock then (.error .invalidPreimage, m)
    else
      let swap' := { swap with
        preimage := some preimage, status := .claimed, settledAt := some now }
      (.ok swap', m.put id swap')

/-- **`refund_swap`** at the clock reading `now`. -/
def refundSwap (m : HtlcManager) (id : String) (refunder : Address) (now : ℕ) :
    Except BridgeError HtlcSwap × HtlcManager :=
  match m.swaps.lookup id with
  | none => (.error (.htlcNotFound id), m)
  | some swap =>
    if swap.status = .claimed then (.error .htlcAlreadyClaimed, m)
    else if swap.status = .refunded then (.error .htlcAlreadyRefunded, m)
    else if refunder ≠ swap.sender then (.error (.unauthorized "Only the sender can refund"), m)
    else if now < swap.timelock then (.error .htlcNotExpired, m)
    else
      let swap' := { swap with status := .refunded, settledAt := some now }
      (.ok swap', m.put id swap')

/-- A swap is active past its timelock. -/
def stale (now : ℕ) (swap : HtlcSwap) : Bool :=
  decide (swap.status = .active) && decide (swap.timelock ≤ now)

/-- **`expire_stale_swaps`**: the number of swaps that expired and the manager afterwards. -/
def expireStaleSwaps (m : HtlcManager) (now : ℕ) : ℕ × HtlcManager :=
  (m.swaps.entries.countP fun e => stale now e.2,
    { m with
      swaps := mapValues
        (fun swap => if stale now swap then { swap with status := .expired } else swap) m.swaps })

/-! ### Calls -/

/-- The calls that change the swaps, each with the clock reading that it meets. -/
inductive Op where
  | createSwap (req : SwapRequest) (now : ℕ)
  | claimSwap (id : String) (preimage : Bytes) (claimer : Address) (now : ℕ)
  | refundSwap (id : String) (refunder : Address) (now : ℕ)
  | expireStaleSwaps (now : ℕ)

def Op.now : Op → ℕ
  | .createSwap _ now => now
  | .claimSwap _ _ _ now => now
  | .refundSwap _ _ now => now
  | .expireStaleSwaps now => now

variable (sha256 : Bytes → Vector UInt8 32)

/-- One call: its error or nothing, and the manager afterwards. -/
def call (m : HtlcManager) : Op → Except BridgeError Unit × HtlcManager
  | .createSwap req now => ((m.createSwap req now).1.map fun _ => (), (m.createSwap req now).2)
  | .claimSwap id preimage claimer now =>
    ((m.claimSwap sha256 id preimage claimer now).1.map fun _ => (),
      (m.claimSwap sha256 id preimage claimer now).2)
  | .refundSwap id refunder now =>
    ((m.refundSwap id refunder now).1.map fun _ => (), (m.refundSwap id refunder now).2)
  | .expireStaleSwaps now => (.ok (), (m.expireStaleSwaps now).2)

def Step (m : HtlcManager) (op : Op) (m' : HtlcManager) : Prop := (m.call sha256 op).2 = m'

/-! ### What a call does to a swap -/

def IsOpen (s : HtlcSwap) : Prop := s.status = .active ∨ s.status = .expired

def Settled (s : HtlcSwap) : Prop := s.status = .claimed ∨ s.status = .refunded

variable {s : HtlcSwap}

theorem isOpen_of_ne (hc : s.status ≠ .claimed) (hr : s.status ≠ .refunded) : IsOpen s := by
  unfold IsOpen
  cases hs : s.status with
  | active => exact .inl rfl
  | expired => exact .inr rfl
  | claimed => exact absurd hs hc
  | refunded => exact absurd hs hr

/-- **The moves of a swap** stored under `id` in one call: it stays; it expires, if it is active and
the timelock is reached; the recipient claims it before the timelock with a preimage of the hash
lock; or the sender takes it back from the timelock on. -/
inductive Moves (op : Op) (id : String) (s : HtlcSwap) : HtlcSwap → Prop
  | stay : Moves op id s s
  | expire (hs : s.status = .active) (ht : s.timelock ≤ op.now) :
      Moves op id s { s with status := .expired }
  | claim {preimage : Bytes} {now : ℕ} (hop : op = .claimSwap id preimage s.recipient now)
      (hs : IsOpen s) (ht : now < s.timelock) (hp : sha256 preimage = s.hashLock) :
      Moves op id s
        { s with preimage := some preimage, status := .claimed, settledAt := some now }
  | refund {now : ℕ} (hop : op = .refundSwap id s.sender now) (hs : IsOpen s)
      (ht : s.timelock ≤ now) :
      Moves op id s { s with status := .refunded, settledAt := some now }

variable {id : String}

theorem moves_expired {op : Op} (hs : IsOpen s) (ht : s.timelock ≤ op.now) :
    Moves sha256 op id s { s with status := .expired } := by
  rcases hs with ha | he
  · exact .expire ha ht
  · have hsame : { s with status := .expired } = s := by rw [← he]
    rw [hsame]
    exact .stay

/-- What a call does to all swaps: nothing, a move of one of them, a new one under an id that was
free, or the expiry of the stale ones. -/
inductive Effect (m : HtlcManager) (op : Op) : Except BridgeError Unit → HtlcManager → Prop
  | none (e : BridgeError) : Effect m op (.error e) m
  | late {id : String} {s : HtlcSwap} (hl : m.swaps.lookup id = some s) (hs : IsOpen s)
      (ht : s.timelock ≤ op.now) (e : BridgeError) :
      Effect m op (.error e) (m.put id { s with status := .expired })
  | move {id : String} {s s' : HtlcSwap} (hl : m.swaps.lookup id = some s)
      (hm : Moves sha256 op id s s') : Effect m op (.ok ()) (m.put id s')
  | create {req : SwapRequest} {timelock now : ℕ} (hop : op = .createSwap req now)
      (hl : m.swaps.lookup (swapId req.hashLock) = Option.none) :
      Effect m op (.ok ()) (m.store (newSwap req timelock now))
  | sweep {now : ℕ} (hop : op = .expireStaleSwaps now) :
      Effect m op (.ok ()) (m.expireStaleSwaps now).2

theorem call_effect (m : HtlcManager) (op : Op) :
    Effect sha256 m op (m.call sha256 op).1 (m.call sha256 op).2 := by
  cases op with
  | createSwap req now =>
    simp only [call, createSwap]
    split_ifs with hex hzero hlock
    · exact .none _
    · exact .none _
    · exact .none _
    · exact .create rfl (by simpa using hex)
  | claimSwap id preimage claimer now =>
    simp only [call, claimSwap]
    cases hl : m.swaps.lookup id with
    | none => exact .none _
    | some s =>
      dsimp only
      split_ifs with hc hr hwho hlate hhash
      · exact .none _
      · exact .none _
      · exact .none _
      · refine .late hl (isOpen_of_ne hc hr) ?_ _
        exact hlate
      · exact .none _
      · obtain rfl := not_not.mp hwho
        exact .move hl (.claim rfl (isOpen_of_ne hc hr) (Nat.not_le.mp hlate) (not_not.mp hhash))
  | refundSwap id refunder now =>
    simp only [call, refundSwap]
    cases hl : m.swaps.lookup id with
    | none => exact .none _
    | some s =>
      dsimp only
      split_ifs with hc hr hwho hearly
      · exact .none _
      · exact .none _
      · exact .none _
      · exact .none _
      · obtain rfl := not_not.mp hwho
        exact .move hl (.refund rfl (isOpen_of_ne hc hr) (Nat.not_lt.mp hearly))
  | expireStaleSwaps now => exact .sweep rfl

variable {sha256} {m m' : HtlcManager} {op : Op}

theorem lookup_put {id k : String} {s s' : HtlcSwap} (hl : m.swaps.lookup k = some s) :
    (m.put id s').swaps.lookup k = some (if k = id then s' else s) := by
  unfold put
  split_ifs with h
  · subst h
    exact AList.lookup_insert _
  · rw [AList.lookup_insert_ne h]
    exact hl

theorem moves_call (hl : m.swaps.lookup id = some s) (op : Op) :
    ∃ s', (m.call sha256 op).2.swaps.lookup id = some s' ∧ Moves sha256 op id s s' := by
  have heff := call_effect sha256 m op
  generalize (m.call sha256 op).1 = r at heff
  generalize (m.call sha256 op).2 = m' at heff
  cases heff with
  | none e => exact ⟨s, hl, .stay⟩
  | @late k t hk hs ht e =>
    refine ⟨_, lookup_put hl, ?_⟩
    split_ifs with h
    · subst h
      obtain rfl : s = t := Option.some.inj (hl.symm.trans hk)
      exact moves_expired sha256 hs ht
    · exact .stay
  | @move k t t' hk hm =>
    refine ⟨_, lookup_put hl, ?_⟩
    split_ifs with h
    · subst h
      obtain rfl : s = t := Option.some.inj (hl.symm.trans hk)
      exact hm
    · exact .stay
  | @create req timelock now hop hfree =>
    have hne : id ≠ swapId req.hashLock := by
      intro he
      rw [he, hfree] at hl
      cases hl
    exact ⟨s, (AList.lookup_insert_ne hne).trans hl, .stay⟩
  | @sweep now hop =>
    refine ⟨if stale now s then { s with status := .expired } else s, ?_, ?_⟩
    · show (mapValues _ m.swaps).lookup id = _
      rw [lookup_mapValues, hl]
      rfl
    · split_ifs with h
      · simp only [stale, Bool.and_eq_true, decide_eq_true_eq] at h
        subst hop
        exact .expire h.1 h.2
      · exact .stay

theorem created_by_call (hfree : m.swaps.lookup id = none)
    (hl : (m.call sha256 op).2.swaps.lookup id = some s) :
    ∃ req timelock now, op = .createSwap req now ∧ s = newSwap req timelock now ∧ id = s.id := by
  have hput : ∀ {k : String} {t t' : HtlcSwap}, m.swaps.lookup k = some t →
      (m.put k t').swaps.lookup id = some s → False := by
    intro k t t' hk hl
    have hne : id ≠ k := by
      intro he
      rw [he, hk] at hfree
      cases hfree
    have hsame : m.swaps.lookup id = some s := by
      rw [← hl]
      exact (AList.lookup_insert_ne hne).symm
    rw [hfree] at hsame
    cases hsame
  have heff := call_effect sha256 m op
  generalize (m.call sha256 op).1 = r at heff
  generalize (m.call sha256 op).2 = m' at heff hl
  cases heff with
  | none e =>
    rw [hfree] at hl
    cases hl
  | late hk hs ht e => exact (hput hk hl).elim
  | move hk hm => exact (hput hk hl).elim
  | @create req timelock now hop hk =>
    by_cases he : id = swapId req.hashLock
    · subst he
      have hs : (m.swaps.insert (swapId req.hashLock) (newSwap req timelock now)).lookup
        (swapId req.hashLock) = some s := hl
      rw [AList.lookup_insert] at hs
      obtain rfl := Option.some.inj hs
      exact ⟨req, timelock, now, hop, rfl, rfl⟩
    · have hs : m.swaps.lookup id = some s := by
        rw [← hl]
        exact (AList.lookup_insert_ne he).symm
      rw [hfree] at hs
      cases hs
  | @sweep now hop =>
    have hs : (mapValues _ m.swaps).lookup id = some s := hl
    rw [lookup_mapValues, hfree] at hs
    cases hs

/-! ### Runs -/

variable (sha256)

/-- **What a stored swap satisfies**: it stands under its id, the hexadecimal form of its hash lock;
it has a preimage, one of its hash lock, exactly when it is claimed, and a settlement time exactly
when it is claimed or refunded. -/
structure Coherent (id : String) (s : HtlcSwap) : Prop where
  key : s.id = id ∧ id = swapId s.hashLock
  preimage : s.preimage.isSome ↔ s.status = .claimed
  opens : ∀ p ∈ s.preimage, sha256 p = s.hashLock
  settledAt : s.settledAt.isSome ↔ Settled s

variable {sha256}

theorem coherent_newSwap (req : SwapRequest) (timelock now : ℕ) :
    Coherent sha256 (newSwap req timelock now).id (newSwap req timelock now) where
  key := ⟨rfl, rfl⟩
  preimage := by simp [newSwap]
  opens p hp := by simp [newSwap] at hp
  settledAt := by simp [newSwap, Settled]

theorem Coherent.moves {s s' : HtlcSwap} (h : Coherent sha256 id s) (hm : Moves sha256 op id s s') :
    Coherent sha256 id s' := by
  -- an open swap has neither a preimage nor a settlement time
  have hopen : IsOpen s → s.preimage = none ∧ s.settledAt = none := by
    intro hs
    have h1 := h.preimage
    have h2 := h.settledAt
    rcases hs with hs | hs
    · simp [hs, Settled] at h1 h2
      exact ⟨h1, h2⟩
    · simp [hs, Settled] at h1 h2
      exact ⟨h1, h2⟩
  cases hm with
  | stay => exact h
  | expire hs ht =>
    obtain ⟨hp, ht'⟩ := hopen (.inl hs)
    exact ⟨h.key, by simp [hp], h.opens, by simp [ht', Settled]⟩
  | @claim preimage now hop hs ht hp =>
    refine ⟨h.key, by simp, ?_, by simp [Settled]⟩
    intro p hmem
    obtain rfl := Option.some.inj hmem
    exact hp
  | refund hop hs ht =>
    obtain ⟨hp, -⟩ := hopen hs
    exact ⟨h.key, by simp [hp], h.opens, by simp [Settled]⟩

theorem coherent_of_run {defaultTimelock : ℕ} {ops : List Op}
    (hr : Run (Step sha256) Free (new defaultTimelock) ops m) :
    ∀ id s, m.swaps.lookup id = some s → Coherent sha256 id s := by
  refine hr.invariant (I := fun m => ∀ id s, m.swaps.lookup id = some s → Coherent sha256 id s)
    ?_ ?_
  · intro id s hs
    simp [new] at hs
  · rintro t op u ht - rfl id s hs
    cases hl : t.swaps.lookup id with
    | none =>
      obtain ⟨req, timelock, now, -, rfl, rfl⟩ := created_by_call hl hs
      exact coherent_newSwap req timelock now
    | some s₀ =>
      obtain ⟨s', hs', hm⟩ : ∃ s', (t.call sha256 op).2.swaps.lookup id = some s' ∧
          Moves sha256 op id s₀ s' := moves_call hl op
      obtain rfl : s' = s := Option.some.inj (hs'.symm.trans hs)
      exact (ht id s₀ hl).moves hm

/-- The terms of a swap that creation fixes. -/
structure SameTerms (s s' : HtlcSwap) : Prop where
  id : s'.id = s.id
  hashLock : s'.hashLock = s.hashLock
  sender : s'.sender = s.sender
  recipient : s'.recipient = s.recipient
  amount : s'.amount = s.amount
  timelock : s'.timelock = s.timelock

theorem SameTerms.refl (s : HtlcSwap) : SameTerms s s := ⟨rfl, rfl, rfl, rfl, rfl, rfl⟩

theorem SameTerms.trans {s t u : HtlcSwap} (h : SameTerms s t) (h' : SameTerms t u) :
    SameTerms s u where
  id := h'.id.trans h.id
  hashLock := h'.hashLock.trans h.hashLock
  sender := h'.sender.trans h.sender
  recipient := h'.recipient.trans h.recipient
  amount := h'.amount.trans h.amount
  timelock := h'.timelock.trans h.timelock

theorem Moves.sameTerms {s s' : HtlcSwap} (hm : Moves sha256 op id s s') : SameTerms s s' := by
  cases hm with
  | stay => exact .refl s
  | expire hs ht => exact ⟨rfl, rfl, rfl, rfl, rfl, rfl⟩
  | claim hop hs ht hp => exact ⟨rfl, rfl, rfl, rfl, rfl, rfl⟩
  | refund hop hs ht => exact ⟨rfl, rfl, rfl, rfl, rfl, rfl⟩

theorem Moves.eq_of_settled {s s' : HtlcSwap} (hm : Moves sha256 op id s s') (hs : Settled s) :
    s' = s := by
  have hnot : ¬ IsOpen s := by
    rintro (h | h)
    · simp [Settled, h] at hs
    · simp [Settled, h] at hs
  cases hm with
  | stay => rfl
  | expire ha ht => exact absurd (.inl ha) hnot
  | claim hop ho ht hp => exact absurd ho hnot
  | refund hop ho ht => exact absurd ho hnot

theorem swap_of_run {ops : List Op} (hr : Run (Step sha256) Free m ops m')
    (hl : m.swaps.lookup id = some s) :
    ∃ s', m'.swaps.lookup id = some s' ∧ SameTerms s s' ∧ (Settled s → s' = s) := by
  induction hr with
  | nil => exact ⟨s, hl, .refl s, fun _ => rfl⟩
  | @snoc l t u op _ _ hstep ih =>
    obtain ⟨s₁, hl₁, hterms, hsame⟩ := ih
    obtain ⟨s', hl', hm⟩ : ∃ s', (t.call sha256 op).2.swaps.lookup id = some s' ∧
        Moves sha256 op id s₁ s' := moves_call hl₁ op
    subst hstep
    refine ⟨s', hl', hterms.trans hm.sameTerms, fun hs => ?_⟩
    obtain rfl := hsame hs
    exact hm.eq_of_settled hs

/-- All swaps are as before, but for at most one that went from active to expired. -/
def AtMostOneExpired (m m' : HtlcManager) : Prop :=
  ∃ id, (∀ k, k ≠ id → m'.swaps.lookup k = m.swaps.lookup k) ∧
    (m'.swaps.lookup id = m.swaps.lookup id ∨
      ∃ s, m.swaps.lookup id = some s ∧ s.status = .active ∧
        m'.swaps.lookup id = some { s with status := .expired })

theorem atMostOneExpired_of_error {e : BridgeError} (he : (m.call sha256 op).1 = .error e) :
    AtMostOneExpired m (m.call sha256 op).2 := by
  have heff := call_effect sha256 m op
  rw [he] at heff
  generalize (m.call sha256 op).2 = m' at heff
  cases heff with
  | none => exact ⟨"", fun _ _ => rfl, .inl rfl⟩
  | @late id s hl hs ht =>
    refine ⟨id, fun k hk => AList.lookup_insert_ne hk, ?_⟩
    have hput : (m.put id { s with status := .expired }).swaps.lookup id =
        some { s with status := .expired } := AList.lookup_insert _
    rcases hs with ha | hx
    · exact .inr ⟨s, hl, ha, hput⟩
    · refine .inl ?_
      rw [hput, hl, ← hx]

/-- **The swap state machine.** After any calls, by anyone and at any times: the stored swaps are
coherent; the next call moves each of them by one of its moves, and if it fails it changes at most
one, from active to expired; and whatever calls follow, a swap keeps its terms and, once claimed or
refunded, stays exactly as it is. -/
theorem swap_state_machine (sha256 : Bytes → Vector UInt8 32) (defaultTimelock : ℕ)
    {ops : List Op} {m : HtlcManager} (hr : Run (Step sha256) Free (new defaultTimelock) ops m) :
    (∀ id s, m.swaps.lookup id = some s → Coherent sha256 id s) ∧
    (∀ op id s, m.swaps.lookup id = some s →
      ∃ s', (m.call sha256 op).2.swaps.lookup id = some s' ∧ Moves sha256 op id s s') ∧
    (∀ op e, (m.call sha256 op).1 = .error e → AtMostOneExpired m (m.call sha256 op).2) ∧
    ∀ ops' m', Run (Step sha256) Free m ops' m' → ∀ id s, m.swaps.lookup id = some s →
      ∃ s', m'.swaps.lookup id = some s' ∧ SameTerms s s' ∧ (Settled s → s' = s) := by
  refine ⟨coherent_of_run hr, ?_, ?_, ?_⟩
  · intro op id s hl
    exact moves_call hl op
  · intro op e he
    exact atMostOneExpired_of_error he
  · intro ops' m' hr' id s hl
    exact swap_of_run hr' hl

def firstByte (b : Bytes) : Vector UInt8 32 := Vector.replicate 32 (b.headD 0)

/-- A swap for an address, with a timelock of 10. -/
def smallRequest : SwapRequest :=
  ⟨Address.zero, ⟨Vector.replicate 20 1⟩, 5, firstByte [7], .ethereum, "", "", some 10⟩

/-- The manager once the recipient of the small request has claimed it. -/
def afterClaim : HtlcManager :=
  ((((new 3600).call firstByte (.createSwap smallRequest 1)).2).call firstByte
    (.claimSwap (swapId (firstByte [7])) [7] smallRequest.recipient 2)).2

/-- The claimed swap survives a refund by its sender after the timelock. -/
theorem claim_then_refund :
    ∃ s, afterClaim.swaps.lookup (swapId (firstByte [7])) = some s ∧ s.status = .claimed ∧
      (afterClaim.call firstByte
        (.refundSwap (swapId (firstByte [7])) Address.zero 20)).2.swaps.lookup
          (swapId (firstByte [7])) = some s := by
  have hrun : Run (Step firstByte) Free (new 3600)
      ([] ++ [.createSwap smallRequest 1] ++
        [.claimSwap (swapId (firstByte [7])) [7] smallRequest.recipient 2]) afterClaim :=
    .snoc (.snoc .nil trivial rfl) trivial rfl
  have hclaimed : (afterClaim.swaps.lookup (swapId (firstByte [7]))).map (·.status) =
      some .claimed := by
    decide +kernel
  obtain ⟨s, hl, hs⟩ := Option.map_eq_some_iff.mp hclaimed
  obtain ⟨-, -, -, hlater⟩ := swap_state_machine firstByte 3600 hrun
  obtain ⟨s', hl', -, hsame⟩ := hlater _ _ (.snoc .nil trivial rfl) _ s hl
  obtain rfl := hsame (.inl hs)
  exact ⟨s', hl, hs, hl'⟩

end HtlcManager

end Rustchain.Bridge

import Rustchain.Bridge.Htlc
import Rustchain.Contracts.Settlement

/-! # Swaps off the chain and on it

An `HtlcManager` swap and an HTLC of the bridge contract with the same terms take the same attempts
to claim and to refund. `Linked` says that the two stand alike. An attempt keeps them linked and has
the same answer on both sides, but for two differences: `claim_htlc` refuses an empty preimage, and
it looks the HTLC up by the hash of the preimage, so that a preimage of another HTLC settles that
one (`attemptsAgree_iff`). -/

namespace Rustchain.Contracts.Bridge

open Rustchain.Core Lib.Runs Lib.Sha256
open Rustchain.Bridge (HtlcStatus HtlcSwap HtlcManager SwapRequest BridgeError)
open Rustchain.Bridge.HtlcManager (swapId newSwap isOpen_of_ne lookup_put)
open Vm (addressOfBytes)
open ContractState

/-- `hash_secret`, the SHA-256 of the bytes. -/
def hashSecret (secret : Bytes) : Vector UInt8 32 :=
  ⟨(sha256 secret).toArray, by simp [sha256, length_bytes]⟩

theorem hashSecret_eq_iff {secret : Bytes} {lock : Vector UInt8 32} :
    hashSecret secret = lock ↔ simpleSha256 secret = lock.toList := by
  rw [simpleSha256_eq, ← Vector.toList_inj]
  simp [hashSecret, Vector.toList]

/-- An attempt to settle, with the clock reading that it meets. -/
inductive Attempt where
  | claim (preimage : Bytes) (caller : Address) (now : ℕ)
  | refund (caller : Address) (now : ℕ)

namespace Attempt

variable (lock : Vector UInt8 32)

def offChain (m : HtlcManager) : Attempt → Except BridgeError HtlcSwap × HtlcManager
  | .claim preimage caller now => m.claimSwap hashSecret (swapId lock) preimage caller now
  | .refund caller now => m.refundSwap (swapId lock) caller now

/-- Who makes the attempt at the contract, and when. -/
def env : Attempt → CallEnv
  | .claim _ caller now => ⟨caller, now⟩
  | .refund caller now => ⟨caller, now⟩

def entry : Attempt → Entry
  | .claim preimage _ _ => .claimHtlc preimage
  | .refund _ _ => .refundHtlc lock.toList

end Attempt

/-- The manager and the contract after an attempt at both. -/
def attempt (lock : Vector UInt8 32) (st : HtlcManager × ContractState) (a : Attempt) :
    HtlcManager × ContractState :=
  ((a.offChain lock st.1).2, next st.2 (.call a.env (a.entry lock)))

/-- The attempt has the same answer off the chain and on it. -/
def SameAnswer (lock : Vector UInt8 32) (st : HtlcManager × ContractState) (a : Attempt) : Prop :=
  (a.offChain lock st.1).1.isOk = true ↔ Succeeds a.env st.2 (a.entry lock)

/-- The status that the contract stores. An expired swap can still be refunded, as an active one
whose timelock is reached. -/
def statusCode : HtlcStatus → UInt8
  | .active => 0
  | .expired => 0
  | .claimed => 1
  | .refunded => 2

/-- The record of the contract with the terms and the status of a swap. -/
def recordOf (swap : HtlcSwap) : HtlcData :=
  ⟨swap.sender, swap.recipient, swap.amount, swap.timelock, statusCode swap.status⟩

/-- **The manager and the contract stand alike** for a hash lock. -/
def Linked (lock : Vector UInt8 32) (st : HtlcManager × ContractState) : Prop :=
  ∃ swap, st.1.swaps.lookup (swapId lock) = some swap ∧ swap.hashLock = lock ∧
    record st.2 lock.toList = some (recordOf swap)

/-- **The two differences**: a claim that the manager accepts has a preimage whose length, as an
`i32`, is positive, and a claim that the contract accepts has a preimage of this hash lock. -/
def Compatible (lock : Vector UInt8 32) (st : HtlcManager × ContractState) : Attempt → Prop
  | .claim preimage caller now =>
    ((st.1.claimSwap hashSecret (swapId lock) preimage caller now).1.isOk = true →
      1 ≤ argsLen preimage) ∧
    (Succeeds ⟨caller, now⟩ st.2 (.claimHtlc preimage) → sha256 preimage = lock.toList)
  | .refund _ _ => True

/-! ### The manager -/

theorem statusCode_eq_zero_iff {swap : HtlcSwap} :
    statusCode swap.status = 0 ↔ HtlcManager.IsOpen swap := by
  unfold HtlcManager.IsOpen
  cases swap.status <;> decide

section
variable {m : HtlcManager} {id : String} {swap : HtlcSwap}

/-- What a refused attempt leaves of a swap: all that the contract has a record of. -/
def Kept (m : HtlcManager) (id : String) (swap : HtlcSwap) : Prop :=
  ∃ swap', m.swaps.lookup id = some swap' ∧ swap'.hashLock = swap.hashLock ∧
    recordOf swap' = recordOf swap

theorem claimSwap_cases (hl : m.swaps.lookup id = some swap) (preimage : Bytes) (caller : Address)
    (now : ℕ) :
    ((HtlcManager.IsOpen swap ∧ caller = swap.recipient ∧ now < swap.timelock ∧
        hashSecret preimage = swap.hashLock) ∧
      ∃ swap', m.claimSwap hashSecret id preimage caller now = (.ok swap', m.put id swap') ∧
        swap'.hashLock = swap.hashLock ∧ recordOf swap' = { recordOf swap with status := 1 }) ∨
    (¬ (HtlcManager.IsOpen swap ∧ caller = swap.recipient ∧ now < swap.timelock ∧
        hashSecret preimage = swap.hashLock) ∧
      (m.claimSwap hashSecret id preimage caller now).1.isOk = false ∧
      Kept (m.claimSwap hashSecret id preimage caller now).2 id swap) := by
  have hkept : Kept m id swap := ⟨swap, hl, rfl, rfl⟩
  simp only [HtlcManager.claimSwap, hl]
  split_ifs with hc hr hwho hlate hhash
  · exact .inr ⟨fun h => by simp [HtlcManager.IsOpen, hc] at h, rfl, hkept⟩
  · exact .inr ⟨fun h => by simp [HtlcManager.IsOpen, hr] at h, rfl, hkept⟩
  · exact .inr ⟨fun h => hwho h.2.1, rfl, hkept⟩
  · refine .inr ⟨fun h => by omega, rfl, { swap with status := .expired }, ?_, rfl, ?_⟩
    · rw [lookup_put hl, if_pos rfl]
    · have hopen := statusCode_eq_zero_iff.mpr (isOpen_of_ne hc hr)
      simp only [recordOf, hopen]
      rfl
  · exact .inr ⟨fun h => hhash h.2.2.2, rfl, hkept⟩
  · exact .inl ⟨⟨isOpen_of_ne hc hr, not_not.mp hwho, Nat.not_le.mp hlate, not_not.mp hhash⟩,
      _, rfl, rfl, rfl⟩

theorem refundSwap_cases (hl : m.swaps.lookup id = some swap) (caller : Address) (now : ℕ) :
    ((HtlcManager.IsOpen swap ∧ caller = swap.sender ∧ swap.timelock ≤ now) ∧
      ∃ swap', m.refundSwap id caller now = (.ok swap', m.put id swap') ∧
        swap'.hashLock = swap.hashLock ∧ recordOf swap' = { recordOf swap with status := 2 }) ∨
    (¬ (HtlcManager.IsOpen swap ∧ caller = swap.sender ∧ swap.timelock ≤ now) ∧
      (m.refundSwap id caller now).1.isOk = false ∧
        Kept (m.refundSwap id caller now).2 id swap) := by
  have hkept : Kept m id swap := ⟨swap, hl, rfl, rfl⟩
  simp only [HtlcManager.refundSwap, hl]
  split_ifs with hc hr hwho hearly
  · exact .inr ⟨fun h => by simp [HtlcManager.IsOpen, hc] at h, rfl, hkept⟩
  · exact .inr ⟨fun h => by simp [HtlcManager.IsOpen, hr] at h, rfl, hkept⟩
  · exact .inr ⟨fun h => hwho h.2.1, rfl, hkept⟩
  · exact .inr ⟨fun h => by omega, rfl, hkept⟩
  · exact .inl ⟨⟨isOpen_of_ne hc hr, not_not.mp hwho, Nat.not_lt.mp hearly⟩, _, rfl, rfl, rfl⟩

end

/-! ### The contract -/

section
variable {env : CallEnv} {s : ContractState} {htlc : HtlcData} {hashLock : Bytes}

theorem refundHtlc_args (lock : Vector UInt8 32) :
    32 ≤ argsLen lock.toList ∧ slice lock.toList 0 32 = .ok lock.toList := by
  have hlen : lock.toList.length = 32 := lock.length_toList
  refine ⟨?_, slice_eq_ok_iff.mpr ⟨⟨by omega, hlen.ge⟩, ?_⟩⟩
  · rw [argsLen, hlen]
    decide
  · rw [List.drop_zero, List.take_of_length_le hlen.le]

theorem settle_cases {k : Settlement} {e : Entry} {lock : Bytes}
    (hcall : call env s e = .ok (trySettle k env (htlcKey (hexEncode32 lock)) s))
    (h : record s lock = some htlc) :
    (Succeeds env s e ∧
      record (next s (.call env e)) lock = some { htlc with status := k.status }) ∨
    (¬ Succeeds env s e ∧ record (next s (.call env e)) lock = some htlc) := by
  rcases trySettle_cases k env (htlcKey (hexEncode32 lock)) s with
    ⟨s', hq, heq⟩ | ⟨data, found, hdata, hdec, _, _, _, heq⟩
  · rw [heq] at hcall
    rw [next_of_ok hcall, succeeds_iff hcall]
    refine .inr ⟨by decide, ?_⟩
    rw [record_congr fun _ => hq.storageRead _, h]
  · have hfound := record_eq_some.mpr ⟨data, hdata, hdec⟩
    rw [heq] at hcall
    rw [next_of_ok hcall, succeeds_iff hcall]
    refine .inl ⟨rfl, ?_⟩
    rw [record_settleHtlc k hfound, if_pos rfl, Option.some.inj (hfound.symm.trans h)]

theorem call_claimHtlc {preimage : Bytes} (hlen : 1 ≤ argsLen preimage) :
    call env s (.claimHtlc preimage) =
      .ok (trySettle claim env (htlcKey (hexEncode32 (simpleSha256 preimage))) s) := by
  simp only [call, claimHtlc]
  rw [if_neg (by omega)]
  rfl

theorem call_claimHtlc_of_empty {preimage : Bytes} (hlen : ¬ 1 ≤ argsLen preimage) :
    call env s (.claimHtlc preimage) = .ok (-1, s) := by
  simp only [call, claimHtlc]
  rw [if_pos (by omega)]
  rfl

theorem call_refundHtlc (lock : Vector UInt8 32) :
    call env s (.refundHtlc lock.toList) =
      .ok (trySettle refund env (htlcKey (hexEncode32 lock.toList)) s) := by
  obtain ⟨hlen, hlock⟩ := refundHtlc_args lock
  simp only [call, refundHtlc]
  rw [if_neg (by omega), hlock]
  rfl

theorem claimHtlc_cases {preimage : Bytes} (hkey : simpleSha256 preimage = hashLock)
    (h : record s hashLock = some htlc) :
    (Succeeds env s (.claimHtlc preimage) ∧
      record (next s (.call env (.claimHtlc preimage))) hashLock =
        some { htlc with status := 1 }) ∨
    (¬ Succeeds env s (.claimHtlc preimage) ∧
      record (next s (.call env (.claimHtlc preimage))) hashLock = some htlc) := by
  subst hkey
  by_cases hlen : 1 ≤ argsLen preimage
  · exact settle_cases (call_claimHtlc hlen) h
  · have hcall : call env s (.claimHtlc preimage) = _ := call_claimHtlc_of_empty hlen
    rw [next_of_ok hcall, succeeds_iff hcall]
    exact .inr ⟨by decide, h⟩

theorem record_next_claimHtlc_of_ne {preimage : Bytes} (hne : hashLock ≠ simpleSha256 preimage) :
    record (next s (.call env (.claimHtlc preimage))) hashLock = record s hashLock := by
  by_cases hlen : 1 ≤ argsLen preimage
  · have hcall : call env s (.claimHtlc preimage) = _ := call_claimHtlc hlen
    rcases trySettle_cases claim env (htlcKey (hexEncode32 (simpleSha256 preimage))) s with
      ⟨s', hq, heq⟩ | ⟨data, found, hdata, hdec, _, _, _, heq⟩
    · rw [next_of_ok (hcall.trans (congrArg _ heq)), record_congr fun _ => hq.storageRead _]
    · rw [next_of_ok (hcall.trans (congrArg _ heq)),
        record_settleHtlc claim (record_eq_some.mpr ⟨data, hdata, hdec⟩), if_neg hne]
  · rw [next_of_ok (call_claimHtlc_of_empty hlen)]

theorem next_createHtlc {args : Bytes} (h : Succeeds env s (.createHtlc args)) :
    ∃ lock recipient timelock, slice args 0 32 = .ok lock ∧ slice args 32 52 = .ok recipient ∧
      slice args 52 60 = .ok timelock ∧
      next s (.call env (.createHtlc args)) = storeHtlc s (htlcKey (hexEncode32 lock))
        (encodeHtlc env.caller (addressOfBytes recipient) s.selfBalance (ofLeBytes timelock)
          0) := by
  rcases call_cases env s (.createHtlc args) with ⟨t, hcall, _⟩ | ⟨code, s', hcall, hnext, _⟩
  · exact absurd h (not_succeeds_of_error hcall)
  · rw [succeeds_iff hcall] at h
    subst h
    rw [hnext]
    change createHtlc env args s = _ at hcall
    unfold createHtlc at hcall
    obtain ⟨_, hcall⟩ := Lib.Checks.bind_eq_ok.mp hcall
    split_ifs at hcall with hlen
    · cases hcall
    · obtain ⟨lock, hlock, hcall⟩ := Lib.Checks.bind_eq_ok_iff.mp hcall
      obtain ⟨recipient, hrecipient, hcall⟩ := Lib.Checks.bind_eq_ok_iff.mp hcall
      obtain ⟨timelock, htimelock, hcall⟩ := Lib.Checks.bind_eq_ok_iff.mp hcall
      dsimp only at hcall
      split_ifs at hcall with h0 hold
      · cases hcall
      · cases hcall
      · cases hcall
        exact ⟨lock, recipient, timelock, hlock, hrecipient, htimelock, rfl⟩

end

/-! ### One attempt -/

section
variable {lock : Vector UInt8 32} {st : HtlcManager × ContractState}

theorem succeeds_claimHtlc_of_linked {s : ContractState} {swap : HtlcSwap}
    {preimage : Bytes} {caller : Address} {now : ℕ}
    (hrec : record s swap.hashLock.toList = some (recordOf swap))
    (hhash : hashSecret preimage = swap.hashLock) :
    Succeeds ⟨caller, now⟩ s (.claimHtlc preimage) ↔ 1 ≤ argsLen preimage ∧
      HtlcManager.IsOpen swap ∧ caller = swap.recipient ∧ now < swap.timelock := by
  rw [succeeds_claimHtlc_iff, hashSecret_eq_iff.mp hhash, hrec]
  simp only [Option.some.injEq, exists_eq_left']
  rw [← statusCode_eq_zero_iff]
  rfl

theorem linked_put {m : HtlcManager} {s : ContractState} {swap swap' : HtlcSwap} {htlc : HtlcData}
    (hl : m.swaps.lookup (swapId lock) = some swap) (hlock : swap'.hashLock = lock)
    (hrec : record s lock.toList = some htlc) (hsame : recordOf swap' = htlc) :
    Linked lock (m.put (swapId lock) swap', s) :=
  ⟨swap', by rw [lookup_put hl, if_pos rfl], hlock, hsame ▸ hrec⟩

theorem linked_of_kept {m : HtlcManager} {s : ContractState} {swap : HtlcSwap}
    (h : Kept m (swapId lock) swap) (hlock : swap.hashLock = lock)
    (hrec : record s lock.toList = some (recordOf swap)) : Linked lock (m, s) := by
  obtain ⟨swap', hl, hlock', hsame⟩ := h
  exact ⟨swap', hl, hlock'.trans hlock, hsame ▸ hrec⟩

/-- **One claim** has the same answer on both sides exactly when it is compatible, and then they
are linked afterwards. -/
theorem claim_of_linked (h : Linked lock st) (preimage : Bytes) (caller : Address) (now : ℕ) :
    (SameAnswer lock st (.claim preimage caller now) ↔
      Compatible lock st (.claim preimage caller now)) ∧
    (SameAnswer lock st (.claim preimage caller now) →
      Linked lock (attempt lock st (.claim preimage caller now))) := by
  obtain ⟨m, s⟩ := st
  obtain ⟨swap, hl, rfl, hrec⟩ := h
  have hsha : sha256 preimage = swap.hashLock.toList ↔ hashSecret preimage = swap.hashLock := by
    rw [hashSecret_eq_iff, simpleSha256_eq]
  simp only [SameAnswer, Compatible, attempt, Attempt.offChain, Attempt.env, Attempt.entry, hsha]
  by_cases hhash : hashSecret preimage = swap.hashLock
  · have hkey := hashSecret_eq_iff.mp hhash
    have hson : Succeeds ⟨caller, now⟩ s (.claimHtlc preimage) ↔ _ :=
      succeeds_claimHtlc_of_linked hrec hhash
    have hafter : (Succeeds ⟨caller, now⟩ s (.claimHtlc preimage) ∧ _) ∨ _ :=
      claimHtlc_cases hkey hrec
    rcases claimSwap_cases hl preimage caller now with
      ⟨hall, swap', heq, hlock, hsame⟩ | ⟨hnot, hans, hkept⟩
    · rw [heq]
      refine ⟨?_, fun hans => ?_⟩
      · rw [hson]
        simp [Except.isOk, Except.toBool, hall.1, hall.2.1, hall.2.2.1, hhash]
      · obtain ⟨_, hrec'⟩ := hafter.resolve_right fun h => h.1 (hans.mp rfl)
        exact linked_put hl hlock hrec' hsame
    · have hs : ¬ Succeeds ⟨caller, now⟩ s (.claimHtlc preimage) := fun hs =>
        hnot ⟨(hson.mp hs).2.1, (hson.mp hs).2.2.1, (hson.mp hs).2.2.2, hhash⟩
      obtain ⟨_, hrec'⟩ := hafter.resolve_left fun h => hs h.1
      exact ⟨by simp [hans, hs], fun _ => linked_of_kept hkept rfl hrec'⟩
  · -- The manager refuses; the contract looks up another HTLC.
    have hrec' : record (next s (.call ⟨caller, now⟩ (.claimHtlc preimage)))
        swap.hashLock.toList = some (recordOf swap) := by
      rw [record_next_claimHtlc_of_ne fun h => hhash (hashSecret_eq_iff.mpr h.symm), hrec]
    rcases claimSwap_cases hl preimage caller now with ⟨hall, _⟩ | ⟨_, hans, hkept⟩
    · exact absurd hall.2.2.2 hhash
    · exact ⟨by simp [hans, hhash], fun _ => linked_of_kept hkept rfl hrec'⟩

theorem refund_of_linked (h : Linked lock st) (caller : Address) (now : ℕ) :
    SameAnswer lock st (.refund caller now) ∧
      Linked lock (attempt lock st (.refund caller now)) := by
  obtain ⟨m, s⟩ := st
  obtain ⟨swap, hl, rfl, hrec⟩ := h
  obtain ⟨hlen, hslice⟩ := refundHtlc_args swap.hashLock
  simp only [SameAnswer, attempt, Attempt.offChain, Attempt.env, Attempt.entry]
  have hson : Succeeds ⟨caller, now⟩ s (.refundHtlc swap.hashLock.toList) ↔
      HtlcManager.IsOpen swap ∧ caller = swap.sender ∧ swap.timelock ≤ now := by
    rw [succeeds_refundHtlc_iff hlen hslice, hrec]
    simp only [Option.some.injEq, exists_eq_left']
    rw [← statusCode_eq_zero_iff]
    rfl
  have hafter : (Succeeds ⟨caller, now⟩ s (.refundHtlc swap.hashLock.toList) ∧ _) ∨ _ :=
    settle_cases (call_refundHtlc swap.hashLock) hrec
  rcases refundSwap_cases hl caller now with
    ⟨hall, swap', heq, hlock, hsame⟩ | ⟨hnot, hans, hkept⟩
  · rw [heq]
    obtain ⟨hs, hrec'⟩ := hafter.resolve_right fun h => h.1 (hson.mpr hall)
    exact ⟨iff_of_true rfl hs, linked_put hl hlock hrec' hsame⟩
  · obtain ⟨hs, hrec'⟩ := hafter.resolve_left fun h => hnot (hson.mp h.1)
    exact ⟨iff_of_false (by simp [hans]) hs, linked_of_kept hkept rfl hrec'⟩

theorem attempt_of_linked (h : Linked lock st) (a : Attempt) :
    (SameAnswer lock st a ↔ Compatible lock st a) ∧
      (SameAnswer lock st a → Linked lock (attempt lock st a)) := by
  cases a with
  | claim preimage caller now => exact claim_of_linked h preimage caller now
  | refund caller now =>
    obtain ⟨hsame, hlinked⟩ := refund_of_linked h caller now
    exact ⟨iff_of_true hsame trivial, fun _ => hlinked⟩

end

/-! ### Creation and sequences of attempts -/

/-- The arguments with which an HTLC is created on the terms of a swap. -/
def htlcArgs (swap : HtlcSwap) : Bytes :=
  swap.hashLock.toList ++ (swap.recipient.asBytes ++ leBytes 64 swap.timelock)

theorem slice_htlcArgs (swap : HtlcSwap) :
    slice (htlcArgs swap) 0 32 = .ok swap.hashLock.toList ∧
      slice (htlcArgs swap) 32 52 = .ok swap.recipient.asBytes ∧
      slice (htlcArgs swap) 52 60 = .ok (leBytes 64 swap.timelock) := by
  have hl : swap.hashLock.toList.length = 32 := swap.hashLock.length_toList
  have hr := swap.recipient.length_asBytes
  have ht : (leBytes 64 swap.timelock).length = 8 := length_leBytes 64 swap.timelock
  have hlen : (htlcArgs swap).length = 60 := by simp [htlcArgs, hl, hr, ht]
  simp only [slice_eq_ok_iff, hlen]
  refine ⟨⟨by decide, ?_⟩, ⟨by decide, ?_⟩, ⟨by decide, ?_⟩⟩
  · simp [htlcArgs, hl]
  · simp [htlcArgs, List.take_append, hl, hr]
  · rw [List.take_of_length_le hlen.le, htlcArgs, ← List.append_assoc]
    exact List.drop_left' (by simp [hl, hr])

/-- The manager and the contract after the two creations and some attempts. -/
def afterAttempts (m : HtlcManager) (s : ContractState) (env : CallEnv) (req : SwapRequest)
    (now : ℕ) (swap : HtlcSwap) (attempts : List Attempt) : HtlcManager × ContractState :=
  attempts.foldl (attempt swap.hashLock)
    ((m.createSwap req now).2, next s (.call env (.createHtlc (htlcArgs swap))))

theorem linked_of_created {m : HtlcManager} {s : ContractState} {env : CallEnv} {req : SwapRequest}
    {now : ℕ} {swap : HtlcSwap} (hswap : (m.createSwap req now).1 = .ok swap)
    (htimelock : swap.timelock < 2 ^ 64)
    (hhtlc : Succeeds env s (.createHtlc (htlcArgs swap))) (hsender : env.caller = swap.sender)
    (hamount : s.selfBalance = swap.amount) :
    Linked swap.hashLock ((m.createSwap req now).2,
      next s (.call env (.createHtlc (htlcArgs swap)))) := by
  have hstored : (m.createSwap req now).2.swaps.lookup (swapId swap.hashLock) = some swap ∧
      swap.status = .active := by
    simp only [HtlcManager.createSwap] at hswap ⊢
    split_ifs at hswap ⊢ with hold hzero hlate
    obtain rfl := Except.ok.inj hswap
    exact ⟨AList.lookup_insert _, rfl⟩
  obtain ⟨lock, recipient, timelock, h1, h2, h3, hnext⟩ := next_createHtlc hhtlc
  obtain ⟨g1, g2, g3⟩ := slice_htlcArgs swap
  obtain rfl := Except.ok.inj (g1.symm.trans h1)
  obtain rfl := Except.ok.inj (g2.symm.trans h2)
  obtain rfl := Except.ok.inj (g3.symm.trans h3)
  refine ⟨swap, hstored.1, rfl, ?_⟩
  have hamount_lt : swap.amount < 2 ^ 128 := by
    rw [← hamount, selfBalance]
    omega
  rw [hnext, record_storeHtlc, if_pos rfl, addressOfBytes_asBytes, ofLeBytes_leBytes, hsender,
    hamount, show 256 ^ (64 / 8) = 2 ^ 64 by decide, Nat.mod_eq_of_lt hamount_lt,
    Nat.mod_eq_of_lt htimelock, Nat.mod_eq_of_lt htimelock, recordOf, hstored.2]
  rfl

/-- A request with the hash of a secret as its lock, and a timelock of 10. -/
def secretRequest (secret : Bytes) : SwapRequest :=
  ⟨addressOfBytes [1], addressOfBytes [2], 100, hashSecret secret, .ethereum, "", "", some 10⟩

/-- A contract that holds the amount of the request. -/
def fundedBridge : ContractState := (ContractState.new (addressOfBytes [9])).deposit 100

theorem created_secretRequest (secret : Bytes) (hsecret : secret = [7] ∨ secret = []) :
    ((HtlcManager.new 3600).createSwap (secretRequest secret) 1).1 =
        .ok (newSwap (secretRequest secret) 10 1) ∧
      Succeeds ⟨addressOfBytes [1], 1⟩ fundedBridge
        (.createHtlc (htlcArgs (newSwap (secretRequest secret) 10 1))) := by
  refine ⟨rfl, ?_⟩
  rcases hsecret with rfl | rfl
  · decide +kernel
  · decide +kernel

end Rustchain.Contracts.Bridge

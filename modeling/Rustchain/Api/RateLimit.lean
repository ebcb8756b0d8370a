import Rustchain.Lib.FixedWindow
import Rustchain.Lib.Machine
import Rustchain.Lib.Maps

/-! # The rate limiter

`RateLimiter::check` counts the requests of each address in windows of a second, and allows the
first `burst_size` of each window. The sustained rate of the configuration is never read. The
decisions for one address do not depend on the others, but around the end of a window almost two
bursts are allowed at once, and a burst for every second: the documented bound holds exactly for the
configurations whose rate covers that (`rateLimit_iff`). -/

namespace Rustchain.Api

open Lib Lib.Machine Lib.Maps

/-! ### The limiter -/

structure RateLimitConfig where
  requestsPerSecond : UInt32 := 100
  burstSize : UInt32 := 200
  deriving DecidableEq, Repr

inductive IpAddr where
  | v4 (octets : Vector UInt8 4)
  | v6 (octets : Vector UInt8 16)
  deriving DecidableEq, Repr

/-- `RateEntry`: the count, a `u32`, and the instant of the last reset. -/
abbrev RateEntry := FixedWindow.Window

/-- A second, in the nanoseconds of an `Instant`. -/
def second : ℕ := 10 ^ 9

/-- What `check` does to the entry of the address. `duration_since` is zero for a later instant. -/
def RateEntry.hit (config : RateLimitConfig) (now : ℕ) (entry : RateEntry) :
    Flagged (Bool × RateEntry) :=
  let elapsed := now - entry.lastReset
  if 1 ≤ elapsed / second then return (true, ⟨1, now⟩)
  else do
    let count ← addU 32 entry.count 1
    return (decide (count ≤ config.burstSize.toNat), ⟨count, entry.lastReset⟩)

/-- **`RateLimiter::check`** at an instant. -/
def check (config : RateLimitConfig) (ip : IpAddr) (now : ℕ) (buckets : Table IpAddr RateEntry) :
    Flagged (Bool × Table IpAddr RateEntry) := do
  let (allowed, entry) ← RateEntry.hit config now ((buckets.lookup ip).getD ⟨0, now⟩)
  return (allowed, buckets.insert ip entry)

/-! ### Sequences of requests -/

structure Request where
  time : ℕ
  ip : IpAddr

/-- The buckets, the requests so far with the decisions about them, and whether a count has left the
range of a `u32`. -/
structure Served where
  buckets : Table IpAddr RateEntry
  log : List (Request × Bool)
  overflow : Bool

def Served.next (config : RateLimitConfig) (s : Served) (q : Request) : Served :=
  let r := check config q.ip q.time s.buckets
  ⟨r.val.2, s.log ++ [(q, r.val.1)], s.overflow || r.ovf⟩

def serveAll (config : RateLimitConfig) (requests : List Request) : Served :=
  requests.foldl (Served.next config) ⟨∅, [], false⟩

def requestsOf (ip : IpAddr) (requests : List Request) : List Request :=
  requests.filter fun q => decide (q.ip = ip)

/-- The decisions about the requests of an address. -/
def logOf (ip : IpAddr) (log : List (Request × Bool)) : List (Request × Bool) :=
  log.filter fun e => decide (e.1.ip = ip)

/-- How many requests of an address were allowed from one instant to another. -/
def allowedBetween (ip : IpAddr) (lo hi : ℕ) (log : List (Request × Bool)) : ℕ :=
  log.countP fun e => e.2 && decide (e.1.ip = ip ∧ lo ≤ e.1.time ∧ e.1.time ≤ hi)

/-- **The documented rate**: for every sequence of requests at instants that do not decrease, in
which no count overflows, every address and every interval of `T` nanoseconds. -/
def RateBounded (config : RateLimitConfig) : Prop :=
  ∀ requests : List Request, (requests.map Request.time).Pairwise (· ≤ ·) →
    (serveAll config requests).overflow = false → ∀ (ip : IpAddr) (lo T : ℕ),
      allowedBetween ip lo (lo + T) (serveAll config requests).log * second ≤
        config.burstSize.toNat * second + T * config.requestsPerSecond.toNat

section
variable {config : RateLimitConfig}

variable (ip : IpAddr) (size limit : ℕ) (requests : List Request) (q : Request)

theorem serveAll_concat :
    serveAll config (requests ++ [q]) = (serveAll config requests).next config q := by
  rw [serveAll, List.foldl_append]
  rfl

theorem hit_spec (config : RateLimitConfig) (now : ℕ) (entry : RateEntry) :
    ((RateEntry.hit config now entry).ovf = false ↔
      (FixedWindow.serve second config.burstSize.toNat (some entry) now).2.count < 2 ^ 32) ∧
    ((RateEntry.hit config now entry).ovf = false → (RateEntry.hit config now entry).val =
      FixedWindow.serve second config.burstSize.toNat (some entry) now) := by
  have hdiv : 1 ≤ (now - entry.lastReset) / second ↔ second ≤ now - entry.lastReset := by
    rw [Nat.le_div_iff_mul_le (by decide), Nat.one_mul]
  unfold RateEntry.hit FixedWindow.serve
  dsimp only [Option.getD_some]
  by_cases hreset : second ≤ now - entry.lastReset
  · rw [if_pos (hdiv.mpr hreset), if_pos hreset]
    exact ⟨iff_of_true rfl (show 1 < 2 ^ 32 by decide), fun _ => rfl⟩
  · rw [if_neg (mt hdiv.mp hreset), if_neg hreset]
    simp only [ovf_bind, ovf_pure, Bool.or_false, val_bind, val_pure, addU_ovf, true_and]
    intro hlt
    have hval : (addU 32 entry.count 1).val = entry.count + 1 := Nat.mod_eq_of_lt hlt
    rw [hval]

def timesOf (ip : IpAddr) (requests : List Request) : List ℕ :=
  (requestsOf ip requests).map Request.time

theorem filter_concat {α : Type} (p : α → Prop) [DecidablePred p] (l : List α) (a : α) :
    (l ++ [a]).filter p = if p a then l.filter p ++ [a] else l.filter p := by
  rw [List.filter_append]
  split_ifs with h
  · rw [List.filter_cons_of_pos (by simpa using h), List.filter_nil]
  · rw [List.filter_cons_of_neg (by simpa using h), List.filter_nil, List.append_nil]

theorem requestsOf_concat :
    requestsOf ip (requests ++ [q]) =
      if q.ip = ip then requestsOf ip requests ++ [q] else requestsOf ip requests :=
  filter_concat (fun q : Request => q.ip = ip) requests q

theorem logOf_concat (log : List (Request × Bool)) (e : Request × Bool) :
    logOf ip (log ++ [e]) = if e.1.ip = ip then logOf ip log ++ [e] else logOf ip log :=
  filter_concat (fun e : Request × Bool => e.1.ip = ip) log e

/-! ### One address -/

/-- **The addresses are independent**: what happens to one of them is what happens when it is the
only one. -/
theorem serveAll_requestsOf :
    (serveAll config requests).buckets.lookup ip =
        (serveAll config (requestsOf ip requests)).buckets.lookup ip ∧
      logOf ip (serveAll config requests).log =
        (serveAll config (requestsOf ip requests)).log := by
  induction requests using List.reverseRecOn with
  | nil => exact ⟨rfl, rfl⟩
  | append_singleton requests q ih =>
    obtain ⟨hlookup, hlog⟩ := ih
    rw [serveAll_concat, requestsOf_concat, Served.next]
    dsimp only
    rw [logOf_concat]
    dsimp only
    split_ifs with h
    · subst h
      rw [serveAll_concat, Served.next]
      dsimp only [check]
      simp only [val_bind, val_pure, hlookup, hlog, Finmap.lookup_insert, and_self]
    · refine ⟨?_, hlog⟩
      dsimp only [check]
      simp only [val_bind, val_pure]
      rw [Finmap.lookup_insert_of_ne _ (Ne.symm h), hlookup]

/-- The entry and the decisions of an address are those of a run of windows. -/
structure Follows (config : RateLimitConfig) (requests : List Request) (ip : IpAddr) : Prop where
  lookup : (serveAll config requests).buckets.lookup ip =
    (FixedWindow.run second config.burstSize.toNat (timesOf ip requests)).window
  log : (logOf ip (serveAll config requests).log).map (fun e => (e.1.time, e.2)) =
    (FixedWindow.run second config.burstSize.toNat (timesOf ip requests)).log

theorem timesOf_concat :
    timesOf ip (requests ++ [q]) =
      if q.ip = ip then timesOf ip requests ++ [q.time] else timesOf ip requests := by
  unfold timesOf
  rw [requestsOf_concat]
  split_ifs
  · rw [List.map_append, List.map_singleton]
  · rfl

theorem Follows.check_spec {requests : List Request} {ip : IpAddr} (h : Follows config requests ip)
    (now : ℕ) {w : Option FixedWindow.Window}
    (hw : (FixedWindow.run second config.burstSize.toNat (timesOf ip requests)).window = w) :
    ((check config ip now (serveAll config requests).buckets).ovf = false ↔
      (FixedWindow.serve second config.burstSize.toNat w now).2.count < 2 ^ 32) ∧
    ((check config ip now (serveAll config requests).buckets).ovf = false →
      (check config ip now (serveAll config requests).buckets).val =
        ((FixedWindow.serve second config.burstSize.toNat w now).1,
          (serveAll config requests).buckets.insert ip
            (FixedWindow.serve second config.burstSize.toNat w now).2)) := by
  obtain ⟨hovf, hval⟩ := hit_spec config now (w.getD ⟨0, now⟩)
  unfold check
  rw [h.lookup, hw]
  simp only [ovf_bind, ovf_pure, Bool.or_false, val_bind, val_pure]
  refine ⟨hovf, fun hno => ?_⟩
  rw [hval hno]
  rfl

theorem overflow_serveAll_concat :
    (serveAll config (requests ++ [q])).overflow = false ↔
      (serveAll config requests).overflow = false ∧
        (check config q.ip q.time (serveAll config requests).buckets).ovf = false := by
  rw [serveAll_concat, Served.next, Bool.or_eq_false_iff]

theorem run_timesOf_concat :
    FixedWindow.run size limit (timesOf ip (requests ++ [q])) = if q.ip = ip then
        (FixedWindow.run size limit (timesOf ip requests)).next size limit q.time
      else FixedWindow.run size limit (timesOf ip requests) := by
  rw [timesOf_concat]
  split_ifs
  · exact FixedWindow.run_concat _ _
  · rfl

theorem Follows.concat {requests : List Request} (h : ∀ ip, Follows config requests ip)
    (q : Request) (hno : (check config q.ip q.time (serveAll config requests).buckets).ovf = false)
    (ip : IpAddr) : Follows config (requests ++ [q]) ip := by
  obtain ⟨hlookup, hlog⟩ := h ip
  have hval := ((h q.ip).check_spec q.time rfl).2 hno
  refine ⟨?_, ?_⟩
  · rw [serveAll_concat, run_timesOf_concat, Served.next]
    dsimp only
    rw [hval]
    split_ifs with hip
    · subst hip
      exact Finmap.lookup_insert _
    · rw [Finmap.lookup_insert_of_ne _ (Ne.symm hip), hlookup]
  · rw [serveAll_concat, run_timesOf_concat, Served.next]
    dsimp only
    rw [hval, logOf_concat]
    dsimp only
    split_ifs with hip
    · subst hip
      rw [List.map_append, hlog]
      rfl
    · exact hlog

/-- **A limiter without an overflow** keeps one run of windows for each address, and its counts
overflow exactly when those of a run reach `2 ^ 32`. -/
theorem serveAll_follows (config : RateLimitConfig) (requests : List Request) :
    ((serveAll config requests).overflow = false ↔ ∀ ip,
      (FixedWindow.run second config.burstSize.toNat (timesOf ip requests)).peak < 2 ^ 32) ∧
    ((serveAll config requests).overflow = false → ∀ ip, Follows config requests ip) := by
  induction requests using List.reverseRecOn with
  | nil => exact ⟨iff_of_true rfl fun _ => (show 0 < 2 ^ 32 by decide), fun _ _ => ⟨rfl, rfl⟩⟩
  | append_singleton requests q ih =>
    obtain ⟨hpeak, hfollows⟩ := ih
    rw [overflow_serveAll_concat]
    refine ⟨⟨fun ⟨hbefore, hno⟩ ip => ?_, fun h => ?_⟩,
      fun ⟨hbefore, hno⟩ => Follows.concat (hfollows hbefore) q hno⟩
    · rw [run_timesOf_concat]
      split_ifs with hip
      · subst hip
        exact max_lt (hpeak.mp hbefore _) (((hfollows hbefore q.ip).check_spec q.time rfl).1.mp hno)
      · exact hpeak.mp hbefore ip
    · have hbefore : (serveAll config requests).overflow = false := by
        refine hpeak.mpr fun ip => ?_
        have hip := h ip
        rw [run_timesOf_concat] at hip
        split_ifs at hip
        · exact (le_max_left _ _).trans_lt hip
        · exact hip
      have hip := h q.ip
      rw [run_timesOf_concat, if_pos rfl] at hip
      exact ⟨hbefore, ((hfollows hbefore q.ip).check_spec q.time rfl).1.mpr
        ((le_max_right _ _).trans_lt hip)⟩

/-! ### The rate -/

theorem allowedBetween_eq (lo hi : ℕ) (log : List (Request × Bool)) :
    allowedBetween ip lo hi log =
      FixedWindow.allowed lo hi ((logOf ip log).map fun e => (e.1.time, e.2)) := by
  unfold allowedBetween FixedWindow.allowed logOf
  rw [List.countP_map, List.countP_filter]
  refine List.countP_congr fun e _ => ?_
  simp only [Function.comp_apply, Bool.and_eq_true, decide_eq_true_eq]
  tauto

def localhost : IpAddr := .v4 #v[127, 0, 0, 1]

def requestsAt (times : List ℕ) : List Request := times.map fun t => ⟨t, localhost⟩

theorem timesOf_requestsAt (times : List ℕ) :
    timesOf ip (requestsAt times) = if localhost = ip then times else [] := by
  induction times with
  | nil => exact (ite_self []).symm
  | cons t times ih =>
    have hcons : timesOf ip (requestsAt (t :: times)) =
        (if localhost = ip then [t] else []) ++ timesOf ip (requestsAt times) := by
      by_cases h : localhost = ip <;> simp [timesOf, requestsOf, requestsAt, h]
    rw [hcons, ih]
    split_ifs <;> rfl

theorem rateBounded_iff_bounded : RateBounded config ↔
    FixedWindow.Bounded second config.burstSize.toNat config.requestsPerSecond.toNat (2 ^ 32) := by
  constructor
  · intro h times hsorted hpeak lo T
    obtain ⟨hover, hfollows⟩ := serveAll_follows config (requestsAt times)
    have hno : (serveAll config (requestsAt times)).overflow = false := by
      refine hover.mpr fun ip => ?_
      rw [timesOf_requestsAt]
      split_ifs
      · exact hpeak
      · exact (show 0 < 2 ^ 32 by decide)
    have htimes : (requestsAt times).map Request.time = times := by
      rw [requestsAt, List.map_map]
      exact List.map_id times
    have hbound := h (requestsAt times) (htimes.symm ▸ hsorted) hno localhost lo T
    rwa [allowedBetween_eq, (hfollows hno localhost).log, timesOf_requestsAt, if_pos rfl] at hbound
  · intro h requests hsorted hno ip lo T
    obtain ⟨hover, hfollows⟩ := serveAll_follows config requests
    rw [allowedBetween_eq, (hfollows hno ip).log]
    exact h _ (hsorted.sublist (List.filter_sublist.map _)) (hover.mp hno ip) lo T

end

/-- **The rate limiter.** The decisions for an address do not depend on the requests of the others.
The documented rate is kept if and only if the burst is at least one, is not above the rate, and the
rate covers a burst less one in a nanosecond. -/
theorem rateLimit_iff (config : RateLimitConfig) :
    (∀ (requests : List Request) (ip : IpAddr), logOf ip (serveAll config requests).log =
      (serveAll config (requestsOf ip requests)).log) ∧
    (RateBounded config ↔ 1 ≤ config.burstSize.toNat ∧
      config.burstSize.toNat ≤ config.requestsPerSecond.toNat ∧
      (config.burstSize.toNat - 1) * second ≤ config.requestsPerSecond.toNat) := by
  refine ⟨fun requests ip => (serveAll_requestsOf ip requests).2, ?_⟩
  rw [rateBounded_iff_bounded]
  exact FixedWindow.bounded_iff (by decide) config.burstSize.toNat_lt (by decide)

/-- With a burst of two and a sustained rate of one, three requests are allowed within a tenth of a
second: one just before the end of a window and two after it. -/
theorem burst_at_window_end :
    allowedBetween localhost 900000000 1000000000
      (serveAll ⟨1, 2⟩ (requestsAt [0, 900000000, 1000000000, 1000000000])).log = 3 ∧
    ¬ 3 * second ≤ 2 * second + 100000000 * 1 := by
  decide +kernel

end Rustchain.Api

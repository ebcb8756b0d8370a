import Mathlib.Algebra.Order.Ring.Nat
import Mathlib.Data.List.Induction
import Mathlib.Tactic.SplitIfs

/-! # Counting requests in windows

A counter of requests that starts again when a window of a fixed length is over: the first request
after the end of the window opens a new one. In each window only the first `limit` requests are
allowed. Around the end of a window up to `2 * limit - 1` requests can be allowed in no time, and
with windows one after the other `limit` for each of them. So the number that is allowed is bounded
by `limit` and a constant rate exactly when the rate covers both (`bounded_iff`). -/

namespace Rustchain.Lib.FixedWindow

/-- The requests of the current window, and when it was opened. -/
structure Window where
  count : ℕ
  lastReset : ℕ
  deriving DecidableEq, Repr

section
variable (size limit : ℕ)

/-- A request: whether it is allowed, and the window after it. -/
def serve (w : Option Window) (now : ℕ) : Bool × Window :=
  let w := w.getD ⟨0, now⟩
  if size ≤ now - w.lastReset then (true, ⟨1, now⟩)
  else (decide (w.count + 1 ≤ limit), ⟨w.count + 1, w.lastReset⟩)

/-- A run: the window, the requests with the decisions about them, and the highest count so far. -/
structure Run where
  window : Option Window
  log : List (ℕ × Bool)
  peak : ℕ

def Run.next (r : Run) (now : ℕ) : Run :=
  ⟨some (serve size limit r.window now).2, r.log ++ [(now, (serve size limit r.window now).1)],
    max r.peak (serve size limit r.window now).2.count⟩

def run (times : List ℕ) : Run := times.foldl (Run.next size limit) ⟨none, [], 0⟩

end

/-- How many requests of an interval were allowed. -/
def allowed (lo hi : ℕ) (log : List (ℕ × Bool)) : ℕ :=
  log.countP fun e => e.2 && decide (lo ≤ e.1 ∧ e.1 ≤ hi)

theorem allowed_append (lo hi : ℕ) (l l' : List (ℕ × Bool)) :
    allowed lo hi (l ++ l') = allowed lo hi l + allowed lo hi l' := List.countP_append

theorem allowed_singleton (lo hi t : ℕ) (b : Bool) :
    allowed lo hi [(t, b)] = if b = true ∧ lo ≤ t ∧ t ≤ hi then 1 else 0 := by
  simp [allowed, List.countP_singleton]

theorem allowed_replicate {lo hi t : ℕ} (k : ℕ) (hlo : lo ≤ t) (hhi : t ≤ hi) :
    allowed lo hi (List.replicate k (t, true)) = k := by
  simp [allowed, List.countP_replicate, hlo, hhi]

section
variable {size limit : ℕ}

theorem run_concat (times : List ℕ) (t : ℕ) :
    run size limit (times ++ [t]) = (run size limit times).next size limit t := by
  rw [run, List.foldl_append]
  rfl

/-! ### The bound -/

/-- **What holds inside the interval from `lo` on**, with `n` requests allowed in it. If the window
was opened before the interval, its first request is not among them. Otherwise the requests of the
earlier windows are covered by the rate, and those of the window by the limit. -/
structure Covered (size limit rate lo now : ℕ) (w : Window) (n : ℕ) : Prop where
  lastReset_le : w.lastReset ≤ now
  early : now < lo → n = 0
  split : (w.lastReset < lo ∧ n + 1 ≤ w.count ∧ n + 1 ≤ limit ∧ (n = 0 ∨ lo < w.lastReset + size)) ∨
    (lo ≤ w.lastReset ∧ ∃ n₀ k, n = n₀ + k ∧ k ≤ w.count ∧ k ≤ limit ∧
      n₀ * size ≤ (w.lastReset - lo) * rate)

variable {rate lo : ℕ}

theorem Covered.mono {now now' n : ℕ} {w : Window} (h : Covered size limit rate lo now w n)
    (hle : now ≤ now') : Covered size limit rate lo now' w n :=
  ⟨h.lastReset_le.trans hle, fun hlt => h.early (Nat.lt_of_le_of_lt hle hlt), h.split⟩

theorem covered_open (hlimit : 1 ≤ limit) {now n : ℕ} (hearly : now < lo → n = 0)
    (hn : lo ≤ now → n * size ≤ (now - lo) * rate) :
    Covered size limit rate lo now ⟨1, now⟩ (n + if lo ≤ now then 1 else 0) := by
  by_cases hlo : lo ≤ now
  · rw [if_pos hlo]
    exact ⟨le_rfl, fun h => absurd hlo (not_le.mpr h),
      .inr ⟨hlo, n, 1, rfl, le_rfl, hlimit, hn hlo⟩⟩
  · have hzero := hearly (not_le.mp hlo)
    subst hzero
    rw [if_neg hlo]
    exact ⟨le_rfl, fun _ => rfl, .inl ⟨not_le.mp hlo, le_rfl, hlimit, .inl rfl⟩⟩

theorem Covered.le_of_reset (hrate : limit ≤ rate) (hburst : (limit - 1) * size ≤ rate)
    {now n : ℕ} {w : Window} (h : Covered size limit rate lo now w n)
    (hreset : size ≤ now - w.lastReset) : n * size ≤ (now - lo) * rate := by
  rcases h.split with ⟨hbefore, -, hn, hzero | hinside⟩ | ⟨hafter, n₀, k, rfl, -, hk, hn₀⟩
  · rw [hzero, Nat.zero_mul]
    exact Nat.zero_le _
  · -- at most `limit - 1` requests, and at least one unit of time
    have hpassed : 1 ≤ now - lo := by omega
    calc n * size ≤ (limit - 1) * size := Nat.mul_le_mul_right _ (by omega)
      _ ≤ 1 * rate := by rwa [Nat.one_mul]
      _ ≤ (now - lo) * rate := Nat.mul_le_mul_right _ hpassed
  · have hpassed : now - lo = (w.lastReset - lo) + (now - w.lastReset) := by
      have := h.lastReset_le
      omega
    calc (n₀ + k) * size = n₀ * size + size * k := by rw [Nat.add_mul, Nat.mul_comm k]
      _ ≤ (w.lastReset - lo) * rate + (now - w.lastReset) * rate :=
        Nat.add_le_add hn₀ (Nat.mul_le_mul hreset (hk.trans hrate))
      _ = (now - lo) * rate := by rw [hpassed, Nat.add_mul]

theorem Covered.count {now n : ℕ} {w : Window} (h : Covered size limit rate lo now w n)
    (hinside : ¬ size ≤ now - w.lastReset) :
    Covered size limit rate lo now ⟨w.count + 1, w.lastReset⟩
      (n + if w.count + 1 ≤ limit ∧ lo ≤ now then 1 else 0) := by
  have hle := h.lastReset_le
  refine ⟨hle, fun hlt => ?_, ?_⟩
  · rw [h.early hlt, if_neg fun hc => absurd hc.2 (not_le.mpr hlt)]
  · rcases h.split with ⟨hbefore, hcount, hn, hor⟩ | ⟨hafter, n₀, k, rfl, hk, hk', hn₀⟩
    · refine .inl ⟨hbefore, ?_⟩
      dsimp only
      split_ifs with hc
      · exact ⟨by omega, by omega, .inr (by omega)⟩
      · exact ⟨by omega, hn, hor⟩
    · refine .inr ⟨hafter, n₀, ?_⟩
      dsimp only
      split_ifs with hc
      · exact ⟨k + 1, by omega, by omega, by omega, hn₀⟩
      · exact ⟨k, rfl, by omega, hk', hn₀⟩

/-- **One request** keeps the invariant. -/
theorem Covered.serve (hlimit : 1 ≤ limit) (hrate : limit ≤ rate)
    (hburst : (limit - 1) * size ≤ rate) {now n : ℕ} {w : Window}
    (h : Covered size limit rate lo now w n) :
    Covered size limit rate lo now (FixedWindow.serve size limit (some w) now).2
      (n + if (FixedWindow.serve size limit (some w) now).1 = true ∧ lo ≤ now then 1 else 0) := by
  unfold FixedWindow.serve
  dsimp only [Option.getD_some]
  by_cases hreset : size ≤ now - w.lastReset
  · simp only [if_pos hreset, true_and]
    exact covered_open hlimit h.early fun _ => h.le_of_reset hrate hburst hreset
  · simp only [if_neg hreset, decide_eq_true_eq]
    exact h.count hreset

theorem serve_none (hsize : 0 < size) (now : ℕ) :
    serve size limit none now = (decide (1 ≤ limit), ⟨1, now⟩) := by
  unfold serve
  dsimp only [Option.getD_none]
  rw [if_neg (by omega)]

/-- **A whole run** keeps the invariant, up to the end of the interval. -/
theorem covered_run (lo : ℕ) (hsize : 0 < size) (hlimit : 1 ≤ limit) (hrate : limit ≤ rate)
    (hburst : (limit - 1) * size ≤ rate) {hi : ℕ} {times : List ℕ}
    (hsorted : times.Pairwise (· ≤ ·)) {now : ℕ} (hnow : ∀ t ∈ times, t ≤ now) (hhi : now ≤ hi) :
    ((run size limit times).window = none ∧ allowed lo hi (run size limit times).log = 0) ∨
      ∃ w, (run size limit times).window = some w ∧
        Covered size limit rate lo now w (allowed lo hi (run size limit times).log) := by
  induction times using List.reverseRecOn generalizing now with
  | nil => exact .inl ⟨rfl, rfl⟩
  | append_singleton times t ih =>
    rw [List.pairwise_append] at hsorted
    have ht : t ≤ now := hnow t (by simp)
    have hbefore := ih hsorted.1 (fun u hu => hsorted.2.2 u hu t (by simp)) (ht.trans hhi)
    have hone : ∀ b : Bool, allowed lo hi [(t, b)] = if b = true ∧ lo ≤ t then 1 else 0 := by
      intro b
      rw [allowed_singleton]
      exact if_congr (and_congr_right fun _ => and_iff_left (ht.trans hhi)) rfl rfl
    rw [run_concat, Run.next]
    dsimp only
    rw [allowed_append, hone]
    refine .inr ⟨_, rfl, Covered.mono ?_ ht⟩
    rcases hbefore with ⟨hw, hn⟩ | ⟨w, hw, hcov⟩
    · rw [hw, hn, serve_none hsize]
      simp only [decide_eq_true_eq, hlimit, true_and]
      exact covered_open hlimit (fun _ => rfl) fun _ => by omega
    · rw [hw]
      exact hcov.serve hlimit hrate hburst

theorem Covered.allowed_le {now n T : ℕ} {w : Window} (h : Covered size limit rate lo now w n)
    (hnow : now ≤ lo + T) : n * size ≤ limit * size + T * rate := by
  rcases h.split with ⟨-, -, hn, -⟩ | ⟨hafter, n₀, k, rfl, -, hk, hn₀⟩
  · exact (Nat.mul_le_mul_right _ (by omega)).trans (Nat.le_add_right _ _)
  · have hpassed : w.lastReset - lo ≤ T := by
      have := h.lastReset_le
      omega
    calc (n₀ + k) * size = k * size + n₀ * size := by rw [Nat.add_mul, Nat.add_comm]
      _ ≤ limit * size + T * rate :=
        Nat.add_le_add (Nat.mul_le_mul_right _ hk) (hn₀.trans (Nat.mul_le_mul_right _ hpassed))

theorem allowed_run_le (hsize : 0 < size) (hlimit : 1 ≤ limit) (hrate : limit ≤ rate)
    (hburst : (limit - 1) * size ≤ rate) {times : List ℕ} (hsorted : times.Pairwise (· ≤ ·))
    (lo T : ℕ) :
    allowed lo (lo + T) (run size limit times).log * size ≤ limit * size + T * rate := by
  induction times using List.reverseRecOn with
  | nil => exact (Nat.zero_mul size).le.trans (Nat.zero_le _)
  | append_singleton times t ih =>
    have hlast : ∀ u ∈ times ++ [t], u ≤ t := by
      intro u hu
      rcases List.mem_append.mp hu with hu | hu
      · exact (List.pairwise_append.mp hsorted).2.2 u hu t (by simp)
      · exact (List.mem_singleton.mp hu).le
    by_cases ht : t ≤ lo + T
    · rcases covered_run lo hsize hlimit hrate hburst hsorted hlast ht with
        ⟨-, hzero⟩ | ⟨w, -, hcov⟩
      · rw [hzero, Nat.zero_mul]
        exact Nat.zero_le _
      · exact hcov.allowed_le ht
    · -- after the interval nothing is counted
      rw [run_concat, Run.next]
      dsimp only
      rw [allowed_append, allowed_singleton, if_neg fun hc => ht hc.2.2, Nat.add_zero]
      exact ih (List.pairwise_append.mp hsorted).1

/-! ### Runs that reach it -/

theorem run_burst (times : List ℕ) {t n opened : ℕ}
    (hw : (run size limit times).window = some ⟨n, opened⟩) (hinside : ¬ size ≤ t - opened) {k : ℕ}
    (hk : n + k ≤ limit) :
    (run size limit (times ++ List.replicate k t)).window = some ⟨n + k, opened⟩ ∧
      (run size limit (times ++ List.replicate k t)).log =
        (run size limit times).log ++ List.replicate k (t, true) ∧
      (run size limit (times ++ List.replicate k t)).peak ≤
        max (run size limit times).peak limit := by
  induction k with
  | zero => exact ⟨by simpa using hw, by simp, by simp⟩
  | succ k ih =>
    obtain ⟨hwindow, hlog, hpeak⟩ := ih (by omega)
    have hserve : serve size limit (some ⟨n + k, opened⟩) t = (true, ⟨n + (k + 1), opened⟩) := by
      unfold serve
      dsimp only [Option.getD_some]
      rw [if_neg hinside, decide_eq_true (by omega)]
      rfl
    rw [List.replicate_succ', ← List.append_assoc, run_concat, Run.next, hwindow, hserve, hlog,
      List.replicate_succ', List.append_assoc]
    exact ⟨rfl, rfl, max_le hpeak (le_max_of_le_right hk)⟩

theorem run_opening (hsize : 0 < size) (times : List ℕ) {t k : ℕ}
    (hopen : ∀ w ∈ (run size limit times).window, size ≤ t - w.lastReset) (hpos : 1 ≤ k)
    (hk : k ≤ limit) :
    (run size limit (times ++ List.replicate k t)).window = some ⟨k, t⟩ ∧
      (run size limit (times ++ List.replicate k t)).log =
        (run size limit times).log ++ List.replicate k (t, true) ∧
      (run size limit (times ++ List.replicate k t)).peak ≤
        max (run size limit times).peak limit := by
  obtain ⟨k, rfl⟩ := Nat.exists_eq_add_of_le hpos
  have hserve : serve size limit (run size limit times).window t = (true, ⟨1, t⟩) := by
    cases hw : (run size limit times).window with
    | none => rw [serve_none hsize, decide_eq_true (hpos.trans hk)]
    | some w => exact if_pos (hopen w hw)
  have hfirst : run size limit (times ++ [t]) = ⟨some ⟨1, t⟩,
      (run size limit times).log ++ [(t, true)], max (run size limit times).peak 1⟩ := by
    rw [run_concat, Run.next, hserve]
  have hinside : ¬ size ≤ t - t := by omega
  obtain ⟨hwindow, hlog, hpeak⟩ :=
    run_burst (times ++ [t]) (congrArg Run.window hfirst) hinside hk
  rw [Nat.add_comm 1 k, List.replicate_succ, List.replicate_succ, List.append_cons,
    List.append_cons (run size limit times).log, Nat.add_comm k 1]
  refine ⟨hwindow, ?_, hpeak.trans ?_⟩
  · rw [hlog, hfirst]
  · rw [hfirst]
    exact max_le (max_le (le_max_left _ _) (le_max_of_le_right (hpos.trans hk))) (le_max_right _ _)

/-- A window of requests at two times and a full one right after it. -/
def edge (size limit j u : ℕ) : List ℕ :=
  List.replicate j 0 ++ List.replicate (limit - j) u ++ List.replicate limit size

theorem run_edge (hsize : 0 < size) {j u : ℕ} (hpos : 1 ≤ j) (hj : j ≤ limit) (hu : u < size) :
    (edge size limit j u).Pairwise (· ≤ ·) ∧
      (run size limit (edge size limit j u)).log = List.replicate j (0, true) ++
        List.replicate (limit - j) (u, true) ++ List.replicate limit (size, true) ∧
      (run size limit (edge size limit j u)).peak ≤ limit := by
  obtain ⟨hwindow, hlog, hpeak⟩ := run_opening hsize [] (t := 0) nofun hpos hj
  have hinside : ¬ size ≤ u - 0 := by omega
  obtain ⟨hwindow', hlog', hpeak'⟩ := run_burst _ hwindow hinside (k := limit - j) (by omega)
  have hopen : ∀ w ∈ (run size limit
      ([] ++ List.replicate j 0 ++ List.replicate (limit - j) u)).window,
      size ≤ size - w.lastReset := by
    intro w hw
    obtain rfl := Option.some.inj (hwindow'.symm.trans hw)
    exact le_rfl
  obtain ⟨-, hlog'', hpeak''⟩ := run_opening hsize _ hopen (hpos.trans hj) le_rfl
  refine ⟨?_, ?_, ?_⟩
  · have hconst : ∀ n t : ℕ, (List.replicate n t).Pairwise (· ≤ ·) :=
      fun n t => List.pairwise_replicate.mpr (.inr le_rfl)
    refine List.pairwise_append.mpr ⟨List.pairwise_append.mpr ⟨hconst _ _, hconst _ _, ?_⟩,
      hconst _ _, ?_⟩
    · intro x hx y _
      rw [List.eq_of_mem_replicate hx]
      exact Nat.zero_le y
    · intro x hx y hy
      rw [List.eq_of_mem_replicate hy]
      rcases List.mem_append.mp hx with hx | hx
      · rw [List.eq_of_mem_replicate hx]
        exact Nat.zero_le size
      · rw [List.eq_of_mem_replicate hx]
        exact hu.le
  · exact hlog''.trans (by rw [hlog', hlog]; rfl)
  · exact hpeak''.trans (max_le (hpeak'.trans (max_le (hpeak.trans (by simp [run])) le_rfl)) le_rfl)

/-- **The rate is bounded**: in every run whose counts stay below a capacity, and in every interval,
at most `limit` requests are allowed and those that the rate gives for the interval. -/
def Bounded (size limit rate capacity : ℕ) : Prop :=
  ∀ times : List ℕ, times.Pairwise (· ≤ ·) → (run size limit times).peak < capacity →
    ∀ lo T, allowed lo (lo + T) (run size limit times).log * size ≤ limit * size + T * rate

/-- **When the rate is bounded.** -/
theorem bounded_iff (hsize : 0 < size) {capacity : ℕ} (hlimit : limit < capacity)
    (hcapacity : 1 < capacity) : Bounded size limit rate capacity ↔
      1 ≤ limit ∧ limit ≤ rate ∧ (limit - 1) * size ≤ rate := by
  constructor
  · intro h
    have hpos : 1 ≤ limit := by
      -- a window that opens after another one lets a request through without a look at the limit
      by_contra hzero
      obtain rfl : limit = 0 := by omega
      have hrun : run size 0 [0, size] = ⟨some ⟨1, size⟩, [(0, false), (size, true)], 1⟩ := by
        rw [show [0, size] = [] ++ [0] ++ [size] from rfl, run_concat, run_concat, Run.next,
          Run.next, show run size 0 [] = ⟨none, [], 0⟩ from rfl]
        dsimp only
        rw [serve_none hsize, show serve size 0 (some ⟨1, 0⟩) size = (true, ⟨1, size⟩) from
          if_pos le_rfl]
        rfl
      have hbound := h [0, size] (by simp) (by rw [hrun]; exact hcapacity) size 0
      rw [hrun] at hbound
      simp [allowed] at hbound
      omega
    refine ⟨hpos, ?_, ?_⟩
    · -- two full windows, from the start of the first to the start of the second
      obtain ⟨hsorted, hlog, hpeak⟩ := run_edge (j := limit) (u := 0) hsize hpos le_rfl hsize
      have hbound := h _ hsorted (hpeak.trans_lt hlimit) 0 size
      rw [hlog, allowed_append, allowed_append, allowed_replicate limit le_rfl (Nat.zero_le _),
        allowed_replicate limit (Nat.zero_le _) (Nat.le_add_left _ _), Nat.sub_self] at hbound
      have hsum : size * limit ≤ size * rate := by
        simp only [List.replicate_zero, allowed, List.countP_nil, Nat.add_zero,
          Nat.add_mul] at hbound
        rw [Nat.mul_comm size limit]
        omega
      exact Nat.le_of_mul_le_mul_left hsum hsize
    · -- the end of the first window and the start of the second
      obtain ⟨hsorted, hlog, hpeak⟩ :=
        run_edge (j := 1) (u := size - 1) hsize le_rfl hpos (by omega)
      have hbound := h _ hsorted (hpeak.trans_lt hlimit) (size - 1) 1
      rw [hlog, allowed_append, allowed_append, allowed_replicate (limit - 1) le_rfl (by omega),
        allowed_replicate limit (by omega) (by omega)] at hbound
      have hle : (limit - 1 + limit) * size ≤ limit * size + 1 * rate :=
        (Nat.mul_le_mul_right _ (by omega)).trans hbound
      rw [Nat.add_mul, Nat.one_mul] at hle
      omega
  · rintro ⟨hpos, hrate, hburst⟩ times hsorted - lo T
    exact allowed_run_le hsize hpos hrate hburst hsorted lo T

end

end Rustchain.Lib.FixedWindow

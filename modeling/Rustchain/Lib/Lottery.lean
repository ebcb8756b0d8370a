import Mathlib.Algebra.BigOperators.Group.List.Basic
import Mathlib.Algebra.Order.Ring.Nat
import Mathlib.Data.List.Range
import Mathlib.Tactic.SplitIfs

/-! # A draw by weight

The numbers below the sum of some weights are divided among the entries of a list: the first entry
gets as many as it weighs, then the second, and so on. The entry of a number is found by a walk that
adds up the weights until they pass the number. -/

namespace Rustchain.Lib.Lottery

variable {α : Type*} (weight : α → ℕ)

/-- The first entry at which the weights, added to `c`, pass `t`. -/
def draw (t : ℕ) : ℕ → List α → Option α
  | _, [] => none
  | c, a :: l => if t < c + weight a then some a else draw t (c + weight a) l

theorem exists_draw {t : ℕ} : ∀ {l : List α} {c : ℕ}, c ≤ t → t < c + (l.map weight).sum →
    ∃ a ∈ l, draw weight t c l = some a ∧ 0 < weight a
  | [], c, hc, ht => by
    rw [List.map_nil, List.sum_nil] at ht
    omega
  | a :: l, c, hc, ht => by
    rw [List.map_cons, List.sum_cons] at ht
    unfold draw
    split_ifs with h
    · exact ⟨a, List.mem_cons_self, rfl, by omega⟩
    · obtain ⟨b, hb, hdraw, hpos⟩ :=
        @exists_draw t l (c + weight a) (Nat.le_of_not_lt h) (by omega)
      exact ⟨b, List.mem_cons_of_mem _ hb, hdraw, hpos⟩

/-- **The entries with a property have as many numbers as they weigh.** -/
theorem countP_draw (p : α → Bool) : ∀ (l : List α) (c : ℕ),
    (List.range' c (l.map weight).sum).countP (fun t => (draw weight t c l).any p) =
      ((l.filter p).map weight).sum
  | [], c => rfl
  | a :: l, c => by
    have ih := countP_draw p l (c + weight a)
    -- the numbers of `a` come first
    have hsplit : List.range' c ((a :: l).map weight).sum =
        List.range' c (weight a) ++ List.range' (c + weight a) (l.map weight).sum := by
      rw [List.map_cons, List.sum_cons, ← List.range'_append_1]
    have hfirst : (List.range' c (weight a)).countP
        (fun t => (draw weight t c (a :: l)).any p) = if p a then weight a else 0 := by
      have hdraw : ∀ t ∈ List.range' c (weight a), (draw weight t c (a :: l)).any p = p a := by
        intro t ht
        obtain ⟨-, hlt⟩ := List.mem_range'_1.mp ht
        rw [draw, if_pos hlt]
        rfl
      rw [List.countP_congr fun t ht => by rw [hdraw t ht]]
      cases p a with
      | false => simp
      | true => simp
    have hrest : (List.range' (c + weight a) (l.map weight).sum).countP
        (fun t => (draw weight t c (a :: l)).any p) = ((l.filter p).map weight).sum := by
      rw [← ih]
      refine List.countP_congr fun t ht => ?_
      obtain ⟨hle, -⟩ := List.mem_range'_1.mp ht
      rw [draw, if_neg (Nat.not_lt.mpr hle)]
    rw [hsplit, List.countP_append, hfirst, hrest]
    cases hp : p a with
    | false => rw [List.filter_cons_of_neg (by simp [hp])]; simp
    | true => rw [List.filter_cons_of_pos hp]; simp

end Rustchain.Lib.Lottery

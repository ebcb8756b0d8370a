import Mathlib.Algebra.BigOperators.Group.List.Basic
import Mathlib.Algebra.Order.Ring.Nat
import Mathlib.Tactic.SplitIfs

/-! # Filling a budget

The entries of a list are taken one after the other as long as their costs stay within a budget and
there is room; an entry that costs too much is passed over. Where the entries of a kind get more
expensive along the list, those taken are the first ones of the kind. -/

namespace Rustchain.Lib.Greedy

variable {α : Type*} (cost : α → ℕ) (budget : ℕ)

/-- At most `n` entries whose costs, added to `spent`, stay within the budget. -/
def fill : ℕ → ℕ → List α → List α
  | 0, _, _ => []
  | _ + 1, _, [] => []
  | n + 1, spent, a :: l =>
    if budget < spent + cost a then fill (n + 1) spent l else a :: fill n (spent + cost a) l

@[simp] theorem fill_zero (spent : ℕ) (l : List α) : fill cost budget 0 spent l = [] := by
  unfold fill
  rfl

@[simp] theorem fill_nil (n spent : ℕ) : fill cost budget n spent [] = [] := by
  cases n <;> rfl

theorem fill_cons (n spent : ℕ) (a : α) (l : List α) :
    fill cost budget (n + 1) spent (a :: l) =
      if budget < spent + cost a then fill cost budget (n + 1) spent l
      else a :: fill cost budget n (spent + cost a) l := by
  rw [fill]

theorem fill_sublist : ∀ (l : List α) (n spent : ℕ), (fill cost budget n spent l).Sublist l
  | [], n, spent => by rw [fill_nil]
  | a :: l, 0, spent => by rw [fill_zero]; exact List.nil_sublist _
  | a :: l, n + 1, spent => by
    rw [fill_cons]
    split_ifs
    · exact (fill_sublist l (n + 1) spent).cons a
    · exact (fill_sublist l n _).cons_cons a

/-- **The budget is kept.** -/
theorem spent_add_sum_fill_le : ∀ (l : List α) (n spent : ℕ), spent ≤ budget →
    spent + ((fill cost budget n spent l).map cost).sum ≤ budget
  | [], n, spent, h => by simpa using h
  | a :: l, 0, spent, h => by simpa using h
  | a :: l, n + 1, spent, h => by
    rw [fill_cons]
    split_ifs with hgt
    · exact spent_add_sum_fill_le l (n + 1) spent h
    · have ih := spent_add_sum_fill_le l n (spent + cost a) (Nat.le_of_not_lt hgt)
      rw [List.map_cons, List.sum_cons]
      omega

theorem fill_eq_self : ∀ {l : List α} {n spent : ℕ}, spent + (l.map cost).sum ≤ budget →
    l.length ≤ n → fill cost budget n spent l = l
  | [], n, spent, _, _ => fill_nil cost budget n spent
  | a :: l, 0, spent, _, hn => absurd hn (by simp)
  | a :: l, n + 1, spent, h, hn => by
    rw [List.map_cons, List.sum_cons] at h
    rw [fill_cons, if_neg (by omega), fill_eq_self (by omega) (Nat.le_of_succ_le_succ hn)]

theorem not_mem_fill : ∀ {l : List α} {n spent : ℕ} {b : α}, budget < spent + cost b →
    b ∉ fill cost budget n spent l
  | [], n, spent, b, _ => by rw [fill_nil]; exact List.not_mem_nil
  | a :: l, 0, spent, b, _ => by rw [fill_zero]; exact List.not_mem_nil
  | a :: l, n + 1, spent, b, hb => by
    rw [fill_cons]
    split_ifs with hgt
    · exact not_mem_fill hb
    · intro hmem
      rcases List.mem_cons.mp hmem with rfl | hmem
      · exact hgt hb
      · exact not_mem_fill (by omega) hmem

/-- **Of a kind whose entries get more expensive, the first ones are taken.** -/
theorem filter_fill_initial (p : α → Bool) : ∀ {l : List α} {n spent : ℕ},
    (l.filter p).Pairwise (fun a b => cost a ≤ cost b) →
      (fill cost budget n spent l).filter p <+: l.filter p
  | [], n, spent, _ => by simp only [fill_nil, List.filter_nil, List.prefix_refl]
  | a :: l, 0, spent, _ => by rw [fill_zero]; exact List.nil_prefix
  | a :: l, n + 1, spent, h => by
    rw [fill_cons]
    cases hp : p a with
    | false =>
      have hskip : ¬ p a = true := by simp [hp]
      rw [List.filter_cons_of_neg hskip] at h ⊢
      split_ifs
      · exact filter_fill_initial p h
      · rw [List.filter_cons_of_neg hskip]
        exact filter_fill_initial p h
    | true =>
      rw [List.filter_cons_of_pos hp] at h ⊢
      obtain ⟨ha, hl⟩ := List.pairwise_cons.mp h
      split_ifs with hgt
      · -- the entries of the kind after `a` cost as much as `a` or more
        have hnone : (fill cost budget (n + 1) spent l).filter p = [] := by
          refine List.filter_eq_nil_iff.mpr fun b hb hpb => ?_
          have hle := ha b (List.mem_filter.mpr ⟨(fill_sublist cost budget l _ _).subset hb, hpb⟩)
          exact not_mem_fill cost budget (by omega) hb
        rw [hnone]
        exact List.nil_prefix
      · rw [List.filter_cons_of_pos hp, List.prefix_cons_inj]
        exact filter_fill_initial p hl

end Rustchain.Lib.Greedy

import Mathlib.Data.List.Sort
import Mathlib.Algebra.Order.BigOperators.Group.List
import Mathlib.Algebra.Order.Ring.Nat

/-! # Records under a key, and the best of them

A list of records is searched for the first one with a given key, and cut down to the records of
largest weight. For distinct keys the search finds a record exactly where it is in the list; the cut
keeps a record whenever those that weigh at least as much are not too many, and of records that
weigh the same it keeps the first. -/

namespace Rustchain.Lib.Ranking

variable {α K : Type*}

/-! ### Records under a key -/

section
variable [DecidableEq K] {key : α → K} {l l' : List α} {a : K} {x : α}

theorem find?_eq_some_of_nodup (h : (l.map key).Nodup) :
    l.find? (fun x => decide (key x = a)) = some x ↔ x ∈ l ∧ key x = a := by
  constructor
  · intro hf
    exact ⟨List.mem_of_find?_eq_some hf, of_decide_eq_true (List.find?_some (p := fun x =>
      decide (key x = a)) hf)⟩
  · rintro ⟨hx, rfl⟩
    cases hf : l.find? (fun y => decide (key y = key x)) with
    | none =>
      have hno := List.find?_eq_none.mp hf x hx
      simp at hno
    | some y =>
      have hy := List.mem_of_find?_eq_some hf
      have hk : key y = key x := of_decide_eq_true (List.find?_some (p := fun y =>
        decide (key y = key x)) hf)
      rw [List.inj_on_of_nodup_map h hy hx hk]

theorem find?_eq_none_of_key : l.find? (fun x => decide (key x = a)) = none ↔ a ∉ l.map key := by
  simp [List.find?_eq_none, List.mem_map]

end

theorem sum_map_le_of_subperm {weight : α → ℕ} {l l' : List α} (h : l.Subperm l') :
    (l.map weight).sum ≤ (l'.map weight).sum := by
  obtain ⟨l₁, hperm, hsub⟩ := h
  rw [← (hperm.map weight).sum_eq]
  exact (hsub.map weight).sum_le_sum fun _ _ => Nat.zero_le _

/-! ### The best of a list -/

section
variable (weight : α → ℕ) (m : ℕ) (l : List α)

/-- The `m` entries of largest weight, the largest first; equal ones keep their order. -/
def best : List α := (l.insertionSort fun a b => weight b ≤ weight a).take m

theorem best_subperm : (best weight m l).Subperm l :=
  ((List.take_sublist _ _).subperm).trans (List.perm_insertionSort _ l).subperm

theorem length_best : (best weight m l).length = min m l.length := by
  rw [best, List.length_take, List.length_insertionSort]

variable {weight m l}

theorem mem_of_mem_best {a : α} (h : a ∈ best weight m l) : a ∈ l :=
  (best_subperm weight m l).subset h

theorem nodup_map_best {key : α → K} (h : (l.map key).Nodup) :
    ((best weight m l).map key).Nodup := by
  obtain ⟨l', hperm, hsub⟩ := best_subperm weight m l
  exact (hperm.map key).nodup_iff.mp (h.sublist (hsub.map key))

theorem pairwise_sorted (weight : α → ℕ) (l : List α) :
    (l.insertionSort fun a b => weight b ≤ weight a).Pairwise fun a b => weight b ≤ weight a := by
  have htotal : Std.Total fun a b : α => weight b ≤ weight a :=
    ⟨fun a b => Nat.le_total (weight b) (weight a)⟩
  have htrans : IsTrans α fun a b => weight b ≤ weight a := ⟨fun _ _ _ h1 h2 => h2.trans h1⟩
  exact List.pairwise_insertionSort _ l

/-- In a list by falling weight, the entries of a set that is closed upwards come first. -/
theorem mem_take_of_countP_le {p : α → Bool}
    (hp : ∀ a b, weight a ≤ weight b → p a = true → p b = true) : ∀ {l : List α} {m : ℕ},
      l.Pairwise (fun a b => weight b ≤ weight a) → l.countP p ≤ m →
        ∀ a ∈ l, p a = true → a ∈ l.take m
  | [], _, _, _, a, ha, _ => by simp at ha
  | b :: l, 0, _, hc, a, ha, hpa => by
    have hpos : 0 < (b :: l).countP p := List.countP_pos_iff.mpr ⟨a, ha, hpa⟩
    omega
  | b :: l, m + 1, hs, hc, a, ha, hpa => by
    rw [List.take_succ_cons]
    rcases List.mem_cons.mp ha with rfl | ha
    · exact List.mem_cons_self
    · obtain ⟨hb, hl⟩ := List.pairwise_cons.mp hs
      have hpb : p b = true := hp a b (hb a ha) hpa
      rw [List.countP_cons_of_pos hpb] at hc
      exact List.mem_cons_of_mem _ (mem_take_of_countP_le hp hl (by omega) a ha hpa)

theorem mem_best_of_countP_le {p : α → Bool}
    (hp : ∀ a b, weight a ≤ weight b → p a = true → p b = true) (hc : l.countP p ≤ m) {a : α}
    (ha : a ∈ l) (hpa : p a = true) : a ∈ best weight m l := by
  refine mem_take_of_countP_le hp (pairwise_sorted _ l) ?_ a ?_ hpa
  · rwa [(List.perm_insertionSort _ l).countP_eq]
  · rwa [List.mem_insertionSort]

theorem exists_mem_best_ge (hm : 0 < m) {a : α} (ha : a ∈ l) :
    ∃ b ∈ best weight m l, weight a ≤ weight b := by
  have hs := pairwise_sorted weight l
  have hmem : a ∈ l.insertionSort fun a b => weight b ≤ weight a := by
    rwa [List.mem_insertionSort]
  unfold best
  cases hl : l.insertionSort fun a b => weight b ≤ weight a with
  | nil =>
    rw [hl] at hmem
    simp at hmem
  | cons b rest =>
    rw [hl] at hs hmem
    refine ⟨b, ?_, ?_⟩
    · obtain ⟨k, rfl⟩ : ∃ k, m = k + 1 := ⟨m - 1, by omega⟩
      exact List.mem_cons_self
    · rcases List.mem_cons.mp hmem with rfl | hr
      · exact le_rfl
      · exact (List.pairwise_cons.mp hs).1 a hr

theorem pairwise_best (weight : α → ℕ) (m : ℕ) (l : List α) :
    (best weight m l).Pairwise fun a b => weight b ≤ weight a :=
  (pairwise_sorted weight l).sublist (List.take_sublist _ _)

theorem exists_best_append_perm (weight : α → ℕ) (m : ℕ) (l : List α) :
    ∃ rest, (best weight m l ++ rest).Perm l ∧
      ∀ a ∈ best weight m l, ∀ b ∈ rest, weight b ≤ weight a := by
  have hs := pairwise_sorted weight l
  rw [← List.take_append_drop m (l.insertionSort _), List.pairwise_append] at hs
  refine ⟨(l.insertionSort fun a b => weight b ≤ weight a).drop m, ?_, hs.2.2⟩
  rw [best, List.take_append_drop]
  exact List.perm_insertionSort _ l

theorem filter_weight_sorted (weight : α → ℕ) (l : List α) (w : ℕ) :
    (l.insertionSort fun a b => weight b ≤ weight a).filter (fun a => decide (weight a = w)) =
      l.filter fun a => decide (weight a = w) := by
  have hequal : (l.filter fun a => decide (weight a = w)).Pairwise
      fun a b => weight b ≤ weight a := by
    refine List.pairwise_of_forall_mem_list fun a ha b hb => ?_
    rw [of_decide_eq_true (List.mem_filter.mp ha).2, of_decide_eq_true (List.mem_filter.mp hb).2]
  have hsub := (List.sublist_insertionSort hequal List.filter_sublist).filter
    fun a => decide (weight a = w)
  simp only [List.filter_filter, Bool.and_self] at hsub
  refine (hsub.eq_of_length ?_).symm
  exact ((List.perm_insertionSort _ l).filter _).length_eq.symm

theorem filter_weight_best_initial (weight : α → ℕ) (m : ℕ) (l : List α) (w : ℕ) :
    (best weight m l).filter (fun a => decide (weight a = w)) <+:
      l.filter fun a => decide (weight a = w) := by
  rw [← filter_weight_sorted weight l w]
  have hinitial := List.take_prefix m (l.insertionSort fun a b => weight b ≤ weight a)
  exact hinitial.filter _

end

end Rustchain.Lib.Ranking

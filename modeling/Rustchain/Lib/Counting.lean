import Mathlib.Data.Finset.Dedup
import Mathlib.Data.Finset.Card

/-! # Counting different values

A list of entries, some of which count, and the different values among those that count. A count of
the entries is at least as large; the two are the same when every entry counts and no value comes
twice. -/

namespace Rustchain.Lib.Counting

variable {α β : Type*} [DecidableEq β]

/-- The different values of `f` among the entries that count. -/
def distinct (p : α → Bool) (f : α → β) (l : List α) : Finset β := ((l.filter p).map f).toFinset

variable {p : α → Bool} {f : α → β}

theorem card_distinct_le_filter (l : List α) : (distinct p f l).card ≤ (l.filter p).length := by
  have h := List.toFinset_card_le ((l.filter p).map f)
  rwa [List.length_map] at h

theorem card_distinct_le_length (l : List α) : (distinct p f l).card ≤ l.length :=
  (card_distinct_le_filter l).trans (List.length_filter_le p l)

theorem card_distinct_mono {l l' : List α} (h : l.Sublist l') :
    (distinct p f l).card ≤ (distinct p f l').card := by
  refine Finset.card_le_card fun b hb => ?_
  simp only [distinct, List.mem_toFinset, List.mem_map, List.mem_filter] at hb ⊢
  obtain ⟨a, ⟨ha, hp⟩, hf⟩ := hb
  exact ⟨a, ⟨h.subset ha, hp⟩, hf⟩

theorem length_le_card_distinct_iff (l : List α) :
    l.length ≤ (distinct p f l).card ↔ (∀ a ∈ l, p a = true) ∧ (l.map f).Nodup := by
  constructor
  · intro h
    have hfilter : (l.filter p).length = l.length :=
      le_antisymm (List.length_filter_le p l) (h.trans (card_distinct_le_filter l))
    have hall : ∀ a ∈ l, p a = true := List.length_filter_eq_length_iff.mp hfilter
    have hself : l.filter p = l := List.filter_eq_self.mpr hall
    refine ⟨hall, ?_⟩
    rw [distinct, hself, List.card_toFinset, ← List.length_map f] at h
    have hdedup : (l.map f).dedup = l.map f :=
      (List.dedup_sublist _).eq_of_length (le_antisymm (List.dedup_sublist _).length_le h)
    exact List.dedup_eq_self.mp hdedup
  · rintro ⟨hall, hnodup⟩
    rw [distinct, List.filter_eq_self.mpr hall, List.toFinset_card_of_nodup hnodup,
      List.length_map]

theorem le_card_distinct_of_take {l : List α} {n : ℕ} (hn : n ≤ l.length)
    (hall : ∀ a ∈ l.take n, p a = true) (hnodup : ((l.take n).map f).Nodup) :
    n ≤ (distinct p f l).card := by
  have h := (length_le_card_distinct_iff (l.take n)).mpr ⟨hall, hnodup⟩
  rw [List.length_take, min_eq_left hn] at h
  exact h.trans (card_distinct_mono (List.take_sublist n l))

end Rustchain.Lib.Counting

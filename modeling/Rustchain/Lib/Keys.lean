import Mathlib.Data.List.Infix
import Mathlib.InformationTheory.Coding.UniquelyDecodable

/-! # Keys made of parts

A key that is put together from parts determines them: where a separator stands that one side of it
does not contain, or where two keys start with words of which neither begins the other. A text that
is a sequence of such words determines the sequence. -/

namespace Rustchain.Lib.Keys

variable {α : Type*}

theorem cut_first {s : α} {a b c d : List α} (ha : s ∉ a) (hc : s ∉ c)
    (h : a ++ s :: b = c ++ s :: d) : a = c ∧ b = d := by
  induction a generalizing c with
  | nil =>
    cases c with
    | nil => exact ⟨rfl, (List.cons.inj h).2⟩
    | cons x c => exact absurd ((List.cons.inj h).1 ▸ List.mem_cons_self) hc
  | cons x a ih =>
    cases c with
    | nil => exact absurd ((List.cons.inj h).1.symm ▸ List.mem_cons_self) ha
    | cons y c =>
      obtain ⟨hxy, hrest⟩ := List.cons.inj h
      obtain ⟨hac, hbd⟩ := ih (fun hm => ha (List.mem_cons_of_mem x hm))
        (fun hm => hc (List.mem_cons_of_mem y hm)) hrest
      exact ⟨by rw [hxy, hac], hbd⟩

theorem cut_last {s : α} {a b c d : List α} (hb : s ∉ b) (hd : s ∉ d)
    (h : a ++ s :: b = c ++ s :: d) : a = c ∧ b = d := by
  have hrev := congrArg List.reverse h
  simp only [List.reverse_append, List.reverse_cons, List.append_assoc, List.singleton_append]
    at hrev
  obtain ⟨hbd, hac⟩ := cut_first (by simpa using hb) (by simpa using hd) hrev
  exact ⟨List.reverse_injective hac, List.reverse_injective hbd⟩

theorem append_ne_append {p q : List α} (hpq : ¬ p <+: q) (hqp : ¬ q <+: p) (a b : List α) :
    p ++ a ≠ q ++ b := by
  intro h
  rcases List.prefix_or_prefix_of_prefix (List.prefix_append p a)
    (h ▸ List.prefix_append q b) with hp | hp
  · exact hpq hp
  · exact hqp hp

/-- Words of which none begins another. -/
def PrefixFree {ι : Type*} (word : ι → List α) : Prop := ∀ i j, i ≠ j → ¬ word i <+: word j

theorem PrefixFree.append_ne {ι : Type*} {word : ι → List α} (h : PrefixFree word) {i j : ι}
    (hij : i ≠ j) (a b : List α) : word i ++ a ≠ word j ++ b :=
  append_ne_append (h i j hij) (h j i hij.symm) a b

theorem PrefixFree.append_inj {ι : Type*} {word : ι → List α} (h : PrefixFree word) {i j : ι}
    {a b : List α} (heq : word i ++ a = word j ++ b) : i = j ∧ a = b := by
  have hij : i = j := by
    by_contra hij
    exact h.append_ne hij a b heq
  subst hij
  exact ⟨rfl, List.append_cancel_left heq⟩

/-- **A text is parsed in one way** into words of which none begins another. -/
theorem PrefixFree.uniquelyDecodable {ι : Type*} {word : ι → List α} (h : PrefixFree word)
    (hne : ∀ i, word i ≠ []) : InformationTheory.UniquelyDecodable (Set.range word) := by
  intro L L' hL hL' heq
  induction L generalizing L' with
  | nil =>
    cases L' with
    | nil => rfl
    | cons w L' =>
      obtain ⟨i, rfl⟩ := hL' w List.mem_cons_self
      exact absurd (List.append_eq_nil_iff.mp heq.symm).1 (hne i)
  | cons w L ih =>
    obtain ⟨i, rfl⟩ := hL w List.mem_cons_self
    cases L' with
    | nil => exact absurd (List.append_eq_nil_iff.mp heq).1 (hne i)
    | cons w' L' =>
      obtain ⟨j, rfl⟩ := hL' w' List.mem_cons_self
      obtain ⟨rfl, hrest⟩ := h.append_inj heq
      rw [ih L' (fun v hv => hL v (List.mem_cons_of_mem _ hv))
        (fun v hv => hL' v (List.mem_cons_of_mem _ hv)) hrest]

/-- The words that begin the keys of a store. -/
structure Words (ι : Type*) (α : Type*) where
  word : ι → List α
  prefixFree : PrefixFree word

namespace Words

variable {ι : Type*} (W : Words ι α)

/-- The key of `rest` in the family of keys that begin with a word. -/
def key (i : ι) (rest : List α) : List α := W.word i ++ rest

variable {W}

theorem key_ne {i j : ι} (h : i ≠ j) (a b : List α) : W.key i a ≠ W.key j b :=
  W.prefixFree.append_ne h a b

theorem key_inj {i : ι} {a b : List α} : W.key i a = W.key i b ↔ a = b := List.append_right_inj _

theorem word_prefix_key_iff {i j : ι} {a : List α} : W.word i <+: W.key j a ↔ i = j := by
  constructor
  · intro h
    by_contra hij
    rcases List.prefix_or_prefix_of_prefix h (List.prefix_append (W.word j) a) with hp | hp
    · exact W.prefixFree i j hij hp
    · exact W.prefixFree j i (Ne.symm hij) hp
  · rintro rfl
    exact List.prefix_append _ _

end Words

end Rustchain.Lib.Keys

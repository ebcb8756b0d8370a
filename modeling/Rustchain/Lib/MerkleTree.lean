import Mathlib.Data.List.Nodup
import Mathlib.Data.Set.Function
import Mathlib.Logic.Function.Iterate

/-! # Merkle trees over a list

Every level of the tree is the one below with its elements joined two by two; the last element of a
level of odd length is joined with itself. The tree is over any type of labels with an operation
`node` that joins two of them, and nothing is assumed of `node` beyond the pairs it is applied to.

The top of the tree determines lists of one length (`eq_of_top_eq_of_length`) and lists without
repetitions (`eq_of_top_eq_of_nodup`). It does not determine all lists: a list of odd length and the
same list with its last element repeated have the same pairs (`pairs_concat_last`). A way from a
label to the top starts at a label of the tree (`exists_level_of_climb`). -/

namespace Rustchain.Lib.MerkleTree

universe u
variable {α : Type u}

/-! ### Levels -/

/-- The pairs of neighbours of a level; a last element without a neighbour is its own. -/
def pairs : List α → List (α × α)
  | a :: b :: rest => (a, b) :: pairs rest
  | [a] => [(a, a)]
  | [] => []

section
variable (node : α → α → α)

def up (l : List α) : List α := (pairs l).map fun p => node p.1 p.2

/-- The levels above `l`, while there is more than one element. -/
def layers : ℕ → List α → List (List α)
  | 0, _ => []
  | fuel + 1, l => if l.length ≤ 1 then [] else up node l :: layers fuel (up node l)

def top : ℕ → List α → List α
  | 0, l => l
  | fuel + 1, l => if l.length ≤ 1 then l else top fuel (up node l)

/-- All pairs that are joined in the tree. -/
def joined : ℕ → List α → List (α × α)
  | 0, _ => []
  | fuel + 1, l => if l.length ≤ 1 then [] else pairs l ++ joined fuel (up node l)

end

variable {node : α → α → α} {l l' : List α}

/-! ### Pairs -/

theorem length_pairs : ∀ l : List α, (pairs l).length = (l.length + 1) / 2
  | [] => by simp [pairs]
  | [_] => by simp [pairs]
  | a :: b :: rest => by
    have ih := length_pairs rest
    simp only [pairs, List.length_cons, ih]
    omega

theorem length_up (l : List α) : (up node l).length = (l.length + 1) / 2 := by
  rw [up, List.length_map, length_pairs]

theorem up_ne_nil (h : l ≠ []) : up node l ≠ [] := by
  have hpos := List.length_pos_iff.mpr h
  have hlen : (up node l).length = (l.length + 1) / 2 := length_up l
  rw [← List.length_pos_iff]
  omega

theorem pairs_concat_last : ∀ {l : List α} {a : α}, l.length % 2 = 0 →
    pairs (l ++ [a]) = pairs (l ++ [a, a])
  | [], a, _ => rfl
  | [_], _, h => absurd h (by simp)
  | b :: c :: rest, a, h => by
    have hrest : rest.length % 2 = 0 := by
      simp only [List.length_cons] at h
      omega
    simp only [List.cons_append, pairs]
    rw [pairs_concat_last hrest]

theorem pairs_inj_of_length : ∀ {l l' : List α}, l.length = l'.length → pairs l = pairs l' → l = l'
  | [], [], _, _ => rfl
  | [a], [b], _, h => by
    simp only [pairs, List.cons.injEq, Prod.mk.injEq] at h
    rw [h.1.1]
  | a :: b :: rest, c :: d :: rest', hlen, h => by
    simp only [pairs, List.cons.injEq, Prod.mk.injEq] at h
    obtain ⟨⟨rfl, rfl⟩, hrest⟩ := h
    have hlen' : rest.length = rest'.length := by
      simp only [List.length_cons] at hlen
      omega
    rw [pairs_inj_of_length hlen' hrest]
  | [], _ :: _, hlen, _ => absurd hlen (by simp)
  | _ :: _, [], hlen, _ => absurd hlen (by simp)
  | [_], _ :: _ :: _, hlen, _ => absurd hlen (by simp)
  | _ :: _ :: _, [_], hlen, _ => absurd hlen (by simp)

theorem pairs_inj_of_nodup : ∀ {l l' : List α}, l.Nodup → l'.Nodup → pairs l = pairs l' → l = l'
  | [], [], _, _, _ => rfl
  | [a], [b], _, _, h => by
    simp only [pairs, List.cons.injEq, Prod.mk.injEq] at h
    rw [h.1.1]
  | a :: b :: rest, c :: d :: rest', hn, hn', h => by
    simp only [pairs, List.cons.injEq, Prod.mk.injEq] at h
    obtain ⟨⟨rfl, rfl⟩, hrest⟩ := h
    have ih := pairs_inj_of_nodup hn.of_cons.of_cons hn'.of_cons.of_cons hrest
    rw [ih]
  | [a], c :: d :: rest, _, hn', h => by
    -- a single element is paired with itself, and `c` and `d` are not equal
    simp only [pairs, List.cons.injEq, Prod.mk.injEq] at h
    obtain ⟨⟨rfl, rfl⟩, -⟩ := h
    simp at hn'
  | a :: b :: rest, [c], hn, _, h => by
    simp only [pairs, List.cons.injEq, Prod.mk.injEq] at h
    obtain ⟨⟨rfl, rfl⟩, -⟩ := h
    simp at hn
  | [], [_], _, _, h => by simp [pairs] at h
  | [], _ :: _ :: _, _, _, h => by simp [pairs] at h
  | [_], [], _, _, h => by simp [pairs] at h
  | _ :: _ :: _, [], _, _, h => by simp [pairs] at h

theorem fst_mem_of_mem_pairs : ∀ {l : List α} {p : α × α}, p ∈ pairs l → p.1 ∈ l
  | [a], p, h => by
    rw [List.mem_singleton.mp h]
    exact List.mem_singleton_self a
  | a :: b :: rest, p, h => by
    rcases List.mem_cons.mp h with rfl | h
    · exact List.mem_cons_self
    · exact List.mem_cons_of_mem _ (List.mem_cons_of_mem _ (fst_mem_of_mem_pairs h))

theorem snd_mem_of_mem_pairs : ∀ {l : List α} {p : α × α}, p ∈ pairs l → p.2 ∈ l
  | [a], p, h => by
    rw [List.mem_singleton.mp h]
    exact List.mem_singleton_self a
  | a :: b :: rest, p, h => by
    rcases List.mem_cons.mp h with rfl | h
    · exact List.mem_cons_of_mem _ List.mem_cons_self
    · exact List.mem_cons_of_mem _ (List.mem_cons_of_mem _ (snd_mem_of_mem_pairs h))

/-- The pair at an index, where the last element of a list of odd length stands for its partner. -/
theorem getElem?_pairs : ∀ {l : List α} {k : ℕ} {a : α}, l[2 * k]? = some a →
    (pairs l)[k]? = some (a, (l[2 * k + 1]?).getD a)
  | [_], 0, _, h => by simpa [pairs] using h
  | c :: d :: rest, 0, a, h => by
    rw [Option.some.inj (show some c = some a from h)]
    rfl
  | c :: d :: rest, k + 1, a, h => getElem?_pairs (l := rest) (k := k) h

theorem getElem?_pairs_even {l : List α} {i : ℕ} {a : α} (h : l[i]? = some a) (he : i % 2 = 0) :
    ∃ b, l[min (i + 1) (l.length - 1)]? = some b ∧ (pairs l)[i / 2]? = some (a, b) := by
  obtain ⟨k, rfl⟩ : ∃ k, i = 2 * k := ⟨i / 2, by omega⟩
  have hi := (List.getElem?_eq_some_iff.mp h).1
  rw [Nat.mul_div_cancel_left k (by decide)]
  refine ⟨_, ?_, getElem?_pairs h⟩
  by_cases hlast : 2 * k + 1 < l.length
  · rw [min_eq_left (by omega), List.getElem?_eq_getElem hlast]
    rfl
  · rw [min_eq_right (by omega), show l.length - 1 = 2 * k by omega,
      List.getElem?_eq_none (not_lt.mp hlast)]
    exact h

theorem getElem?_pairs_odd {l : List α} {i : ℕ} {a : α} (h : l[i]? = some a) (ho : i % 2 = 1) :
    ∃ b, l[min (i - 1) (l.length - 1)]? = some b ∧ (pairs l)[i / 2]? = some (b, a) := by
  obtain ⟨k, rfl⟩ : ∃ k, i = 2 * k + 1 := ⟨i / 2, by omega⟩
  have hi := (List.getElem?_eq_some_iff.mp h).1
  have hb := List.getElem?_eq_getElem (show 2 * k < l.length by omega)
  have hp := getElem?_pairs hb
  rw [h] at hp
  rw [min_eq_left (by omega), show (2 * k + 1) / 2 = k by omega]
  exact ⟨_, hb, hp⟩
theorem nodup_pairs : ∀ {l : List α}, l.Nodup → (pairs l).Nodup
  | [], _ => List.nodup_nil
  | [a], _ => List.nodup_singleton _
  | a :: b :: rest, h => by
    refine List.nodup_cons.mpr ⟨fun hmem => ?_, nodup_pairs h.of_cons.of_cons⟩
    have ha : a ∈ rest := fst_mem_of_mem_pairs hmem
    exact (List.nodup_cons.mp h).1 (List.mem_cons_of_mem _ ha)

/-! ### One level up -/

/-- No two of the pairs in `s` are joined to one label. -/
def Injective (node : α → α → α) (s : Set (α × α)) : Prop := s.InjOn fun p => node p.1 p.2

variable {s : Set (α × α)}

theorem pairs_eq_of_up_eq (hs : Injective node s) (hl : ∀ p ∈ pairs l, p ∈ s)
    (hl' : ∀ p ∈ pairs l', p ∈ s) (h : up node l = up node l') : pairs l = pairs l' := by
  unfold up at h
  generalize pairs l = ps at h hl
  generalize pairs l' = qs at h hl'
  induction ps generalizing qs with
  | nil => exact (List.map_eq_nil_iff.mp h.symm).symm
  | cons p ps ih =>
    cases qs with
    | nil => cases h
    | cons q qs =>
      rw [List.map_cons, List.map_cons, List.cons.injEq] at h
      have hpq : p = q := hs (hl p List.mem_cons_self) (hl' q List.mem_cons_self) h.1
      have hrest := ih (fun r hr => hl r (List.mem_cons_of_mem _ hr)) qs h.2
        (fun r hr => hl' r (List.mem_cons_of_mem _ hr))
      rw [hpq, hrest]

theorem nodup_up (hs : Injective node s) (hl : ∀ p ∈ pairs l, p ∈ s) (hn : l.Nodup) :
    (up node l).Nodup :=
  (nodup_pairs hn).map_on fun p hp q hq h => hs (hl p hp) (hl q hq) h

/-! ### The whole tree -/

theorem getLast_layers : ∀ (fuel : ℕ) (l : List α),
    (l :: layers node fuel l).getLast? = some (top node fuel l)
  | 0, _ => rfl
  | fuel + 1, l => by
    unfold layers top
    split_ifs
    · rfl
    · rw [List.getLast?_cons_cons]
      exact getLast_layers fuel (up node l)

theorem length_top : ∀ {fuel : ℕ} {l : List α}, l ≠ [] → l.length ≤ fuel + 1 →
    (top node fuel l).length = 1
  | 0, l, hne, hle => by
    have hpos := List.length_pos_iff.mpr hne
    show l.length = 1
    omega
  | fuel + 1, l, hne, hle => by
    have hpos := List.length_pos_iff.mpr hne
    unfold top
    split_ifs with h1
    · omega
    · refine length_top (up_ne_nil hne) ?_
      rw [length_up]
      omega

theorem mem_top : ∀ {fuel : ℕ} {l : List α} {a : α}, a ∈ top node fuel l →
    a ∈ l ∨ ∃ p ∈ joined node fuel l, node p.1 p.2 = a
  | 0, _, _, h => .inl h
  | fuel + 1, l, a, h => by
    unfold top at h
    unfold joined
    split_ifs at h ⊢ with h1
    · exact .inl h
    · rcases mem_top h with h | ⟨p, hp, rfl⟩
      · obtain ⟨p, hp, rfl⟩ := List.mem_map.mp h
        exact .inr ⟨p, List.mem_append_left _ hp, rfl⟩
      · exact .inr ⟨p, List.mem_append_right _ hp, rfl⟩

theorem top_fuel : ∀ {fuel fuel' : ℕ} {l : List α}, l.length ≤ fuel + 1 → l.length ≤ fuel' + 1 →
    top node fuel l = top node fuel' l
  | 0, fuel', l, h, _ => by
    cases fuel' with
    | zero => rfl
    | succ fuel' => rw [top, top, if_pos h]
  | fuel + 1, 0, l, _, h => by rw [top, top, if_pos h]
  | fuel + 1, fuel' + 1, l, h, h' => by
    unfold top
    split_ifs with h1
    · rfl
    · refine top_fuel ?_ ?_
      · rw [length_up]
        omega
      · rw [length_up]
        omega

/-- **The last element of a list of odd length** may be repeated without a change of the top. -/
theorem top_concat_last {a : α} {fuel fuel' : ℕ} (hne : l ≠ []) (heven : l.length % 2 = 0)
    (h : l.length ≤ fuel) (h' : l.length + 1 ≤ fuel') :
    top node (fuel + 1) (l ++ [a]) = top node (fuel' + 1) (l ++ [a, a]) := by
  have hpos := List.length_pos_iff.mpr hne
  have hlen : (l ++ [a]).length = l.length + 1 := by simp
  have hlen' : (l ++ [a, a]).length = l.length + 2 := by simp
  have hup : up node (l ++ [a]) = up node (l ++ [a, a]) := by
    unfold up
    rw [pairs_concat_last heven]
  unfold top
  rw [if_neg (by omega), if_neg (by omega), ← hup]
  refine top_fuel ?_ ?_
  · rw [length_up]
    omega
  · rw [length_up]
    omega

/-- **Lists of one length** are determined by the top of their trees. -/
theorem eq_of_top_eq_of_length (hs : Injective node s) : ∀ {fuel : ℕ} {l l' : List α},
    l.length = l'.length → (∀ p ∈ joined node fuel l, p ∈ s) →
    (∀ p ∈ joined node fuel l', p ∈ s) → top node fuel l = top node fuel l' → l = l'
  | 0, _, _, _, _, _, h => h
  | fuel + 1, l, l', hlen, hl, hl', h => by
    unfold top at h
    unfold joined at hl hl'
    rw [← hlen] at h hl'
    split_ifs at h hl hl' with h1
    · exact h
    · have hup : (up node l).length = (up node l').length := by
        rw [length_up, length_up, hlen]
      have hlevel : up node l = up node l' := eq_of_top_eq_of_length hs hup
        (fun p hp => hl p (List.mem_append_right _ hp))
        (fun p hp => hl' p (List.mem_append_right _ hp)) h
      exact pairs_inj_of_length hlen (pairs_eq_of_up_eq hs
        (fun p hp => hl p (List.mem_append_left _ hp))
        (fun p hp => hl' p (List.mem_append_left _ hp)) hlevel)

/-- The top is reached in a number of levels, and the pairs of each level below are among those that
are joined. -/
theorem exists_top_eq : ∀ (fuel : ℕ) (l : List α), ∃ k, top node fuel l = (up node)^[k] l ∧
    ∀ j < k, ∀ p ∈ pairs ((up node)^[j] l), p ∈ joined node fuel l
  | 0, l => ⟨0, rfl, fun j hj => absurd hj (Nat.not_lt_zero j)⟩
  | fuel + 1, l => by
    unfold top joined
    split_ifs with h1
    · exact ⟨0, rfl, fun j hj => absurd hj (Nat.not_lt_zero j)⟩
    · obtain ⟨k, hk, hpairs⟩ := exists_top_eq fuel (up node l)
      refine ⟨k + 1, hk, fun j hj p hp => ?_⟩
      cases j with
      | zero => exact List.mem_append_left _ hp
      | succ j => exact List.mem_append_right _ (hpairs j (by omega) p hp)

theorem nodup_iterate_up (hs : Injective node s) (hn : l.Nodup) {k : ℕ}
    (hl : ∀ j < k, ∀ p ∈ pairs ((up node)^[j] l), p ∈ s) : ((up node)^[k] l).Nodup := by
  induction k with
  | zero => exact hn
  | succ k ih =>
    rw [Function.iterate_succ_apply']
    exact nodup_up hs (hl k (Nat.lt_succ_self k)) (ih fun j hj => hl j (by omega))

theorem eq_of_iterate_up_eq (hs : Injective node s) (hn : l.Nodup) (hn' : l'.Nodup) {k : ℕ}
    (hl : ∀ j < k, ∀ p ∈ pairs ((up node)^[j] l), p ∈ s)
    (hl' : ∀ j < k, ∀ p ∈ pairs ((up node)^[j] l'), p ∈ s)
    (h : (up node)^[k] l = (up node)^[k] l') : l = l' := by
  induction k with
  | zero => exact h
  | succ k ih =>
    have hk : ∀ j < k, j < k + 1 := fun j hj => by omega
    rw [Function.iterate_succ_apply', Function.iterate_succ_apply'] at h
    have hpairs := pairs_eq_of_up_eq hs (hl k (Nat.lt_succ_self k)) (hl' k (Nat.lt_succ_self k)) h
    refine ih (fun j hj => hl j (hk j hj)) (fun j hj => hl' j (hk j hj)) ?_
    exact pairs_inj_of_nodup (nodup_iterate_up hs hn fun j hj => hl j (hk j hj))
      (nodup_iterate_up hs hn' fun j hj => hl' j (hk j hj)) hpairs

theorem eq_of_levels (hs : Injective node s) {leaf : α → Prop}
    (hleaf : ∀ p ∈ s, ¬ leaf (node p.1 p.2)) (hne : l ≠ []) (hall : ∀ a ∈ l, leaf a)
    (hn : l.Nodup) (hn' : l'.Nodup) {k m : ℕ}
    (hl : ∀ j < k, ∀ p ∈ pairs ((up node)^[j] l), p ∈ s)
    (hl' : ∀ j < k + m, ∀ p ∈ pairs ((up node)^[j] l'), p ∈ s)
    (h : (up node)^[k] l = (up node)^[k + m] l') : l = l' := by
  have hlow : l = (up node)^[m] l' := by
    rw [Function.iterate_add_apply] at h
    refine eq_of_iterate_up_eq hs hn (nodup_iterate_up hs hn' fun j hj => hl' j (by omega)) hl
      (fun j hj => ?_) h
    rw [← Function.iterate_add_apply]
    exact hl' (j + m) (by omega)
  cases m with
  | zero => exact hlow
  | succ m =>
    obtain ⟨a, rest, rfl⟩ := List.exists_cons_of_ne_nil hne
    rw [Function.iterate_succ_apply'] at hlow
    have ha : a ∈ up node ((up node)^[m] l') := by
      rw [← hlow]
      exact List.mem_cons_self
    obtain ⟨p, hp, rfl⟩ := List.mem_map.mp ha
    exact absurd (hall _ List.mem_cons_self) (hleaf p (hl' m (by omega) p hp))

/-- **Lists of leaves without repetitions** are determined by the top of their trees, of whatever
lengths they are, if no two elements are joined to a leaf; `L` says what a leaf is. -/
theorem eq_of_top_eq_of_nodup (hs : Injective node s) {L : α → Prop}
    (hleaf : ∀ p ∈ s, ¬ L (node p.1 p.2)) (hne : l ≠ []) (hne' : l' ≠ [])
    (hall : ∀ a ∈ l, L a) (hall' : ∀ a ∈ l', L a) (hn : l.Nodup) (hn' : l'.Nodup)
    {fuel fuel' : ℕ} (hl : ∀ p ∈ joined node fuel l, p ∈ s)
    (hl' : ∀ p ∈ joined node fuel' l', p ∈ s) (h : top node fuel l = top node fuel' l') :
    l = l' := by
  obtain ⟨k, hk, hpairs⟩ := @exists_top_eq _ node fuel l
  obtain ⟨k', hk', hpairs'⟩ := @exists_top_eq _ node fuel' l'
  have hs₁ : ∀ j < k, ∀ p ∈ pairs ((up node)^[j] l), p ∈ s := fun j hj p hp =>
    hl p (hpairs j hj p hp)
  have hs₂ : ∀ j < k', ∀ p ∈ pairs ((up node)^[j] l'), p ∈ s := fun j hj p hp =>
    hl' p (hpairs' j hj p hp)
  rw [hk, hk'] at h
  rcases Nat.le_total k k' with hle | hle
  · obtain ⟨m, rfl⟩ := Nat.exists_eq_add_of_le hle
    exact eq_of_levels hs hleaf hne hall hn hn' hs₁ hs₂ h
  · obtain ⟨m, rfl⟩ := Nat.exists_eq_add_of_le hle
    exact (eq_of_levels hs hleaf hne' hall' hn' hn hs₂ hs₁ h.symm).symm

/-! ### Ways to the top -/

section
variable {β : Type*} (node : α → α → α) (place : α → β → α × α)

/-- The way up from a label: every step places it in a pair, which is joined. -/
def climb (a : α) (steps : List β) : α :=
  steps.foldl (fun a s => node (place a s).1 (place a s).2) a

/-- The pairs that are joined on the way. -/
def climbed : α → List β → List (α × α)
  | _, [] => []
  | a, s :: steps => place a s :: climbed (node (place a s).1 (place a s).2) steps

end

section
variable {β : Type*} {place : α → β → α × α}

/-- **A way that arrives in a level** starts in a level below, if no leaf is joined from two labels:
the pairs on the way are pairs of the levels. -/
theorem exists_level_of_climb (hs : Injective node s) (hleaf : ∀ p ∈ s, node p.1 p.2 ∉ l)
    (hplace : ∀ a b, (place a b).1 = a ∨ (place a b).2 = a) {k : ℕ}
    (hl : ∀ j < k, ∀ p ∈ pairs ((up node)^[j] l), p ∈ s) : ∀ {steps : List β} {a : α},
      (∀ p ∈ climbed node place a steps, p ∈ s) → climb node place a steps ∈ (up node)^[k] l →
        ∃ j ≤ k, a ∈ (up node)^[j] l
  | [], _, _, h => ⟨k, le_rfl, h⟩
  | b :: steps, a, hsteps, h => by
    obtain ⟨j, hj, hmem⟩ := exists_level_of_climb hs hleaf hplace hl
      (fun p hp => hsteps p (List.mem_cons_of_mem _ hp)) h
    have hab := hsteps _ List.mem_cons_self
    cases j with
    | zero => exact absurd hmem (hleaf _ hab)
    | succ j =>
      rw [Function.iterate_succ_apply'] at hmem
      obtain ⟨p, hp, hnode⟩ := List.mem_map.mp hmem
      obtain rfl : p = place a b := hs (hl j (by omega) p hp) hab hnode
      refine ⟨j, by omega, ?_⟩
      rcases hplace a b with ha | ha
      · rw [← ha]
        exact fst_mem_of_mem_pairs hp
      · rw [← ha]
        exact snd_mem_of_mem_pairs hp

/-- **A way to the top** starts at a leaf, or at a label that is joined from two others. -/
theorem mem_or_joined_of_climb (hs : Injective node s) (hleaf : ∀ p ∈ s, node p.1 p.2 ∉ l)
    (hplace : ∀ a b, (place a b).1 = a ∨ (place a b).2 = a) {fuel : ℕ}
    (hl : ∀ p ∈ joined node fuel l, p ∈ s) {steps : List β} {a : α}
    (hsteps : ∀ p ∈ climbed node place a steps, p ∈ s)
    (h : climb node place a steps ∈ top node fuel l) :
    a ∈ l ∨ ∃ p ∈ joined node fuel l, node p.1 p.2 = a := by
  obtain ⟨k, hk, hpairs⟩ := @exists_top_eq _ node fuel l
  rw [hk] at h
  obtain ⟨j, hj, ha⟩ := exists_level_of_climb hs hleaf hplace
    (fun j hj p hp => hl p (hpairs j hj p hp)) hsteps h
  cases j with
  | zero => exact .inl ha
  | succ j =>
    rw [Function.iterate_succ_apply'] at ha
    obtain ⟨p, hp, rfl⟩ := List.mem_map.mp ha
    exact .inr ⟨p, hpairs j (by omega) p hp, rfl⟩

end

end Rustchain.Lib.MerkleTree

import Mathlib.Data.Finmap
import Mathlib.Algebra.BigOperators.Group.Finset.Basic
import Mathlib.Algebra.Order.BigOperators.Group.Finset
import Mathlib.Algebra.Order.Group.Nat

/-! # Tables: finite maps, their totals and their iteration

A table is a `Finmap` with values in one type; a hash map is an `AList`, which also has an order of
its entries. What is added here is the total of a weight over the entries (`total`), which moves by
the difference at the written key, and the orders in which a loop can visit the entries of a hash
map (`IterOrder`). -/

namespace Rustchain.Lib.Maps

universe u v

variable {K : Type u} {V : Type v}

/-- A finite map from `K` to `V`. -/
abbrev Table (K : Type u) (V : Type v) := Finmap fun _ : K => V

/-- A hash map from `K` to `V`: a finite map with an order of its entries. -/
abbrev HashMap (K : Type u) (V : Type v) := AList fun _ : K => V

/-! ### Totals -/

section
variable {A : Type} [AddCommMonoid A]

/-- The total of the weight `f` over all entries. -/
def total (f : V → A) (m : Table K V) : A := (m.entries.map fun e => f e.2).sum

/-- The total of a weight that depends on the key as well. -/
def totalBy (f : K → V → A) (m : Table K V) : A := (m.entries.map fun e => f e.1 e.2).sum

variable (f : K → V → A) (m : Table K V) (k : K) (v : V)

theorem totalBy_empty : totalBy f (∅ : Table K V) = 0 := rfl

variable [DecidableEq K]

/-- The weight at a key, `0` where there is no entry. -/
def weightAt (f : V → A) (m : Table K V) (k : K) : A := ((m.lookup k).map f).getD 0

theorem totalBy_insert_of_notMem {m : Table K V} {k : K} (h : k ∉ m) (v : V) :
    totalBy f (m.insert k v) = f k v + totalBy f m := by
  unfold totalBy
  rw [Finmap.entries_insert_of_notMem h, Multiset.map_cons, Multiset.sum_cons]

theorem insert_erase_self : (m.erase k).insert k v = m.insert k v := by
  refine Finmap.ext_lookup fun a => ?_
  by_cases h : a = k
  · subst h; rw [Finmap.lookup_insert, Finmap.lookup_insert]
  · rw [Finmap.lookup_insert_of_ne _ h, Finmap.lookup_insert_of_ne _ h, Finmap.lookup_erase_ne h]

theorem insert_lookup_self {m : Table K V} {k : K} {v : V} (h : m.lookup k = some v) :
    m.insert k v = m := by
  refine Finmap.ext_lookup fun a => ?_
  by_cases ha : a = k
  · subst ha; rw [Finmap.lookup_insert, h]
  · rw [Finmap.lookup_insert_of_ne _ ha]

theorem totalBy_eq_erase : totalBy f m = weightAt (f k) m k + totalBy f (m.erase k) := by
  unfold weightAt
  cases h : m.lookup k with
  | none =>
    have he : m.erase k = m := by
      refine Finmap.ext_lookup fun a => ?_
      by_cases ha : a = k
      · subst ha; rw [Finmap.lookup_erase, h]
      · rw [Finmap.lookup_erase_ne ha]
    rw [he]; simp
  | some v =>
    have hi : totalBy f ((m.erase k).insert k v) = f k v + totalBy f (m.erase k) :=
      totalBy_insert_of_notMem f Finmap.notMem_erase_self v
    rw [insert_erase_self, insert_lookup_self h] at hi
    simpa using hi

/-- **Writing one key** moves the total by the difference at that key. -/
theorem totalBy_insert : totalBy f (m.insert k v) + weightAt (f k) m k = totalBy f m + f k v := by
  have h1 := totalBy_eq_erase f m k
  have h2 : totalBy f ((m.erase k).insert k v) = f k v + totalBy f (m.erase k) :=
    totalBy_insert_of_notMem f Finmap.notMem_erase_self v
  rw [insert_erase_self] at h2
  rw [h1, h2]
  ac_rfl

theorem total_insert (f : V → A) (m : Table K V) (k : K) (v : V) :
    total f (m.insert k v) + weightAt f m k = total f m + f v :=
  totalBy_insert (fun _ => f) m k v

theorem totalBy_eq_sum (S : Finset K) (m : Table K V) (h : ∀ k ∈ m, k ∈ S) :
    totalBy f m = ∑ k ∈ S, weightAt (f k) m k := by
  induction S using Finset.induction_on generalizing m with
  | empty =>
    have hm : m = ∅ := by
      refine Finmap.ext_lookup fun k => ?_
      rw [Finmap.lookup_eq_none.mpr fun hk => absurd (h k hk) (Finset.notMem_empty k)]
      rfl
    rw [hm, totalBy_empty, Finset.sum_empty]
  | insert k S hk ih =>
    have hrest := ih (m.erase k) fun a ha => by
      obtain ⟨hne, hm⟩ := Finmap.mem_erase.mp ha
      exact Finset.mem_of_mem_insert_of_ne (h a hm) hne
    have hsame : ∀ a ∈ S, weightAt (f a) (m.erase k) a = weightAt (f a) m a := by
      intro a ha
      have hne : a ≠ k := fun he => hk (he ▸ ha)
      rw [weightAt, Finmap.lookup_erase_ne hne, weightAt]
    rw [totalBy_eq_erase f m k, hrest, Finset.sum_insert hk, Finset.sum_congr rfl hsame]

theorem totalBy_congr {m m' : Table K V} (h : ∀ k, weightAt (f k) m k = weightAt (f k) m' k) :
    totalBy f m = totalBy f m' := by
  rw [totalBy_eq_sum f (m.keys ∪ m'.keys) m
      fun k hk => Finset.mem_union_left _ (Finmap.mem_keys.mpr hk),
    totalBy_eq_sum f (m.keys ∪ m'.keys) m'
      fun k hk => Finset.mem_union_right _ (Finmap.mem_keys.mpr hk)]
  exact Finset.sum_congr rfl fun k _ => h k

theorem total_eq_sum (f : V → A) (S : Finset K) (m : Table K V) (h : ∀ k ∈ m, k ∈ S) :
    total f m = ∑ k ∈ S, weightAt f m k :=
  totalBy_eq_sum (fun _ => f) S m h

theorem total_insert_of_lookup (f : V → A) {m : Table K V} {k : K} {v : V}
    (h : m.lookup k = some v) (v' : V) : total f (m.insert k v') + f v = total f m + f v' := by
  have hw : weightAt f m k = f v := by rw [weightAt, h]; rfl
  rw [← hw]
  exact total_insert f m k v'

end

section
variable [DecidableEq K] {f g : V → ℕ}

theorem weightAt_le_weightAt (h : ∀ v, g v ≤ f v) (m : Table K V) (k : K) :
    weightAt g m k ≤ weightAt f m k := by
  unfold weightAt
  cases m.lookup k with
  | none => exact le_rfl
  | some v => exact h v

theorem total_le_total (h : ∀ v, g v ≤ f v) (m : Table K V) : total g m ≤ total f m := by
  rw [total_eq_sum g m.keys m fun _ hk => Finmap.mem_keys.mpr hk,
    total_eq_sum f m.keys m fun _ hk => Finmap.mem_keys.mpr hk]
  exact Finset.sum_le_sum fun k _ => weightAt_le_weightAt h m k

theorem total_eq_total_iff (h : ∀ v, g v ≤ f v) (m : Table K V) :
    total g m = total f m ↔ ∀ k v, m.lookup k = some v → g v = f v := by
  rw [total_eq_sum g m.keys m fun _ hk => Finmap.mem_keys.mpr hk,
    total_eq_sum f m.keys m fun _ hk => Finmap.mem_keys.mpr hk,
    Finset.sum_eq_sum_iff_of_le fun k _ => weightAt_le_weightAt h m k]
  constructor
  · intro heq k v hv
    have hk := heq k (Finmap.mem_keys.mpr (Finmap.lookup_isSome.mp (by rw [hv]; rfl)))
    simpa only [weightAt, hv, Option.map_some, Option.getD_some] using hk
  · intro heq k _
    unfold weightAt
    cases hv : m.lookup k with
    | none => rfl
    | some v => exact heq k v hv

end

theorem sum_add_of_eq_off {ι : Type*} [Fintype ι] [DecidableEq ι] {f g : ι → ℕ} {i : ι}
    (h : ∀ j, j ≠ i → g j = f j) : ∑ j, g j + f i = ∑ j, f j + g i := by
  have hf := Finset.add_sum_erase Finset.univ f (Finset.mem_univ i)
  have hg := Finset.add_sum_erase Finset.univ g (Finset.mem_univ i)
  have hrest : ∑ j ∈ Finset.univ.erase i, g j = ∑ j ∈ Finset.univ.erase i, f j :=
    Finset.sum_congr rfl fun j hj => h j (Finset.ne_of_mem_erase hj)
  omega

/-! ### Updates of all values -/

/-- A hash map with every value replaced, as by a loop over `iter_mut`. -/
def mapValues (f : V → V) (m : HashMap K V) : HashMap K V where
  entries := m.entries.map fun e => ⟨e.1, f e.2⟩
  nodupKeys := by
    have hkeys : (m.entries.map fun e => (⟨e.1, f e.2⟩ : Sigma fun _ : K => V)).keys =
        m.entries.keys := by
      simp [List.keys, Function.comp_def]
    rw [List.NodupKeys, hkeys]
    exact m.nodupKeys

theorem lookup_mapValues [DecidableEq K] (f : V → V) (m : HashMap K V) (k : K) :
    (mapValues f m).lookup k = (m.lookup k).map f := by
  have h : ∀ l : List (Sigma fun _ : K => V),
      (l.map fun e => (⟨e.1, f e.2⟩ : Sigma fun _ : K => V)).dlookup k = (l.dlookup k).map f := by
    intro l
    induction l with
    | nil => rfl
    | cons e l ih =>
      obtain ⟨j, v⟩ := e
      rw [List.map_cons]
      by_cases hk : k = j
      · subst hk
        rw [List.dlookup_cons_eq, List.dlookup_cons_eq, Option.map_some]
      · rw [List.dlookup_cons_ne _ _ hk, List.dlookup_cons_ne _ _ hk, ih]
  exact h m.entries

/-! ### Iteration -/

variable [DecidableEq K]

/-- An order in which a loop visits the entries of a hash map: any rearrangement of them. -/
structure IterOrder (α : Type u) where
  visit : List α → List α
  perm : ∀ l, (visit l).Perm l

/-- The order in which the entries are listed. -/
def IterOrder.listed (α : Type u) : IterOrder α := ⟨fun l => l, fun l => List.Perm.refl l⟩

/-- What a lookup finds after the entries of a list were written one after the other. -/
theorem lookup_foldl_insert (a : K) : ∀ {l : List (Sigma fun _ : K => V)}, l.NodupKeys →
    ∀ m : Table K V, (l.foldl (fun m e => m.insert e.1 e.2) m).lookup a =
      (l.dlookup a).or (m.lookup a)
  | [], _, m => by simp
  | e :: l, h, m => by
    obtain ⟨he, hl⟩ := List.nodupKeys_cons.mp h
    rw [List.foldl_cons, lookup_foldl_insert a hl]
    by_cases ha : a = e.1
    · subst ha
      rw [List.dlookup_eq_none.mpr he, Finmap.lookup_insert]
      rw [List.dlookup_cons_eq]
      rfl
    · rw [List.dlookup_cons_ne _ _ ha, Finmap.lookup_insert_of_ne _ ha]

section
variable {α : Type*} {k : α → K} {v : α → V} {a : K}

theorem lookup_writes_of_notMem : ∀ {l : List α} (m : Table K V), (∀ x ∈ l, k x ≠ a) →
    (l.foldl (fun m x => m.insert (k x) (v x)) m).lookup a = m.lookup a
  | [], _, _ => rfl
  | x :: l, m, h => by
    rw [List.foldl_cons, lookup_writes_of_notMem _ fun y hy => h y (by simp [hy])]
    exact Finmap.lookup_insert_of_ne _ (Ne.symm (h x (by simp)))

theorem lookup_writes_of_mem : ∀ {l : List α} (m : Table K V), (∃ x ∈ l, k x = a) →
    ∃ x ∈ l, k x = a ∧ (l.foldl (fun m x => m.insert (k x) (v x)) m).lookup a = some (v x)
  | [], _, h => by simp at h
  | x :: l, m, h => by
    rw [List.foldl_cons]
    by_cases hl : ∃ y ∈ l, k y = a
    · obtain ⟨y, hy, hk, hv⟩ := lookup_writes_of_mem (m.insert (k x) (v x)) hl
      exact ⟨y, by simp [hy], hk, hv⟩
    · have hrest : ∀ y ∈ l, k y ≠ a := fun y hy hk => hl ⟨y, hy, hk⟩
      have hx : k x = a := by
        obtain ⟨y, hy, hk⟩ := h
        rcases List.mem_cons.mp hy with rfl | hy
        · exact hk
        · exact absurd hk (hrest y hy)
      refine ⟨x, by simp, hx, ?_⟩
      rw [lookup_writes_of_notMem _ hrest, ← hx]
      exact Finmap.lookup_insert _

end

theorem lookup_union (a : K) (s t : Table K V) :
    (s ∪ t).lookup a = (s.lookup a).or (t.lookup a) := by
  by_cases h : a ∈ s
  · obtain ⟨v, hv⟩ := Option.isSome_iff_exists.mp (Finmap.lookup_isSome.mpr h)
    rw [Finmap.lookup_union_left h, hv]
    rfl
  · rw [Finmap.lookup_union_right h, Finmap.lookup_eq_none.mpr h]
    rfl

/-- **Writing out a hash map**: in whatever order its entries are written, they end up on top of the
table. -/
theorem foldl_insert_visit (order : IterOrder (Sigma fun _ : K => V)) (o : HashMap K V)
    (m : Table K V) :
    (order.visit o.entries).foldl (fun m e => m.insert e.1 e.2) m = o.toFinmap ∪ m := by
  have hp := order.perm o.entries
  have hn : (order.visit o.entries).NodupKeys := (List.perm_nodupKeys hp).mpr o.nodupKeys
  refine Finmap.ext_lookup fun a => ?_
  rw [lookup_foldl_insert a hn, lookup_union, List.perm_dlookup a hn hp]
  rfl

/-- **Order independence**: a loop over a hash map whose steps at different keys commute gives the
same in every order. -/
theorem foldl_visit_eq {S : Type*} {f : S → (Sigma fun _ : K => V) → S}
    (hf : ∀ s e e', e.1 ≠ e'.1 → f (f s e) e' = f (f s e') e)
    (order order' : IterOrder (Sigma fun _ : K => V)) (m : HashMap K V) (s : S) :
    (order.visit m.entries).foldl f s = (order'.visit m.entries).foldl f s := by
  have hp := order.perm m.entries
  refine (hp.trans (order'.perm m.entries).symm).foldl_eq' (fun e he e' he' s => ?_) s
  by_cases h : e.1 = e'.1
  · rw [m.nodupKeys.eq_of_fst_eq (hp.mem_iff.mp he) (hp.mem_iff.mp he') h]
  · exact hf s e e' h

end Rustchain.Lib.Maps

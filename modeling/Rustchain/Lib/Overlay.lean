import Rustchain.Lib.Maps

/-! # A journal of writes over a table

Writes are collected in a hash map, in which `none` stands for a deletion, and written out to a
table later. The keys of the journal have their places in the table. If no two keys have the same
place, one more write to the journal is one more write to the table that it is written out to, and
what the journal or else the table says of a key is what the table has at its place afterwards. -/

namespace Rustchain.Lib.Overlay

open Lib.Maps

variable {K L V : Type} [DecidableEq L]

/-- A write to a table; `none` deletes. -/
def put (t : Table L V) (a : L) : Option V → Table L V
  | some v => t.insert a v
  | none => t.erase a

theorem lookup_put (t : Table L V) (a b : L) (v : Option V) :
    (put t a v).lookup b = if b = a then v else t.lookup b := by
  unfold put
  split_ifs with h
  · subst h
    cases v with
    | some v => exact Finmap.lookup_insert _
    | none => exact Finmap.lookup_erase _ _
  · cases v with
    | some v => exact Finmap.lookup_insert_of_ne _ h
    | none => exact Finmap.lookup_erase_ne h

variable {place : K → L}

theorem lookup_foldl_put_of_ne {a : L} : ∀ {es : List (Sigma fun _ : K => Option V)}
    (t : Table L V), (∀ e ∈ es, place e.1 ≠ a) →
      (es.foldl (fun t e => put t (place e.1) e.2) t).lookup a = t.lookup a
  | [], _, _ => rfl
  | e :: es, t, h => by
    rw [List.foldl_cons, lookup_foldl_put_of_ne _ fun e' he => h e' (List.mem_cons_of_mem e he),
      lookup_put, if_neg (h e List.mem_cons_self).symm]

/-- The table with a journal written out. -/
def written (place : K → L) (j : HashMap K (Option V)) (t : Table L V) : Table L V :=
  j.entries.foldl (fun t e => put t (place e.1) e.2) t

theorem lookup_written_of_ne (j : HashMap K (Option V)) (t : Table L V) {a : L}
    (ha : ∀ k, place k ≠ a) : (written place j t).lookup a = t.lookup a :=
  lookup_foldl_put_of_ne t fun e _ => ha e.1

variable [DecidableEq K]

/-- **What the table has at a place**: what the journal says of the key, or else what was there. -/
theorem lookup_foldl_put (hplace : Function.Injective place) (k : K) :
    ∀ {es : List (Sigma fun _ : K => Option V)}, es.NodupKeys → ∀ t : Table L V,
      (es.foldl (fun t e => put t (place e.1) e.2) t).lookup (place k) =
        (es.dlookup k).getD (t.lookup (place k))
  | [], _, _ => rfl
  | e :: es, h, t => by
    obtain ⟨he, hes⟩ := List.nodupKeys_cons.mp h
    rw [List.foldl_cons, lookup_foldl_put hplace k hes, lookup_put]
    by_cases hk : k = e.1
    · subst hk
      rw [List.dlookup_eq_none.mpr he, if_pos rfl, List.dlookup_cons_eq]
      rfl
    · rw [List.dlookup_cons_ne _ _ hk, if_neg fun heq => hk (hplace heq)]

theorem lookup_written (hplace : Function.Injective place) (j : HashMap K (Option V))
    (t : Table L V) (k : K) :
    (written place j t).lookup (place k) = (j.lookup k).getD (t.lookup (place k)) :=
  lookup_foldl_put hplace k j.nodupKeys t

/-- **One more write to the journal** is one more write to the table. -/
theorem written_insert (hplace : Function.Injective place) (j : HashMap K (Option V))
    (t : Table L V) (k : K) (v : Option V) :
    written place (j.insert k v) t = put (written place j t) (place k) v := by
  refine Finmap.ext_lookup fun a => ?_
  rw [lookup_put]
  by_cases ha : ∃ k', place k' = a
  · obtain ⟨k', rfl⟩ := ha
    rw [lookup_written hplace, lookup_written hplace]
    by_cases hk : k' = k
    · rw [hk, AList.lookup_insert, if_pos rfl]
      rfl
    · rw [AList.lookup_insert_ne hk, if_neg fun heq => hk (hplace heq)]
  · have hne : ∀ k', place k' ≠ a := fun k' heq => ha ⟨k', heq⟩
    rw [lookup_written_of_ne _ _ hne, lookup_written_of_ne _ _ hne, if_neg (hne k).symm]

end Rustchain.Lib.Overlay

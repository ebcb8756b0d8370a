import Mathlib.Init

/-! # Stateful computations that may have no result

Lemmas about `StateT S Option`: how `bind` runs, and the rule that a reflexive and transitive
relation between the state before and the state after is kept by a computation if its steps keep
it. A property of the results is a matter of the last steps only. Without a state, a loop over a
list has a result if an invariant gives every turn one. -/

namespace Rustchain.Lib.Partial

universe u v

variable {S α β : Type u}

theorem pure_apply (a : α) (s : S) : (pure a : StateT S Option α) s = some (a, s) := rfl

theorem some_pair_inj {a b : α} {s s' : S} (h : some (a, s) = some (b, s')) : a = b ∧ s = s' :=
  Prod.mk.inj (Option.some.inj h)

theorem pure_eq_some {a b : α} {s s' : S} (h : (pure a : StateT S Option α) s = some (b, s')) :
    a = b ∧ s = s' := some_pair_inj h

theorem bind_apply (x : StateT S Option α) (f : α → StateT S Option β) (s : S) :
    (x >>= f) s = (x s).bind fun p => f p.1 p.2 := rfl

theorem map_apply (f : α → β) (x : StateT S Option α) (s : S) :
    (f <$> x) s = (x s).map fun p => (f p.1, p.2) := by
  show (x s).bind _ = _
  cases x s <;> rfl

variable {f : α → StateT S Option β} {x : StateT S Option α}

theorem bind_of_eq {s s' : S} {a : α} (h : x s = some (a, s')) : (x >>= f) s = f a s' := by
  rw [bind_apply, h, Option.bind_some]

theorem bind_eq_some {s : S} {r : β × S} :
    (x >>= f) s = some r ↔ ∃ a s', x s = some (a, s') ∧ f a s' = some r := by
  rw [bind_apply, Option.bind_eq_some_iff]
  constructor
  · rintro ⟨⟨a, s'⟩, h1, h2⟩
    exact ⟨a, s', h1, h2⟩
  · rintro ⟨a, s', h1, h2⟩
    exact ⟨(a, s'), h1, h2⟩

/-! ### Relations between the states before and after -/

/-- Every result of `x` leaves a state that is related by `R` to the one before. -/
def Keeps (R : S → S → Prop) (x : StateT S Option α) : Prop :=
  ∀ s a s', x s = some (a, s') → R s s'

variable {R : S → S → Prop}

theorem Keeps.pure (hrefl : ∀ s, R s s) (a : α) : Keeps R (Pure.pure a : StateT S Option α) := by
  intro s b s' h
  obtain ⟨-, rfl⟩ := some_pair_inj h
  exact hrefl _

theorem Keeps.seq {Q T : S → S → Prop} (hseq : ∀ s t u, R s t → Q t u → T s u) (hx : Keeps R x)
    (hf : ∀ a, Keeps Q (f a)) : Keeps T (x >>= f) := by
  intro s b s'' h
  obtain ⟨a, s', h1, h2⟩ := bind_eq_some.mp h
  exact hseq _ _ _ (hx s a s' h1) (hf a s' b s'' h2)

theorem Keeps.bind (htrans : ∀ s t u, R s t → R t u → R s u) (hx : Keeps R x)
    (hf : ∀ a, Keeps R (f a)) :
    Keeps R (x >>= f) := Keeps.seq htrans hx hf

theorem Keeps.map {f : α → β} (hx : Keeps R x) : Keeps R (f <$> x) := by
  intro s b s' h
  rw [map_apply, Option.map_eq_some_iff] at h
  obtain ⟨⟨a, t⟩, hxs, he⟩ := h
  obtain ⟨-, rfl⟩ := Prod.mk.inj he
  exact hx s a t hxs

theorem Keeps.forM {ι : Type v} (hrefl : ∀ s, R s s) (htrans : ∀ s t u, R s t → R t u → R s u)
    {f : ι → StateT S Option PUnit} : ∀ {l : List ι}, (∀ i ∈ l, Keeps R (f i)) → Keeps R (l.forM f)
  | [], _ => Keeps.pure hrefl _
  | i :: l, h => by
    show Keeps R (f i >>= fun _ => l.forM f)
    exact Keeps.bind htrans (h i (by simp)) fun _ =>
      Keeps.forM hrefl htrans fun j hj => h j (by simp [hj])

/-! ### Computations that always have a result -/

/-- From every state there is a result. -/
def Total (x : StateT S Option α) : Prop := ∀ s, (x s).isSome = true

theorem Total.pure (a : α) : Total (Pure.pure a : StateT S Option α) := fun _ => rfl

theorem Total.bind (hx : Total x) (hf : ∀ a, Total (f a)) : Total (x >>= f) := by
  intro s
  obtain ⟨⟨a, s'⟩, hs⟩ := Option.isSome_iff_exists.mp (hx s)
  rw [bind_of_eq hs]
  exact hf a s'

theorem Total.map {f : α → β} (hx : Total x) : Total (f <$> x) := by
  intro s
  rw [map_apply, Option.isSome_map]
  exact hx s

/-! ### Loops over a list -/

/-- A loop all of whose turns have a result, as long as the invariant `I` holds, which they keep. -/
theorem foldlM_eq_some {ι : Type v} {I : β → Prop} {g : β → ι → Option β} {f : β → ι → β} :
    ∀ {l : List ι} {b : β}, I b →
      (∀ b, ∀ i ∈ l, I b → g b i = some (f b i) ∧ I (f b i)) →
      l.foldlM g b = some (l.foldl f b) ∧ I (l.foldl f b)
  | [], _, hb, _ => ⟨rfl, hb⟩
  | i :: l, b, hb, h => by
    obtain ⟨hstep, hnext⟩ := h b i List.mem_cons_self hb
    rw [List.foldlM_cons, hstep]
    exact foldlM_eq_some hnext fun b j hj => h b j (List.mem_cons_of_mem _ hj)

end Rustchain.Lib.Partial

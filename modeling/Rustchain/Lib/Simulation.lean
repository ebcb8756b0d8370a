import Rustchain.Lib.Partial

/-! # Simulation of stateful computations

`Sim E R R' V x y`: from related states, every run of `x` is matched by a run of `y` with a related
value and a related state, unless `x` has run into the escape `E`. An escape is for good: no step
leads out of it. -/

namespace Rustchain.Lib.Simulation

open Lib.Partial

variable {S S' α β γ δ : Type}

/-- `y` simulates `x` up to the escape `E`, from states related by `R` to states related by `R'`,
with values related by `V`. -/
structure Sim (E : S → Prop) (R R' : S → S' → Prop) (V : α → β → Prop)
    (x : StateT S Option α) (y : StateT S' Option β) : Prop where
  stable : Keeps (fun s t => E s → E t) x
  run : ∀ s s' a t, R s s' → x s = some (a, t) →
    E t ∨ ∃ b t', y s' = some (b, t') ∧ V a b ∧ R' t t'

/-- `y` simulates `x` with the same values, and the states stay related. -/
abbrev Agree (E : S → Prop) (R : S → S' → Prop) (x : StateT S Option α) (y : StateT S' Option α) :
    Prop :=
  Sim E R R Eq x y

/-- No escape. -/
def Never (_ : S) : Prop := False

theorem stable_never (x : StateT S Option α) : Keeps (fun s t => Never s → Never t) x :=
  fun _ _ _ _ h => h

variable {E : S → Prop} {R R' R'' : S → S' → Prop}

variable {x : StateT S Option α}

theorem stable_bind {f : α → StateT S Option β} (hx : Keeps (fun s t => E s → E t) x)
    (hf : ∀ a, Keeps (fun s t => E s → E t) (f a)) :
    Keeps (fun s t => E s → E t) (x >>= f) :=
  Keeps.bind (R := fun s t => E s → E t) (fun _ _ _ h1 h2 h => h2 (h1 h)) hx hf

variable {V : α → β → Prop} {y : StateT S' Option β}

theorem Sim.of_apply {f : S → α} {u : S → S} {g : S' → β} {w : S' → S'}
    (hx : ∀ s, x s = some (f s, u s)) (hy : ∀ s', y s' = some (g s', w s'))
    (hE : ∀ s, E s → E (u s)) (h : ∀ s s', R s s' → E (u s) ∨ V (f s) (g s') ∧ R' (u s) (w s')) :
    Sim E R R' V x y where
  stable s a t ht := by
    rw [hx] at ht
    obtain ⟨-, rfl⟩ := some_pair_inj ht
    exact hE s
  run s s' a t hR ht := by
    rw [hx] at ht
    obtain ⟨rfl, rfl⟩ := some_pair_inj ht
    exact (h s s' hR).imp_right fun hv => ⟨_, _, hy s', hv.1, hv.2⟩

theorem Sim.pure {a : α} {b : β} (hV : V a b) (hR : ∀ s s', R s s' → R' s s') :
    Sim E R R' V (Pure.pure a : StateT S Option α) (Pure.pure b : StateT S' Option β) :=
  .of_apply (fun _ => rfl) (fun _ => rfl) (fun _ h => h) fun s s' h => .inr ⟨hV, hR s s' h⟩

theorem Sim.ret (a : α) :
    Sim E R R Eq (Pure.pure a : StateT S Option α) (Pure.pure a : StateT S' Option α) :=
  Sim.pure rfl fun _ _ h => h

variable {f : α → StateT S Option γ}

/-- **Sequencing.** -/
theorem Sim.bind_of {V' : γ → δ → Prop} {g : β → StateT S' Option δ} (hx : Sim E R R' V x y)
    (hst : ∀ a, Keeps (fun s t => E s → E t) (f a))
    (hf : ∀ a b, V a b → Sim E R' R'' V' (f a) (g b)) : Sim E R R'' V' (x >>= f) (y >>= g) where
  stable := stable_bind hx.stable hst
  run s s' c u hR hu := by
    obtain ⟨a, t, h1, h2⟩ := bind_eq_some.mp hu
    rcases hx.run s s' a t hR h1 with hE | ⟨b, t', h1', hV, hR'⟩
    · exact .inl (hst a t c u h2 hE)
    · rcases (hf a b hV).run t t' c u hR' h2 with hE | ⟨d, u', h2', hV', hR''⟩
      · exact .inl hE
      · exact .inr ⟨d, u', bind_eq_some.mpr ⟨b, t', h1', h2'⟩, hV', hR''⟩

theorem Sim.bind_refl {V : α → α → Prop} {V' : γ → δ → Prop} {y : StateT S' Option α}
    {g : α → StateT S' Option δ} (hx : Sim E R R' V x y) (hV : ∀ a, V a a)
    (hf : ∀ a b, V a b → Sim E R' R'' V' (f a) (g b)) : Sim E R R'' V' (x >>= f) (y >>= g) :=
  hx.bind_of (fun a => (hf a a (hV a)).stable) hf

theorem Sim.bind {V : γ → δ → Prop} {y : StateT S' Option α} {g : α → StateT S' Option δ}
    (hx : Sim E R R' Eq x y) (hf : ∀ a, Sim E R' R'' V (f a) (g a)) :
    Sim E R R'' V (x >>= f) (y >>= g) :=
  hx.bind_refl (fun _ => rfl) fun a _ h => h ▸ hf a

theorem Sim.map {y : StateT S' Option α} (f : α → γ) (hx : Sim E R R' Eq x y) :
    Sim E R R' Eq (f <$> x) (f <$> y) where
  stable := Keeps.map hx.stable
  run s s' c t hR ht := by
    rw [map_apply, Option.map_eq_some_iff] at ht
    obtain ⟨⟨a, t₀⟩, h1, h2⟩ := ht
    obtain ⟨rfl, rfl⟩ := Prod.mk.inj h2
    rcases hx.run s s' a t₀ hR h1 with hE | ⟨b, t', h1', rfl, hR'⟩
    · exact .inl hE
    · exact .inr ⟨f a, t', by rw [map_apply, h1', Option.map_some], rfl, hR'⟩

theorem Sim.mono {V V' : α → β → Prop} (hx : Sim E R R' V x y) (hV : ∀ a b, V a b → V' a b)
    (hR : ∀ s s', R' s s' → R'' s s') :
    Sim E R R'' V' x y where
  stable := hx.stable
  run s s' a t h ht := (hx.run s s' a t h ht).imp_right fun ⟨b, t', h', hv, hr⟩ =>
    ⟨b, t', h', hV a b hv, hR t t' hr⟩

theorem Sim.of (hx : Sim E R' R'' V x y) (hR : ∀ s s', R s s' → R' s s') : Sim E R R'' V x y where
  stable := hx.stable
  run s s' a t h ht := hx.run s s' a t (hR s s' h) ht

theorem Sim.forM {ι : Type} {f : ι → StateT S Option PUnit} {g : ι → StateT S' Option PUnit} :
    ∀ {l : List ι}, (∀ i ∈ l, Sim E R R Eq (f i) (g i)) → Sim E R R Eq (l.forM f) (l.forM g)
  | [], _ => Sim.pure rfl fun _ _ h => h
  | i :: l, h => by
    show Sim E R R Eq (f i >>= fun _ => l.forM f) (g i >>= fun _ => l.forM g)
    exact (h i (by simp)).bind fun _ => Sim.forM fun j hj => h j (by simp [hj])

theorem Sim.matched (hx : Sim Never R R' V x y) {s t : S} {s' : S'} {a : α} (hR : R s s')
    (h : x s = some (a, t)) : ∃ b t', y s' = some (b, t') ∧ V a b ∧ R' t t' :=
  (hx.run s s' a t hR h).resolve_left id

end Rustchain.Lib.Simulation

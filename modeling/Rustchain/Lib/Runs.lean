import Mathlib.Data.List.Induction

/-! # Runs of a step relation

A run is a list of inputs that a system takes one after the other. The guard of a run is a condition
on the state before a step and on its input; a run without a condition has the guard `Free`. -/

namespace Rustchain.Lib.Runs

universe u v

variable {S : Type u} {ι : Type v}

/-- The inputs `l` lead from `s` to the last argument, and `G` holds before every step. -/
inductive Run (step : S → ι → S → Prop) (G : S → ι → Prop) (s : S) : List ι → S → Prop
  | nil : Run step G s [] s
  | snoc {l : List ι} {t u : S} {i : ι} :
      Run step G s l t → G t i → step t i u → Run step G s (l ++ [i]) u

/-- The guard that asks for nothing. -/
def Free (_ : S) (_ : ι) : Prop := True

variable {step : S → ι → S → Prop} {G : S → ι → Prop} {s : S}

/-- **The invariant rule**, for a property of the inputs so far and the state: what holds at the
start and is kept by every guarded step holds after every run. -/
theorem Run.history {I : List ι → S → Prop} (h0 : I [] s)
    (hs : ∀ l t i u, I l t → G t i → step t i u → I (l ++ [i]) u) {l : List ι} {t : S}
    (h : Run step G s l t) : I l t := by
  induction h with
  | nil => exact h0
  | snoc _ hG hstep ih => exact hs _ _ _ _ ih hG hstep

theorem Run.trans {l l' : List ι} {t u : S} (h : Run step G s l t) (h' : Run step G t l' u) :
    Run step G s (l ++ l') u := by
  induction h' with
  | nil => rwa [List.append_nil]
  | snoc _ hG hstep ih =>
    rw [← List.append_assoc]
    exact ih.snoc hG hstep

theorem Run.invariant {I : S → Prop} (h0 : I s)
    (hs : ∀ t i u, I t → G t i → step t i u → I u) {l : List ι} {t : S}
    (h : Run step G s l t) : I t :=
  h.history (I := fun _ => I) h0 fun _ t i u => hs t i u

/-! ### Deterministic systems -/

section
variable {next : S → ι → S}

theorem foldl_invariant {I : S → Prop} (h0 : I s) (hs : ∀ t i, I t → I (next t i)) (l : List ι) :
    I (l.foldl next s) := by
  induction l using List.reverseRecOn with
  | nil => exact h0
  | append_singleton l i ih =>
    rw [List.foldl_append]
    exact hs _ _ ih

theorem forall_prefix_concat {P : List ι → Prop} {l : List ι} {i : ι} :
    (∀ p, p <+: l ++ [i] → P p) ↔ (∀ p, p <+: l → P p) ∧ P (l ++ [i]) := by
  constructor
  · intro h
    exact ⟨fun p hp => h p (hp.trans (List.prefix_append l [i])), h _ (List.prefix_refl _)⟩
  · rintro ⟨h, hl⟩ p hp
    rcases List.prefix_concat_iff.mp hp with rfl | hp
    · exact hl
    · exact h p hp

/-- **Agreement along runs**: two conditions that agree at the start, and after every step from a
state where both hold, hold throughout the same runs. -/
theorem forall_prefix_iff {I P Q : S → Prop} (h0 : I s) (hI : ∀ t i, I t → I (next t i))
    (hs : P s ↔ Q s) (h : ∀ t i, I t → P t → Q t → (P (next t i) ↔ Q (next t i))) (l : List ι) :
    (∀ p, p <+: l → P (p.foldl next s)) ↔ ∀ p, p <+: l → Q (p.foldl next s) := by
  induction l using List.reverseRecOn with
  | nil => simpa using hs
  | append_singleton l i ih =>
    rw [forall_prefix_concat, forall_prefix_concat, ih]
    refine and_congr_right fun hQ => ?_
    have hQl := hQ l (List.prefix_refl l)
    have hPl := ih.mpr hQ l (List.prefix_refl l)
    rw [List.foldl_append]
    exact h _ i (foldl_invariant h0 hI l) hPl hQl

theorem forall_step_concat {P : List ι → ι → Prop} {l : List ι} {j : ι} :
    (∀ p i, p ++ [i] <+: l ++ [j] → P p i) ↔ (∀ p i, p ++ [i] <+: l → P p i) ∧ P l j := by
  constructor
  · intro h
    exact ⟨fun p i hp => h p i (hp.trans (List.prefix_append l [j])), h l j (List.prefix_refl _)⟩
  · rintro ⟨h, hl⟩ p i hp
    rcases List.prefix_concat_iff.mp hp with heq | hp
    · obtain ⟨rfl, hi⟩ := List.append_inj' heq rfl
      obtain rfl := (List.cons.inj hi).1
      exact hl
    · exact h p i hp

theorem foldl_invariant_of_steps {I : S → Prop} {A : S → ι → Prop} (h0 : I s)
    (hI : ∀ t i, I t → A t i → I (next t i)) {l : List ι}
    (h : ∀ p i, p ++ [i] <+: l → A (p.foldl next s) i) : I (l.foldl next s) := by
  induction l using List.reverseRecOn with
  | nil => exact h0
  | append_singleton l i ih =>
    obtain ⟨hl, hi⟩ := forall_step_concat.mp h
    rw [List.foldl_append]
    exact hI _ i (ih hl) hi

/-- **Agreement of steps along runs**: two conditions on a step that agree where an invariant
holds, which the first of them keeps, hold throughout the same runs. -/
theorem forall_step_iff {I : S → Prop} {A C : S → ι → Prop} (h0 : I s)
    (hI : ∀ t i, I t → A t i → I (next t i)) (h : ∀ t i, I t → (A t i ↔ C t i)) (l : List ι) :
    (∀ p i, p ++ [i] <+: l → A (p.foldl next s) i) ↔
      ∀ p i, p ++ [i] <+: l → C (p.foldl next s) i := by
  induction l using List.reverseRecOn with
  | nil => simp
  | append_singleton l i ih =>
    rw [forall_step_concat, forall_step_concat, ← ih]
    refine and_congr_right fun hA => ?_
    exact h _ i (foldl_invariant_of_steps h0 hI hA)

theorem forall_prefix_iff_step {P : S → Prop} (l : List ι) :
    (∀ p, p <+: l → P (p.foldl next s)) ↔
      P s ∧ ∀ p i, p ++ [i] <+: l → P (next (p.foldl next s) i) := by
  induction l using List.reverseRecOn with
  | nil => simp
  | append_singleton l i ih =>
    rw [forall_prefix_concat, forall_step_concat, ih, List.foldl_append, and_assoc]
    rfl

end

end Rustchain.Lib.Runs

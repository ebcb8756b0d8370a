import Mathlib.Init

/-! # Checks in sequence

Lemmas about `Except` for functions that check one condition after the other and throw at the first
one that fails: such a function returns exactly if every condition holds. -/

namespace Rustchain.Lib.Checks

variable {ε ε' α β : Type} {c : Prop} [Decidable c]

theorem check_then_eq_ok {e : ε} {f : β → Except ε α} {k : Except ε α} {a : α} :
    (if c then throw e >>= f else k) = .ok a ↔ ¬ c ∧ k = .ok a := by
  by_cases h : c
  · rw [if_pos h]
    exact ⟨(nomatch ·), fun hk => absurd h hk.1⟩
  · rw [if_neg h]
    exact ⟨fun hk => ⟨h, hk⟩, fun hk => hk.2⟩

theorem check_eq_ok {e : ε} : (if c then throw e else pure () : Except ε Unit) = .ok () ↔ ¬ c := by
  by_cases h : c
  · rw [if_pos h]
    exact ⟨(nomatch ·), fun hk => absurd h hk⟩
  · rw [if_neg h]
    exact ⟨fun _ => h, fun _ => rfl⟩

theorem bind_eq_ok {x : Except ε Unit} {f : Unit → Except ε α} {a : α} :
    (x >>= f) = .ok a ↔ x = .ok () ∧ f () = .ok a := by
  cases x with
  | error e => exact ⟨(nomatch ·), fun h => (nomatch h.1)⟩
  | ok u => exact ⟨fun h => ⟨rfl, h⟩, fun h => h.2⟩

theorem bind_eq_ok_iff {x : Except ε β} {f : β → Except ε α} {a : α} :
    (x >>= f) = .ok a ↔ ∃ b, x = .ok b ∧ f b = .ok a := by
  cases x with
  | error e => exact ⟨(nomatch ·), fun ⟨_, h, _⟩ => nomatch h⟩
  | ok b => exact ⟨fun h => ⟨b, rfl, h⟩, fun ⟨_, hb, h⟩ => Except.ok.inj hb ▸ h⟩

theorem mapError_eq_ok {x : Except ε α} {f : ε → ε'} {a : α} :
    x.mapError f = .ok a ↔ x = .ok a := by
  cases x with
  | error e => exact ⟨(nomatch ·), (nomatch ·)⟩
  | ok b => exact ⟨fun h => congrArg _ (Except.ok.inj h), fun h => congrArg _ (Except.ok.inj h)⟩

end Rustchain.Lib.Checks

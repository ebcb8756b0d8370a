import Rustchain.Lib.Machine

/-! # Parsing with offsets

A parser that walks over a string with offsets of a fixed width. It adds lengths to offsets, takes
parts of the string and refuses what is too short. Besides the refusal two things can happen that a
parser is written to avoid: a part can lie outside the string, which panics, and a sum can leave the
range of the offsets. `value` is how the parser ends, and `wraps` says whether some sum on the way
left the range. As long as neither happens a parser is rewritten from its front, by the equations
`sum_of_lt`, `part_of_le` and `need_of`. -/

namespace Rustchain.Lib.Parsing

open Lib.Machine

/-- How a parser stops before its end. -/
inductive Stop where
  | refused
  | panicked
  deriving DecidableEq, Repr

instance : LawfulMonad Flagged :=
  LawfulMonad.mk' Flagged (fun _ => Flagged.ext rfl (Bool.or_false _)) (fun _ _ => rfl)
    fun _ _ _ => Flagged.ext rfl (Bool.or_assoc _ _ _)

abbrev Parse (α : Type) := ExceptT Stop Flagged α

section
variable {α β γ : Type}

/-- How the parser ends. -/
def value (x : Parse α) : Except Stop α := x.run.val

/-- A sum left the range of the offsets. -/
def wraps (x : Parse α) : Bool := x.run.ovf

/-- The sum of offsets and lengths, from left to right. -/
def sum (w : ℕ) (l : List ℕ) : Parse ℕ := ExceptT.lift (sumU w l)

/-- The part of a string between two offsets. -/
def part (xs : List γ) (lo hi : ℕ) : Parse (List γ) :=
  if lo ≤ hi ∧ hi ≤ xs.length then pure ((xs.take hi).drop lo) else throw .panicked

/-- The parser goes on only under a condition. -/
def need (c : Prop) [Decidable c] : Parse Unit := if c then pure () else throw .refused

/-! ### Ends -/

@[simp] theorem value_pure (a : α) : value (pure a) = .ok a := rfl

theorem value_bind (x : Parse α) (f : α → Parse β) :
    value (x >>= f) = value x >>= fun a => value (f a) := by
  show (ExceptT.bindCont f x.run.val).val = _
  unfold value
  cases x.run.val with
  | error e => rfl
  | ok a => rfl

theorem wraps_bind_of_wraps {x : Parse α} (h : wraps x = true) (f : α → Parse β) :
    wraps (x >>= f) = true := by
  show (x.run.ovf || _) = true
  rw [show x.run.ovf = true from h, Bool.true_or]

theorem wraps_sum (w : ℕ) (l : List ℕ) : wraps (sum w l) = decide (2 ^ w ≤ l.sum) :=
  Bool.or_false _

theorem value_part (xs : List γ) (lo hi : ℕ) :
    value (part xs lo hi) =
      if lo ≤ hi ∧ hi ≤ xs.length then .ok ((xs.take hi).drop lo) else .error .panicked := by
  unfold part
  split_ifs <;> rfl

theorem value_need (c : Prop) [Decidable c] :
    value (need c) = if c then .ok () else .error .refused := by
  unfold need
  split_ifs <;> rfl

/-! ### The front of a parser -/

theorem sum_of_lt {w : ℕ} {l : List ℕ} (h : l.sum < 2 ^ w) : sum w l = pure l.sum :=
  Flagged.ext (congrArg Except.ok (Nat.mod_eq_of_lt h))
    ((wraps_sum w l).trans (decide_eq_false (Nat.not_le.mpr h)))

theorem wraps_sum_bind {w : ℕ} {l : List ℕ} (h : 2 ^ w ≤ l.sum) (f : ℕ → Parse β) :
    wraps (sum w l >>= f) = true :=
  wraps_bind_of_wraps ((wraps_sum w l).trans (decide_eq_true h)) f

theorem part_of_le {xs : List γ} {lo hi : ℕ} (h : lo ≤ hi) (h' : hi ≤ xs.length) :
    part xs lo hi = pure ((xs.take hi).drop lo) := if_pos ⟨h, h'⟩

theorem need_of {c : Prop} [Decidable c] (h : c) : need c = pure () := if_pos h

theorem need_of_not {c : Prop} [Decidable c] (h : ¬ c) : need c = throw .refused := if_neg h

theorem throw_bind (e : Stop) (f : α → Parse β) : (throw e >>= f : Parse β) = throw e := rfl

/-! ### Checked sums -/

/-- How a parser that checks each sum against the length of its string ends: a sum wraps unless all
of them fit, and then it refuses unless the string is long enough. -/
def Checked (fits enough : Prop) (a : α) (x : Parse α) : Prop :=
  ¬ fits ∧ wraps x = true ∨ fits ∧ ¬ enough ∧ x = throw .refused ∨ fits ∧ enough ∧ x = pure a

theorem Checked.sum_need {fits enough : Prop} {a : α} {w n e : ℕ} {l : List ℕ} {f : Unit → Parse α}
    (he : l.sum = e) (hwrap : 2 ^ w ≤ e → ¬ fits) (hshort : e < 2 ^ w → n < e → fits ∧ ¬ enough)
    (hrest : e < 2 ^ w → e ≤ n → Checked fits enough a (f ())) :
    Checked fits enough a (sum w l >>= fun e => need (e ≤ n) >>= f) := by
  subst he
  obtain hlt | hle := Nat.lt_or_ge l.sum (2 ^ w)
  swap
  · exact .inl ⟨hwrap hle, wraps_sum_bind hle _⟩
  rw [sum_of_lt hlt, pure_bind]
  obtain hgt | hle := Nat.lt_or_ge n l.sum
  · obtain ⟨hfits, henough⟩ := hshort hlt hgt
    rw [need_of_not (Nat.not_le.mpr hgt), throw_bind]
    exact .inr (.inl ⟨hfits, henough, rfl⟩)
  · rw [need_of hle, pure_bind]
    exact hrest hlt hle

/-! ### Parsers without refusals -/

theorem value_bind_ne_refused {x : Parse α} {f : α → Parse β} (hx : value x ≠ .error .refused)
    (hf : ∀ a, value (f a) ≠ .error .refused) : value (x >>= f) ≠ .error .refused := by
  rw [value_bind]
  cases h : value x with
  | error e => exact fun he => hx (h.trans (congrArg _ (Except.error.inj he)))
  | ok a => exact hf a

theorem value_sum_ne_refused (w : ℕ) (l : List ℕ) : value (sum w l) ≠ .error .refused := nofun

theorem value_part_ne_refused (xs : List γ) (lo hi : ℕ) :
    value (part xs lo hi) ≠ .error .refused := by
  rw [value_part]
  split_ifs <;> nofun

end

end Rustchain.Lib.Parsing

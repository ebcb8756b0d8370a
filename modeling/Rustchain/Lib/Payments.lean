import Mathlib.Algebra.BigOperators.Group.Finset.Piecewise
import Mathlib.Algebra.Order.BigOperators.Group.Finset
import Mathlib.Algebra.Order.Ring.Nat

/-! # A plain ledger

A ledger gives each account an amount. A payment takes an amount from one account and adds it to
another, and there is none if the first account has too little (`pay`). Payments keep the sum over
any set of accounts that has both parties, so what bounds all sums of a ledger (`Below`) bounds
those of every later one. -/

namespace Rustchain.Lib.Payments

variable {α : Type*}

/-- Every sum of amounts of the ledger is below the bound. -/
def Below (bound : ℕ) (l : α → ℕ) : Prop := ∀ S : Finset α, ∑ a ∈ S, l a < bound

theorem Below.lt {bound : ℕ} {l : α → ℕ} (h : Below bound l) (a : α) : l a < bound := by
  have ha := h {a}
  rwa [Finset.sum_singleton] at ha

variable [DecidableEq α]

/-- The ledger after a payment that its source covers. The two accounts may be the same. -/
def pay (l : α → ℕ) (source target : α) (amount : ℕ) : Option (α → ℕ) :=
  if l source < amount then none
  else
    let taken := Function.update l source (l source - amount)
    some (Function.update taken target (taken target + amount))

theorem pay_of_lt {l : α → ℕ} {source target : α} {amount : ℕ} (h : l source < amount) :
    pay l source target amount = none := if_pos h

theorem pay_of_le {l : α → ℕ} {source target : α} {amount : ℕ} (h : amount ≤ l source) :
    pay l source target amount =
      some (Function.update (Function.update l source (l source - amount)) target
        (Function.update l source (l source - amount) target + amount)) :=
  if_neg (Nat.not_lt.mpr h)

theorem sum_update_add {S : Finset α} {a : α} (h : a ∈ S) (l : α → ℕ) (n : ℕ) :
    ∑ b ∈ S, Function.update l a n b + l a = ∑ b ∈ S, l b + n := by
  have hrest := Finset.add_sum_erase S l h
  rw [Finset.sum_update_of_mem h, ← Finset.erase_eq]
  omega

/-- **A payment keeps the sum** over the accounts of a set that has both parties. -/
theorem sum_pay {l l' : α → ℕ} {source target : α} {amount : ℕ} {S : Finset α}
    (h : pay l source target amount = some l') (hs : source ∈ S) (ht : target ∈ S) :
    ∑ a ∈ S, l' a = ∑ a ∈ S, l a := by
  unfold pay at h
  split_ifs at h with hlt
  obtain rfl := Option.some.inj h
  have htaken := sum_update_add hs l (l source - amount)
  have hadded := sum_update_add ht (Function.update l source (l source - amount))
    (Function.update l source (l source - amount) target + amount)
  omega

theorem Below.pay {bound : ℕ} {l l' : α → ℕ} (h : Below bound l) {source target : α}
    {amount : ℕ} (hp : pay l source target amount = some l') : Below bound l' := by
  intro S
  have hsub : S ⊆ insert source (insert target S) :=
    (Finset.subset_insert _ _).trans (Finset.subset_insert _ _)
  calc ∑ a ∈ S, l' a
      ≤ ∑ a ∈ insert source (insert target S), l' a := Finset.sum_le_sum_of_subset hsub
    _ = ∑ a ∈ insert source (insert target S), l a :=
        sum_pay hp (Finset.mem_insert_self _ _)
          (Finset.mem_insert_of_mem (Finset.mem_insert_self _ _))
    _ < bound := h _

end Rustchain.Lib.Payments

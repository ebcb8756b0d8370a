import Rustchain.Consensus.Execution
import Rustchain.Vm.Simulation

/-! # Two executions of one list of transactions

`ExecSim` lists what is asked of the single accesses of the transaction loop for one run of it to
follow another, which may be in another block, over another kind of storage or with other orders of
iteration. Contract transactions are asked for as a whole. Accesses before the first write of a
transaction relate states by `R`, later ones by the weaker `R'`; an invariant that holds between
transactions only makes the difference. -/

namespace Rustchain.Consensus

open Rustchain.Core Storage Vm Lib.Machine Lib.Maps Lib.Partial Lib.Simulation

/-- What is asked of the accesses before the first write. -/
structure ReadSim {M σ σ' : Type} [Backend σ] [Backend σ'] (E : Loop M σ → Prop)
    (R : Loop M σ → Loop M σ' → Prop) : Prop where
  arith : ∀ {α : Type} (x : Flagged α), Sim E R R Eq (Exec.arith x) (Exec.arith x)
  lookup : ∀ a, Sim E R R Eq (Exec.lookupAccount a) (Exec.lookupAccount a)

/-- What is asked of all accesses of the loop. -/
structure ExecSim {M σ σ' : Type} [Backend σ] [Backend σ'] (E : Loop M σ → Prop)
    (R : Loop M σ → Loop M σ' → Prop) : Prop extends ReadSim E R where
  insert : ∀ a x, Sim E R R Eq (Exec.insertAccount a x) (Exec.insertAccount a x)
  validators : Sim E R R Eq Exec.getValidatorSet Exec.getValidatorSet
  setValidators : ∀ vs, Sim E R R Eq (Exec.setValidatorSet vs) (Exec.setValidatorSet vs)
  putValidator : ∀ v : ValidatorInfo, Sim E R R Eq
    (Exec.writeIgnored (.putValidator v.address) (·.putValidator v))
    (Exec.writeIgnored (.putValidator v.address) (·.putValidator v))
  addGas : ∀ n, Sim E R R Eq (Exec.addGas n) (Exec.addGas n)

theorem ReadSim.getOrCreate {M σ σ' : Type} [Backend σ] [Backend σ'] {E : Loop M σ → Prop}
    {R : Loop M σ → Loop M σ' → Prop} (h : ReadSim E R) (a : Address) :
    Agree E R (Exec.getOrCreate a) (Exec.getOrCreate a) :=
  (h.lookup a).bind fun _ => .ret _

namespace ExecSim

open Exec

section
variable {M σ σ' : Type} [Backend σ] [Backend σ'] {E : Loop M σ → Prop}
variable {R : Loop M σ → Loop M σ' → Prop} (h : ExecSim E R)

include h

theorem refundGas (tx : Transaction) (g : ℕ) (x : Account) :
    Agree E R (refundGas tx g x) (refundGas tx g x) :=
  (h.arith _).bind fun _ => h.arith _

theorem executeTransfer (tx : Transaction) (x : Account) :
    Agree E R (executeTransfer tx x) (executeTransfer tx x) :=
  (h.getOrCreate _).bind fun _ => (h.arith _).bind fun _ => (h.arith _).bind fun _ =>
    (h.insert _ _).bind fun _ => (h.refundGas _ _ _).bind fun _ => .ret _

theorem executeStake (stx : SignedTransaction) (x : Account) :
    Agree E R (executeStake stx x) (executeStake stx x) := by
  refine (h.arith _).bind fun x => h.validators.bind fun vs => ?_
  have hend : Agree E R
      (do let vs ← Exec.arith (← getValidatorSet).recalculateTotalStake
          setValidatorSet vs
          let x ← Exec.refundGas stx.transaction baseGas x
          return (x, ({ status := .success, gasUsed := baseGas } : Outcome)) : ExecM M σ _)
      (do let vs ← Exec.arith (← getValidatorSet).recalculateTotalStake
          setValidatorSet vs
          let x ← Exec.refundGas stx.transaction baseGas x
          return (x, ({ status := .success, gasUsed := baseGas } : Outcome)) : ExecM M σ' _) :=
    h.validators.bind fun vs => (h.arith _).bind fun vs => (h.setValidators vs).bind fun _ =>
      (h.refundGas _ _ _).bind fun _ => .ret _
  cases vs.getValidator stx.sender with
  | some vi =>
    exact (h.arith _).bind fun _ => (h.setValidators _).bind fun _ =>
      (h.putValidator { vi with stake := _, isActive := _ }).bind fun _ => hend
  | none =>
    exact (h.putValidator _).bind fun _ => (h.setValidators _).bind fun _ => hend

theorem executeUnstake (stx : SignedTransaction) (x : Account) :
    Agree E R (executeUnstake stx x) (executeUnstake stx x) := by
  refine h.validators.bind fun vs => ?_
  cases vs.getValidator stx.sender with
  | none => exact (h.refundGas _ _ _).bind fun _ => .ret _
  | some vi =>
    dsimp only
    split_ifs
    · exact (h.refundGas _ _ _).bind fun _ => .ret _
    · refine (h.arith _).bind fun stake => (h.setValidators _).bind fun _ => ?_
      refine (h.putValidator { vi with
        stake, isActive := if stake < vs.minStake then false else vi.isActive }).bind fun _ => ?_
      exact h.validators.bind fun vs => (h.arith _).bind fun vs => (h.setValidators vs).bind
        fun _ => (h.arith _).bind fun _ => (h.refundGas _ _ _).bind fun _ => .ret _

end

section
variable {P : Primitives} {W : Wasmtime} {cfg : VmConfig} {σ σ' : Type} [Backend σ] [Backend σ']
variable {E : Loop W.Module σ → Prop} {R R' : Loop W.Module σ → Loop W.Module σ' → Prop}
variable {ord ord' : HashOrders} {block block' : Block} {i i' : ℕ} {stx : SignedTransaction}

/-- What is asked of a contract transaction. -/
def ContractSim (P : Primitives) (W : Wasmtime) (cfg : VmConfig) {σ σ' : Type} [Backend σ]
    [Backend σ'] (E : Loop W.Module σ → Prop) (R R' : Loop W.Module σ → Loop W.Module σ' → Prop)
    (ord ord' : HashOrders) (block block' : Block) (stx : SignedTransaction) : Prop :=
  (stx.transaction.txType = .contractDeploy → ∀ x, Sim E R R' Eq
    (executeDeploy P W cfg ord block stx.transaction stx.sender x)
    (executeDeploy P W cfg ord' block' stx.transaction stx.sender x)) ∧
  (stx.transaction.txType = .contractCall → ∀ x, Sim E R R' Eq
    (executeCall P W cfg ord block stx.transaction stx.sender x)
    (executeCall P W cfg ord' block' stx.transaction stx.sender x))

theorem executeType (h' : ExecSim E R') (hweak : ∀ l l', R l l' → R' l l')
    (hc : ContractSim P W cfg E R R' ord ord' block block' stx) (x : Account) :
    Sim E R R' Eq (executeType P W cfg ord block stx x)
      (executeType P W cfg ord' block' stx x) := by
  unfold Exec.executeType
  cases ht : stx.transaction.txType with
  | transfer => exact (h'.executeTransfer _ _).of hweak
  | contractDeploy => exact hc.1 ht x
  | contractCall => exact hc.2 ht x
  | stake => exact (h'.executeStake _ _).of hweak
  | unstake => exact (h'.executeUnstake _ _).of hweak

theorem executeTx (h : ReadSim E R) (h' : ExecSim E R') (hweak : ∀ l l', R l l' → R' l l')
    (hc : ContractSim P W cfg E R R' ord ord' block block' stx)
    (hpush : ∀ o, Agree E R' (pushReceipt (receiptOf P block i stx o))
      (pushReceipt (receiptOf P block' i' stx o))) :
    Sim E R R' Eq (executeTx P W cfg ord block i stx)
      (executeTx P W cfg ord' block' i' stx) := by
  refine (h.getOrCreate _).bind fun x => ?_
  split_ifs
  · exact (hpush _).of hweak
  · refine (h.arith _).bind fun cost => ?_
    split_ifs
    · exact (hpush _).of hweak
    · refine (h.arith _).bind fun _ => (h.arith _).bind fun _ => (h.arith _).bind fun _ =>
        (executeType h' hweak hc _).bind fun r => ?_
      exact (h'.addGas _).bind fun _ => (h'.insert _ _).bind fun _ => hpush _

end

end ExecSim

end Rustchain.Consensus

import Rustchain.Storage.Database

/-! # One fault

A `FaultyStore` from a point on, with the record `log₀` at that point: either all operations since
then have succeeded (`Clean`), or the fault was among them (`Hit`) and no other can follow. Both say
that the operations were among those that the execution of transactions performs. -/

namespace Rustchain.Storage

open Rustchain.Core Lib.Maps

/-- The operations that the execution of transactions performs, the final batch apart. -/
inductive StorageOp.InLoop : StorageOp → Prop
  | getAccount (addr) : InLoop (.getAccount addr)
  | getContractStorage (addr key) : InLoop (.getContractStorage addr key)
  | getContractCode (codeHash) : InLoop (.getContractCode codeHash)
  | putContractCode (codeHash) : InLoop (.putContractCode codeHash)
  | putContractStorage (addr key) : InLoop (.putContractStorage addr key)
  | deleteContractStorage (addr key) : InLoop (.deleteContractStorage addr key)
  | putValidator (addr) : InLoop (.putValidator addr)

/-- The reads and writes that a block must not lose: reads of accounts, and writes of accounts,
which are in the batch, of contract code, of contract storage and of validators. -/
inductive StorageOp.Essential : StorageOp → Prop
  | getAccount (addr) : Essential (.getAccount addr)
  | putAccount (addr) : Essential (.putAccount addr)
  | putContractCode (codeHash) : Essential (.putContractCode codeHash)
  | putContractStorage (addr key) : Essential (.putContractStorage addr key)
  | deleteContractStorage (addr key) : Essential (.deleteContractStorage addr key)
  | putValidator (addr) : Essential (.putValidator addr)
  | writeBatch (n) : Essential (.writeBatch n)

/-- The reads of contract code and contract storage. -/
inductive StorageOp.ContractRead : StorageOp → Prop
  | getContractCode (codeHash) : ContractRead (.getContractCode codeHash)
  | getContractStorage (addr key) : ContractRead (.getContractStorage addr key)

theorem StorageOp.InLoop.contractRead_of_not_essential {op : StorageOp} (h : op.InLoop)
    (hne : ¬ op.Essential) : op.ContractRead := by
  cases h with
  | getAccount a => exact absurd (.getAccount a) hne
  | getContractStorage a k => exact .getContractStorage a k
  | getContractCode c => exact .getContractCode c
  | putContractCode c => exact absurd (.putContractCode c) hne
  | putContractStorage a k => exact absurd (.putContractStorage a k) hne
  | deleteContractStorage a k => exact absurd (.deleteContractStorage a k) hne
  | putValidator a => exact absurd (.putValidator a) hne

theorem StorageOp.ContractRead.not_essential {op : StorageOp} (h : op.ContractRead) :
    ¬ op.Essential := by
  intro he
  cases h <;> cases he

namespace FaultyStore

variable {log₀ : List (StorageOp × Bool)} {s : FaultyStore} {op : StorageOp}

/-- All operations since `log₀` have succeeded. -/
def Clean (log₀ : List (StorageOp × Bool)) (s : FaultyStore) : Prop :=
  ∃ new, s.log = log₀ ++ new ∧ ∀ e ∈ new, e.1.InLoop ∧ e.2 = true

/-- One of the operations since `log₀` has failed, and the fault is past. -/
def Hit (log₀ : List (StorageOp × Bool)) (s : FaultyStore) : Prop :=
  ∃ new, s.log = log₀ ++ new ∧ (∀ e ∈ new, e.1.InLoop) ∧ (∃ e ∈ new, e.2 = false) ∧
    ∃ n < s.log.length, s.fault = some n

theorem clean_self (s : FaultyStore) : Clean s.log s :=
  ⟨[], (List.append_nil _).symm, fun _ h => absurd h List.not_mem_nil⟩

theorem perform_fault (h : s.fault = some s.log.length) (f : Database → Database) :
    Backend.perform op f s = (.error s.error, { s with log := s.log ++ [(op, false)] }) :=
  if_pos h

theorem perform_ok (h : s.fault ≠ some s.log.length) (f : Database → Database) :
    Backend.perform op f s =
      (.ok (), { s with content := f s.content, log := s.log ++ [(op, true)] }) :=
  if_neg h

theorem Hit.perform (h : Hit log₀ s) (hop : op.InLoop) (f : Database → Database) :
    Hit log₀ (Backend.perform op f s).2 := by
  obtain ⟨new, hlog, hin, ⟨e, he, hf⟩, n, hn, hfault⟩ := h
  have hpast : s.fault ≠ some s.log.length := by
    rw [hfault]
    exact fun h => absurd (Option.some.inj h) (Nat.ne_of_lt hn)
  rw [perform_ok hpast]
  refine ⟨new ++ [(op, true)], by simp [hlog], ?_, ⟨e, by simp [he], hf⟩, n, ?_, hfault⟩
  · intro e he
    rcases List.mem_append.mp he with he | he
    · exact hin e he
    · rw [List.mem_singleton.mp he]
      exact hop
  · rw [List.length_append]
    omega

theorem Clean.perform (h : Clean log₀ s) (hop : op.InLoop) (f : Database → Database) :
    Hit log₀ (Backend.perform op f s).2 ∨
      (Backend.perform op f s).1 = .ok () ∧ (Backend.perform op f s).2.content = f s.content ∧
        Clean log₀ (Backend.perform op f s).2 := by
  obtain ⟨new, hlog, hin⟩ := h
  have hall : ∀ b, ∀ e ∈ new ++ [(op, b)], e.1.InLoop := by
    intro b e he
    rcases List.mem_append.mp he with he | he
    · exact (hin e he).1
    · rw [List.mem_singleton.mp he]
      exact hop
  by_cases hf : s.fault = some s.log.length
  · rw [perform_fault hf]
    exact .inl ⟨new ++ [(op, false)], by simp [hlog], hall _, ⟨(op, false), by simp, rfl⟩,
      s.log.length, by simp, hf⟩
  · rw [perform_ok hf]
    refine .inr ⟨rfl, rfl, new ++ [(op, true)], by simp [hlog], fun e he => ⟨hall _ e he, ?_⟩⟩
    rcases List.mem_append.mp he with he | he
    · exact (hin e he).2
    · rw [List.mem_singleton.mp he]

theorem Hit.read {α : Type} (h : Hit log₀ s) (hop : op.InLoop) (g : Database → α) :
    Hit log₀ (read op g s).2 := h.perform hop id

theorem Clean.read {α : Type} (h : Clean log₀ s) (hop : op.InLoop) (g : Database → α) :
    Hit log₀ (read op g s).2 ∨
      (read op g s).1 = .ok (g s.content) ∧ (read op g s).2.content = s.content ∧
        Clean log₀ (read op g s).2 := by
  refine (h.perform hop id).imp_right fun ⟨h1, h2, h3⟩ => ⟨?_, h2, h3⟩
  show (Backend.perform op id s).1.map (fun _ => g (Backend.perform op id s).2.content) = _
  rw [h1, h2]
  rfl

end FaultyStore

end Rustchain.Storage

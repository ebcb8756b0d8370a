import Rustchain.Consensus.TxPool
import Rustchain.Lib.Greedy

/-! # The selection as a filled budget

`select_transactions` sorts the pending transactions by gas price and nonce and takes them as long
as their gas limits stay within the limit of the block. The sum of the gas limits is kept in `u64`.
As long as it does not overflow, the selection is the list `fill` of the queue of pending
transactions (`selectTransactions_val`). An addition that overflows is always taken for one that
stays within the limit. -/

namespace Rustchain.Consensus

open Rustchain.Core Lib.Machine Lib.Maps Lib.Greedy

namespace TransactionPool

variable {P : Primitives} (pool : TransactionPool P)

/-- A pending transaction with the hash under which it is pending. -/
abbrev Entry := Blake3Hash × PooledTransaction

namespace Entry

def gasLimit (e : Entry) : ℕ := e.2.tx.transaction.gasLimit

def nonce (e : Entry) : ℕ := e.2.tx.transaction.nonce

def sender (e : Entry) : Address := e.2.tx.sender

/-- The order of the selection, on entries. -/
def Before (a b : Entry) : Prop :=
  b.2.gasPrice < a.2.gasPrice ∨ b.2.gasPrice = a.2.gasPrice ∧ a.nonce ≤ b.nonce

end Entry

def entryOf (c : Candidate) : Option Entry := (pool.pending.lookup c.hash).map fun p => (c.hash, p)

variable (order : IterOrder (Sigma fun _ : Blake3Hash => PooledTransaction))

/-- The pending transactions in the order in which the selection tries them. -/
def queue : List Entry := (pool.candidates order).filterMap pool.entryOf

/-! ### The queue -/

variable {pool order}

theorem entryOf_eq_some {c : Candidate} {e : Entry} :
    pool.entryOf c = some e ↔ c.hash = e.1 ∧ pool.pending.lookup e.1 = some e.2 := by
  unfold entryOf
  rw [Option.map_eq_some_iff]
  constructor
  · rintro ⟨p, hp, rfl⟩
    exact ⟨rfl, hp⟩
  · rintro ⟨hc, hp⟩
    exact ⟨e.2, hc ▸ hp, by rw [hc]⟩

theorem candidates_perm : (pool.candidates order).Perm
    (pool.pending.entries.map fun e => ⟨e.2.gasPrice, e.2.tx.transaction.nonce, e.1⟩) :=
  (List.perm_insertionSort _ _).trans ((order.perm _).map _)

theorem mem_candidates {c : Candidate} : c ∈ pool.candidates order ↔
    ∃ p, pool.pending.lookup c.hash = some p ∧
      c = ⟨p.gasPrice, p.tx.transaction.nonce, c.hash⟩ := by
  rw [candidates_perm.mem_iff, List.mem_map]
  constructor
  · rintro ⟨⟨h, p⟩, hp, rfl⟩
    exact ⟨p, AList.mem_lookup_iff.mpr hp, rfl⟩
  · rintro ⟨p, hp, hc⟩
    exact ⟨⟨c.hash, p⟩, AList.mem_lookup_iff.mp hp, hc.symm⟩

theorem mem_queue {e : Entry} : e ∈ pool.queue order ↔ pool.pending.lookup e.1 = some e.2 := by
  rw [queue, List.mem_filterMap]
  constructor
  · rintro ⟨c, -, hc⟩
    exact (entryOf_eq_some.mp hc).2
  · intro h
    exact ⟨⟨e.2.gasPrice, e.nonce, e.1⟩, mem_candidates.mpr ⟨e.2, h, rfl⟩,
      entryOf_eq_some.mpr ⟨rfl, h⟩⟩

theorem nodup_queue : ((pool.queue order).map (·.1)).Nodup := by
  have hnodup : ((pool.candidates order).map (·.hash)).Nodup := by
    rw [(candidates_perm.map _).nodup_iff, List.map_map]
    exact pool.pending.nodupKeys
  have hsub : ((pool.queue order).map (·.1)).Sublist ((pool.candidates order).map (·.hash)) := by
    unfold queue
    induction pool.candidates order with
    | nil => exact List.Sublist.refl _
    | cons c rest ih =>
      cases hc : pool.entryOf c with
      | none =>
        rw [List.filterMap_cons_none hc]
        exact ih.cons _
      | some e =>
        rw [List.filterMap_cons_some hc, List.map_cons, List.map_cons, (entryOf_eq_some.mp hc).1]
        exact ih.cons_cons _
  exact hnodup.sublist hsub

theorem pairwise_queue : (pool.queue order).Pairwise Entry.Before := by
  have htotal : Std.Total Candidate.Before := ⟨fun a b => by unfold Candidate.Before; omega⟩
  have htrans : IsTrans Candidate Candidate.Before :=
    ⟨fun a b c hab hbc => by unfold Candidate.Before at *; omega⟩
  have hsorted : (pool.candidates order).Pairwise Candidate.Before :=
    List.pairwise_insertionSort _ _
  rw [queue, List.pairwise_filterMap]
  refine hsorted.imp_of_mem fun {c d} hc hd hbefore a ha b hb => ?_
  obtain ⟨p, hp, hcp⟩ := mem_candidates.mp hc
  obtain ⟨q, hq, hdq⟩ := mem_candidates.mp hd
  obtain ⟨hca, hla⟩ := entryOf_eq_some.mp ha
  obtain ⟨hdb, hlb⟩ := entryOf_eq_some.mp hb
  obtain rfl : p = a.2 := Option.some.inj (hp.symm.trans (hca ▸ hla))
  obtain rfl : q = b.2 := Option.some.inj (hq.symm.trans (hdb ▸ hlb))
  rw [hcp, hdq] at hbefore
  exact hbefore

/-! ### The loop -/

variable {gasLimit maxCount : ℕ}

section
variable {c : Candidate} {rest : List Candidate} {selected : List SignedTransaction} {totalGas : ℕ}

theorem selectFrom_full (h : maxCount ≤ selected.length) (cs : List Candidate) :
    pool.selectFrom gasLimit maxCount cs selected totalGas = pure selected := by
  cases cs with
  | nil => rfl
  | cons c rest => rw [selectFrom, if_pos h]

theorem selectFrom_missing (h : ¬ maxCount ≤ selected.length) (hc : pool.entryOf c = none) :
    pool.selectFrom gasLimit maxCount (c :: rest) selected totalGas =
      pool.selectFrom gasLimit maxCount rest selected totalGas := by
  rw [selectFrom, if_neg h, Option.map_eq_none_iff.mp hc]

theorem selectFrom_entry {e : Entry} (h : ¬ maxCount ≤ selected.length)
    (hc : pool.entryOf c = some e) :
    pool.selectFrom gasLimit maxCount (c :: rest) selected totalGas =
      addU 64 totalGas e.gasLimit >>= fun gas =>
        if gasLimit < gas then pool.selectFrom gasLimit maxCount rest selected totalGas
        else pool.selectFrom gasLimit maxCount rest (selected ++ [e.2.tx]) gas := by
  obtain ⟨p, hp, rfl⟩ := Option.map_eq_some_iff.mp hc
  rw [selectFrom, if_neg h, hp]
  rfl

end

theorem selectFrom_val : ∀ {cs : List Candidate} {selected : List SignedTransaction} {totalGas : ℕ},
    (pool.selectFrom gasLimit maxCount cs selected totalGas).ovf = false →
      (pool.selectFrom gasLimit maxCount cs selected totalGas).val = selected ++
        (fill Entry.gasLimit gasLimit (maxCount - selected.length) totalGas
          (cs.filterMap pool.entryOf)).map (·.2.tx)
  | [], selected, totalGas, _ => by
    rw [List.filterMap_nil, fill_nil, List.map_nil, List.append_nil]
    rfl
  | c :: rest, selected, totalGas, h => by
    by_cases hfull : maxCount ≤ selected.length
    · rw [selectFrom_full hfull, Nat.sub_eq_zero_of_le hfull, fill_zero, List.map_nil,
        List.append_nil]
      rfl
    cases hc : pool.entryOf c with
    | none =>
      rw [selectFrom_missing hfull hc] at h ⊢
      rw [List.filterMap_cons_none hc]
      exact selectFrom_val h
    | some e =>
      rw [selectFrom_entry hfull hc] at h ⊢
      rw [ovf_bind, Bool.or_eq_false_iff] at h
      obtain ⟨hadd, h⟩ := h
      obtain ⟨n, hn⟩ : ∃ n, maxCount - selected.length = n + 1 :=
        ⟨maxCount - selected.length - 1, by omega⟩
      rw [addU_val hadd] at h
      rw [val_bind, addU_val hadd, List.filterMap_cons_some hc, hn, fill_cons]
      split_ifs at h ⊢ with hgas
      · rw [selectFrom_val h, hn]
      · have hlen : maxCount - (selected ++ [e.2.tx]).length = n := by
          rw [List.length_append, List.length_singleton]
          omega
        rw [selectFrom_val h, hlen, List.append_assoc]
        rfl

theorem selectFrom_ovf : ∀ {cs : List Candidate} {selected : List SignedTransaction} {totalGas : ℕ},
    totalGas + ((cs.filterMap pool.entryOf).map Entry.gasLimit).sum < 2 ^ 64 →
      (pool.selectFrom gasLimit maxCount cs selected totalGas).ovf = false
  | [], selected, totalGas, _ => rfl
  | c :: rest, selected, totalGas, h => by
    by_cases hfull : maxCount ≤ selected.length
    · rw [selectFrom_full hfull]
      rfl
    cases hc : pool.entryOf c with
    | none =>
      rw [List.filterMap_cons_none hc] at h
      rw [selectFrom_missing hfull hc]
      exact selectFrom_ovf h
    | some e =>
      rw [List.filterMap_cons_some hc, List.map_cons, List.sum_cons] at h
      have hadd : (addU 64 totalGas e.gasLimit).ovf = false := decide_eq_false (by omega)
      rw [selectFrom_entry hfull hc, ovf_bind, hadd, addU_val hadd]
      split_ifs
      · exact selectFrom_ovf (by omega)
      · exact selectFrom_ovf (by omega)

theorem selectTransactions_val (h : (pool.selectTransactions order gasLimit maxCount).ovf = false) :
    (pool.selectTransactions order gasLimit maxCount).val =
      (fill Entry.gasLimit gasLimit maxCount 0 (pool.queue order)).map (·.2.tx) :=
  selectFrom_val h

theorem selectTransactions_ovf
    (h : ((pool.queue order).map Entry.gasLimit).sum < 2 ^ 64) :
    (pool.selectTransactions order gasLimit maxCount).ovf = false :=
  selectFrom_ovf (by rwa [Nat.zero_add])

/-! ### With overflows -/

/-- The sum of the gas limits, as it is. -/
def gasSum (txs : List SignedTransaction) : ℕ := (txs.map (·.transaction.gasLimit)).sum

theorem gasSum_append (txs txs' : List SignedTransaction) :
    gasSum (txs ++ txs') = gasSum txs + gasSum txs' := by
  rw [gasSum, List.map_append, List.sum_append]
  rfl

theorem exists_sublist_selectFrom : ∀ (cs : List Candidate) (selected : List SignedTransaction)
    (totalGas : ℕ), ∃ es : List Entry, es.Sublist (cs.filterMap pool.entryOf) ∧
      es.length ≤ maxCount - selected.length ∧
      (pool.selectFrom gasLimit maxCount cs selected totalGas).val = selected ++ es.map (·.2.tx)
  | [], selected, totalGas => ⟨[], List.nil_sublist _, Nat.zero_le _, (List.append_nil _).symm⟩
  | c :: rest, selected, totalGas => by
    by_cases hfull : maxCount ≤ selected.length
    · rw [selectFrom_full hfull]
      exact ⟨[], List.nil_sublist _, Nat.zero_le _, (List.append_nil _).symm⟩
    cases hc : pool.entryOf c with
    | none =>
      rw [selectFrom_missing hfull hc, List.filterMap_cons_none hc]
      exact exists_sublist_selectFrom rest selected totalGas
    | some e =>
      rw [selectFrom_entry hfull hc, val_bind, List.filterMap_cons_some hc]
      split_ifs
      · obtain ⟨es, hsub, hlen, hval⟩ := exists_sublist_selectFrom rest selected totalGas
        exact ⟨es, hsub.cons e, hlen, hval⟩
      · obtain ⟨es, hsub, hlen, hval⟩ := exists_sublist_selectFrom rest (selected ++ [e.2.tx])
          (addU 64 totalGas e.gasLimit).val
        rw [List.length_append, List.length_singleton] at hlen
        refine ⟨e :: es, hsub.cons_cons e, ?_, ?_⟩
        · rw [List.length_cons]
          omega
        · rw [hval, List.append_assoc]
          rfl

/-- **An addition that overflows ends below what it started from**, so its transaction is selected,
and the gas limits add up to more than `u64` holds. -/
theorem le_gasSum_of_overflow (hlimit : gasLimit < 2 ^ 64) : ∀ {cs : List Candidate}
    {selected : List SignedTransaction} {totalGas : ℕ},
    (∀ e ∈ cs.filterMap pool.entryOf, e.gasLimit < 2 ^ 64) → totalGas ≤ gasLimit →
    totalGas ≤ gasSum selected →
    (pool.selectFrom gasLimit maxCount cs selected totalGas).ovf = true →
      2 ^ 64 ≤ gasSum (pool.selectFrom gasLimit maxCount cs selected totalGas).val
  | [], _, _, _, _, _, hovf => by cases hovf
  | c :: rest, selected, totalGas, htyped, hle, hsum, hovf => by
    by_cases hfull : maxCount ≤ selected.length
    · rw [selectFrom_full hfull] at hovf
      cases hovf
    cases hc : pool.entryOf c with
    | none =>
      rw [List.filterMap_cons_none hc] at htyped
      rw [selectFrom_missing hfull hc] at hovf ⊢
      exact le_gasSum_of_overflow hlimit htyped hle hsum hovf
    | some e =>
      rw [List.filterMap_cons_some hc, List.forall_mem_cons] at htyped
      rw [selectFrom_entry hfull hc] at hovf ⊢
      rw [ovf_bind] at hovf
      rw [val_bind]
      have hgas : gasSum (selected ++ [e.2.tx]) = gasSum selected + e.gasLimit := by
        rw [gasSum_append]
        rfl
      by_cases hwrap : 2 ^ 64 ≤ totalGas + e.gasLimit
      · have hlow : ¬ gasLimit < (addU 64 totalGas e.gasLimit).val := by
          have hval : (addU 64 totalGas e.gasLimit).val = (totalGas + e.gasLimit) % 2 ^ 64 := rfl
          have htype := htyped.1
          omega
        rw [if_neg hlow]
        obtain ⟨es, -, -, hval⟩ := @exists_sublist_selectFrom P pool gasLimit maxCount rest
          (selected ++ [e.2.tx]) (addU 64 totalGas e.gasLimit).val
        rw [hval, gasSum_append, hgas]
        omega
      · have hadd : (addU 64 totalGas e.gasLimit).ovf = false := decide_eq_false hwrap
        rw [hadd, Bool.false_or] at hovf
        rw [addU_val hadd] at hovf ⊢
        split_ifs at hovf ⊢ with hgt
        · exact le_gasSum_of_overflow hlimit htyped.2 hle hsum hovf
        · exact le_gasSum_of_overflow hlimit htyped.2 (Nat.le_of_not_lt hgt) (by omega) hovf

section
variable (order) (gasLimit maxCount)

theorem exists_keys_selectTransactions (pool : TransactionPool P) :
    ∃ keys : List Blake3Hash, keys.Nodup ∧ keys.length ≤ maxCount ∧
      keys.map (fun k => (pool.pending.lookup k).map (·.tx)) =
        (pool.selectTransactions order gasLimit maxCount).val.map some := by
  obtain ⟨es, hsub, hlen, hval⟩ := @exists_sublist_selectFrom P pool gasLimit maxCount
    (pool.candidates order) [] 0
  refine ⟨es.map (·.1), nodup_queue.sublist (hsub.map _), by simpa using hlen, ?_⟩
  unfold selectTransactions
  rw [hval, List.nil_append, List.map_map, List.map_map]
  refine List.map_congr_left fun e he => ?_
  have hmem : e ∈ pool.queue order := hsub.subset he
  have hlookup := mem_queue.mp hmem
  simp [hlookup]

/-- **The gas limits of the selected transactions stay within the limit if and only if the sum does
not overflow.** -/
theorem gasSum_selectTransactions_iff (pool : TransactionPool P) (hlimit : gasLimit < 2 ^ 64)
    (htyped : ∀ h p, pool.pending.lookup h = some p → p.tx.transaction.gasLimit < 2 ^ 64) :
    gasSum (pool.selectTransactions order gasLimit maxCount).val ≤ gasLimit ↔
      (pool.selectTransactions order gasLimit maxCount).ovf = false := by
  constructor
  · intro hle
    rw [← Bool.not_eq_true]
    intro hovf
    have hsum : 2 ^ 64 ≤ gasSum (pool.selectTransactions order gasLimit maxCount).val :=
      le_gasSum_of_overflow hlimit (fun e he => htyped e.1 e.2 (mem_queue.mp he))
        (Nat.zero_le gasLimit) (Nat.zero_le _) hovf
    omega
  · intro hovf
    have hfill := spent_add_sum_fill_le Entry.gasLimit gasLimit (pool.queue order) maxCount 0
      (Nat.zero_le _)
    rw [Nat.zero_add] at hfill
    rw [selectTransactions_val hovf, gasSum, List.map_map]
    exact hfill

end

end TransactionPool

end Rustchain.Consensus

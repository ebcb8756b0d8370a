import Rustchain.Consensus.Node
import Rustchain.Consensus.TxPool

/-! # The index of the transaction pool

The pool holds its transactions by hash, and for every sender the set of nonces and hashes of the
sender's transactions. The two maps are written one after the other by four operations; along every
run of these the second one is the index of the first (`Indexed`). -/

namespace Rustchain.Consensus

open Rustchain.Core Lib.Maps Lib.Runs

namespace TransactionPool

/-! ### Entries of the index -/

def Lists (m : HashMap Address (Finset (ℕ × Blake3Hash))) (s : Address) (x : ℕ × Blake3Hash) :
    Prop := ∃ set, m.lookup s = some set ∧ x ∈ set

/-- No sender has an empty set. -/
def Inhabited (m : HashMap Address (Finset (ℕ × Blake3Hash))) : Prop := ∀ s, m.lookup s ≠ some ∅

section
variable {m : HashMap Address (Finset (ℕ × Blake3Hash))} {sender : Address} {entry : ℕ × Blake3Hash}

variable {x : ℕ × Blake3Hash}

theorem lists_insert {set : Finset (ℕ × Blake3Hash)} {s : Address} :
    Lists (m.insert sender set) s x ↔ if s = sender then x ∈ set else Lists m s x := by
  unfold Lists
  split_ifs with h
  · subst h
    simp [AList.lookup_insert]
  · rw [AList.lookup_insert_ne h]

theorem lists_getD : x ∈ (m.lookup sender).getD ∅ ↔ Lists m sender x := by
  unfold Lists
  cases m.lookup sender with
  | none => simp
  | some set => simp

theorem lists_add {s : Address} :
    Lists (m.insert sender (Insert.insert entry ((m.lookup sender).getD ∅))) s x ↔
      Lists m s x ∨ s = sender ∧ x = entry := by
  rw [lists_insert]
  split_ifs with h
  · subst h
    rw [Finset.mem_insert, lists_getD]
    tauto
  · tauto

theorem inhabited_add (h : Inhabited m) :
    Inhabited (m.insert sender (Insert.insert entry ((m.lookup sender).getD ∅))) := by
  intro s hs
  by_cases he : s = sender
  · subst he
    rw [AList.lookup_insert] at hs
    exact Finset.insert_ne_empty _ _ (Option.some.inj hs)
  · rw [AList.lookup_insert_ne he] at hs
    exact h s hs

theorem lists_unlist {s : Address} :
    Lists (unlist m sender entry) s x ↔ Lists m s x ∧ ¬ (s = sender ∧ x = entry) := by
  unfold unlist
  cases hm : m.lookup sender with
  | none =>
    have hn : ¬ Lists m sender x := by simp [Lists, hm]
    constructor
    · intro h
      exact ⟨h, fun hc => hn (hc.1 ▸ h)⟩
    · exact fun h => h.1
  | some set =>
    have hset : Lists m sender x ↔ x ∈ set := by simp [Lists, hm]
    by_cases hs : s = sender
    · subst hs
      dsimp only
      split_ifs with he
      · have hx : x ∈ set → x = entry := by
          intro hx
          by_contra hne
          have hmem : x ∈ set.erase entry := Finset.mem_erase.mpr ⟨hne, hx⟩
          rw [he] at hmem
          exact Finset.notMem_empty x hmem
        have hnone : ¬ Lists (m.erase s) s x := by simp [Lists]
        simp only [hnone, hset, true_and, false_iff, not_and, not_not]
        exact hx
      · rw [lists_insert, if_pos rfl, Finset.mem_erase, hset]
        tauto
    · have hother : Lists (m.erase sender) s x ↔ Lists m s x := by
        unfold Lists
        rw [AList.lookup_erase_ne hs]
      dsimp only
      split_ifs with he
      · rw [hother]
        tauto
      · rw [lists_insert, if_neg hs]
        tauto

theorem inhabited_unlist (h : Inhabited m) : Inhabited (unlist m sender entry) := by
  unfold unlist
  cases hm : m.lookup sender with
  | none => exact h
  | some set =>
    intro s hs
    dsimp only at hs
    by_cases he : s = sender
    · subst he
      split_ifs at hs with hempty
      · simp at hs
      · rw [AList.lookup_insert] at hs
        exact hempty (Option.some.inj hs)
    · split_ifs at hs
      · rw [AList.lookup_erase_ne he] at hs
        exact h s hs
      · rw [AList.lookup_insert_ne he] at hs
        exact h s hs

end

/-! ### The invariant -/

variable {P : Primitives}

/-- **The representation of a pool** with the given limits: every transaction stands under its own
hash, verifies and pays the minimum price; the index lists exactly the pending transactions under
their senders and has no empty set; and there are at most `maxSize` transactions. -/
structure Indexed (maxSize minGasPrice : ℕ) (pool : TransactionPool P) : Prop where
  limits : pool.maxSize = maxSize ∧ pool.minGasPrice = minGasPrice
  entries : ∀ h p, pool.pending.lookup h = some p →
    p.tx.hash = h ∧ p.tx.verify P = .ok () ∧ minGasPrice ≤ p.tx.transaction.gasPrice
  listed : ∀ s n h, Lists pool.bySender s (n, h) ↔
    ∃ p, pool.pending.lookup h = some p ∧ p.tx.sender = s ∧ p.tx.transaction.nonce = n
  inhabited : Inhabited pool.bySender
  size : pool.pending.keys.length ≤ maxSize

variable {maxSize minGasPrice : ℕ} {pool : TransactionPool P}

theorem indexed_new : Indexed maxSize minGasPrice (new P maxSize minGasPrice) where
  limits := ⟨rfl, rfl⟩
  entries h p hp := by simp [new] at hp
  listed s n h := by simp [Lists, new]
  inhabited s hs := by simp [new] at hs
  size := Nat.zero_le _

theorem insert_ok {tx : SignedTransaction} {now : ℕ} {pool' : TransactionPool P}
    (h : pool.insert tx now = .ok pool') :
    ∃ hv : tx.verify P = .ok (), pool.minGasPrice ≤ tx.transaction.gasPrice ∧
      pool.pending.keys.length < pool.maxSize ∧ pool.pending.lookup tx.hash = none ∧
      pool' = pool.add tx now hv := by
  unfold insert at h
  split at h
  · cases h
  · next hv =>
    split_ifs at h with hprice hsize hdup
    refine ⟨hv, Nat.not_lt.mp hprice, Nat.not_le.mp hsize, ?_, (Except.ok.inj h).symm⟩
    simpa using hdup

theorem Indexed.add (hi : Indexed maxSize minGasPrice pool) {tx : SignedTransaction} (now : ℕ)
    (hv : tx.verify P = .ok ()) (hprice : minGasPrice ≤ tx.transaction.gasPrice)
    (hsize : pool.pending.keys.length < maxSize) (hnew : pool.pending.lookup tx.hash = none) :
    Indexed maxSize minGasPrice (pool.add tx now hv) := by
  have hmem : tx.hash ∉ pool.pending := AList.lookup_eq_none.mp hnew
  refine ⟨hi.limits, ?_, ?_, inhabited_add hi.inhabited, ?_⟩
  · intro h p hp
    by_cases hh : h = tx.hash
    · subst hh
      rw [TransactionPool.add, AList.lookup_insert] at hp
      obtain rfl := Option.some.inj hp
      exact ⟨rfl, hv, hprice⟩
    · rw [TransactionPool.add, AList.lookup_insert_ne hh] at hp
      exact hi.entries h p hp
  · intro s n h
    rw [TransactionPool.add, lists_add, hi.listed]
    by_cases hh : h = tx.hash
    · subst hh
      rw [AList.lookup_insert]
      simp [hnew, Prod.ext_iff, eq_comm]
    · rw [AList.lookup_insert_ne hh]
      simp [hh]
  · rw [TransactionPool.add, AList.keys_insert, List.length_cons,
      List.erase_of_not_mem fun hk => hmem (AList.mem_keys.mp hk)]
    exact hsize

theorem Indexed.remove (hi : Indexed maxSize minGasPrice pool) (h : Blake3Hash) :
    Indexed maxSize minGasPrice (pool.remove h).2 := by
  unfold TransactionPool.remove
  cases hl : pool.pending.lookup h with
  | none => exact hi
  | some pooled =>
    refine ⟨hi.limits, ?_, ?_, inhabited_unlist hi.inhabited, ?_⟩
    · intro k p hp
      by_cases hk : k = h
      · subst hk
        simp at hp
      · have hp' : pool.pending.lookup k = some p := by
          rw [← hp, AList.lookup_erase_ne hk]
        exact hi.entries k p hp'
    · intro s n k
      show Lists (unlist _ _ _) s (n, k) ↔ _
      rw [lists_unlist, hi.listed]
      by_cases hk : k = h
      · subst hk
        -- the only entry under this hash is the one that goes
        simp only [hl, AList.lookup_erase, Option.some.injEq, Prod.mk.injEq, and_true]
        constructor
        · rintro ⟨⟨p, rfl, rfl, rfl⟩, hne⟩
          exact absurd ⟨rfl, rfl⟩ hne
        · rintro ⟨p, hp, -⟩
          cases hp
      · rw [AList.lookup_erase_ne hk]
        simp [hk]
    · have hle : (pool.pending.erase h).keys.length ≤ pool.pending.keys.length := by
        rw [AList.keys_erase]
        exact List.length_erase_le
      exact le_trans hle hi.size

variable (hashes : List Blake3Hash) (h : Blake3Hash)

theorem Indexed.removeAll (hi : Indexed maxSize minGasPrice pool) :
    Indexed maxSize minGasPrice (hashes.foldl (fun pool h => (pool.remove h).2) pool) := by
  induction hashes generalizing pool with
  | nil => exact hi
  | cons h hashes ih => exact ih (hi.remove h)

theorem Indexed.insert (hi : Indexed maxSize minGasPrice pool) {tx : SignedTransaction} {now : ℕ}
    {pool' : TransactionPool P} (h : pool.insert tx now = .ok pool') :
    Indexed maxSize minGasPrice pool' := by
  obtain ⟨hv, hprice, hsize, hnew, rfl⟩ := insert_ok h
  rw [hi.limits.1] at hsize
  rw [hi.limits.2] at hprice
  exact hi.add now hv hprice hsize hnew

/-! ### Runs -/

/-- The calls that change a pool, each with the clock reading and the iteration order it meets. -/
inductive Op where
  | insert (tx : SignedTransaction) (now : ℕ)
  | remove (h : Blake3Hash)
  | pruneCommitted (hashes : List Blake3Hash)
  | pruneExpired (order : IterOrder (Sigma fun _ : Blake3Hash => PooledTransaction))
      (now maxAge : ℕ)

def after (pool : TransactionPool P) : Op → TransactionPool P
  | .insert tx now =>
    match pool.insert tx now with
    | .ok pool' => pool'
    | .error _ => pool
  | .remove h => (pool.remove h).2
  | .pruneCommitted hashes => pool.pruneCommitted hashes
  | .pruneExpired order now maxAge => pool.pruneExpired order now maxAge

def Step (pool : TransactionPool P) (op : Op) (pool' : TransactionPool P) : Prop :=
  pool.after op = pool'

theorem Indexed.after (hi : Indexed maxSize minGasPrice pool) (op : Op) :
    Indexed maxSize minGasPrice (pool.after op) := by
  cases op with
  | insert tx now =>
    dsimp only [TransactionPool.after]
    cases h : pool.insert tx now with
    | error e => exact hi
    | ok pool' => exact hi.insert h
  | remove h => exact hi.remove h
  | pruneCommitted hashes => exact hi.removeAll hashes
  | pruneExpired order now maxAge => exact hi.removeAll _

theorem indexed_of_run {ops : List Op}
    (h : Run Step Free (new P maxSize minGasPrice) ops pool) :
    Indexed maxSize minGasPrice pool := by
  refine h.invariant indexed_new ?_
  rintro t op u ht - rfl
  exact ht.after op

theorem remove_fst : (pool.remove h).1 = (pool.pending.lookup h).map (·.tx) := by
  unfold TransactionPool.remove
  cases pool.pending.lookup h with
  | none => rfl
  | some p => rfl

theorem lookup_remove (k h : Blake3Hash) : (pool.remove k).2.pending.lookup h =
    if h = k then none else pool.pending.lookup h := by
  unfold TransactionPool.remove
  cases hl : pool.pending.lookup k with
  | none =>
    split_ifs with hk
    · rw [hk]
      exact hl
    · rfl
  | some p =>
    split_ifs with hk
    · rw [hk]
      exact AList.lookup_erase _ _
    · exact AList.lookup_erase_ne hk

theorem lookup_removeAll :
    (hashes.foldl (fun pool h => (pool.remove h).2) pool).pending.lookup h =
      if h ∈ hashes then none else pool.pending.lookup h := by
  induction hashes generalizing pool with
  | nil => simp
  | cons k hashes ih =>
    rw [List.foldl_cons, ih, lookup_remove]
    by_cases hk : h = k
    · simp [hk]
    · simp [hk]

theorem lookup_of_removeAll {h : Blake3Hash} {p : PooledTransaction}
    (hp : (hashes.foldl (fun pool h => (pool.remove h).2) pool).pending.lookup h = some p) :
    pool.pending.lookup h = some p := by
  rw [lookup_removeAll] at hp
  split_ifs at hp
  exact hp

theorem lookup_after {op : Op} {h : Blake3Hash} {p : PooledTransaction}
    (hp : (pool.after op).pending.lookup h = some p) :
    pool.pending.lookup h = some p ∨
      ∃ now pool', op = .insert p.tx now ∧ pool.insert p.tx now = .ok pool' ∧ p.tx.hash = h := by
  cases op with
  | insert tx now =>
    dsimp only [after] at hp
    cases hins : pool.insert tx now with
    | error e =>
      rw [hins] at hp
      exact .inl hp
    | ok pool' =>
      rw [hins] at hp
      obtain ⟨hv, -, -, -, rfl⟩ := insert_ok hins
      by_cases hh : h = tx.hash
      · subst hh
        dsimp only [TransactionPool.add] at hp
        rw [AList.lookup_insert] at hp
        obtain rfl := Option.some.inj hp
        exact .inr ⟨now, _, rfl, hins, rfl⟩
      · dsimp only [TransactionPool.add] at hp
        rw [AList.lookup_insert_ne hh] at hp
        exact .inl hp
  | remove k => exact .inl (lookup_of_removeAll [k] hp)
  | pruneCommitted hashes => exact .inl (lookup_of_removeAll hashes hp)
  | pruneExpired order now maxAge => exact .inl (lookup_of_removeAll _ hp)

/-- A call of the run inserted the transaction under the hash, successfully. -/
def InsertedIn (P : Primitives) (maxSize minGasPrice : ℕ) (ops : List Op) (h : Blake3Hash)
    (tx : SignedTransaction) : Prop :=
  ∃ before now later, ∃ pool pool' : TransactionPool P,
    ops = before ++ .insert tx now :: later ∧
      Run Step Free (new P maxSize minGasPrice) before pool ∧
      pool.insert tx now = .ok pool' ∧ tx.hash = h

theorem insertedIn_of_run {ops : List Op}
    (h : Run Step Free (new P maxSize minGasPrice) ops pool) {k : Blake3Hash}
    {p : PooledTransaction} (hp : pool.pending.lookup k = some p) :
    InsertedIn P maxSize minGasPrice ops k p.tx := by
  induction h with
  | nil => simp [new] at hp
  | @snoc l t u op hrun _ hstep ih =>
    subst hstep
    rcases lookup_after hp with hold | ⟨now, pool', rfl, hins, hk⟩
    · obtain ⟨before, now, later, t₁, t₂, rfl, hrun', hins, hk⟩ := ih hold
      exact ⟨before, now, later ++ [op], t₁, t₂, by simp, hrun', hins, hk⟩
    · exact ⟨l, now, [], t, pool', rfl, hrun, hins, hk⟩

/-- **The pool is well represented after every run** of its operations: the index and the entries
are as `Indexed` says, an `insert` that fails changes neither map, and `remove` returns the
transaction that was inserted under the hash if there is one pending, and nothing otherwise. -/
theorem pool_representation (P : Primitives) (maxSize minGasPrice : ℕ) {ops : List Op}
    {pool : TransactionPool P} (hr : Run Step Free (new P maxSize minGasPrice) ops pool) :
    Indexed maxSize minGasPrice pool ∧
    (∀ tx now e, pool.insert tx now = .error e →
      (pool.after (.insert tx now)).pending = pool.pending ∧
      (pool.after (.insert tx now)).bySender = pool.bySender) ∧
    ∀ h, ((pool.remove h).1.isSome ↔ h ∈ pool.pending) ∧
      ∀ tx, (pool.remove h).1 = some tx →
        InsertedIn P maxSize minGasPrice ops h tx ∧ h ∉ (pool.remove h).2.pending := by
  refine ⟨indexed_of_run hr, ?_, ?_⟩
  · intro tx now e he
    dsimp only [after]
    rw [he]
    exact ⟨rfl, rfl⟩
  · intro h
    rw [remove_fst]
    refine ⟨?_, ?_⟩
    · rw [Option.isSome_map, AList.lookup_isSome]
    · intro tx htx
      obtain ⟨p, hp, rfl⟩ := Option.map_eq_some_iff.mp htx
      refine ⟨insertedIn_of_run hr hp, ?_⟩
      unfold TransactionPool.remove
      rw [hp]
      exact AList.lookup_eq_none.mp (AList.lookup_erase _ _)

def oneStake : TransactionPool .small :=
  (new .small 10 1).after (.insert (Small.tx 2 0 .stake none 7 []) 0)

theorem oneStake_indexed : oneStake.pending.keys.length = 1 ∧ Indexed 10 1 oneStake := by
  have hrun : Run Step Free (new .small 10 1)
      ([] ++ [.insert (Small.tx 2 0 .stake none 7 []) 0]) oneStake := .snoc .nil trivial rfl
  exact ⟨by decide +kernel, (pool_representation .small 10 1 hrun).1⟩

end TransactionPool

end Rustchain.Consensus

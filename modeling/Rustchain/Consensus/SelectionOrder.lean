import Rustchain.Consensus.Pruning
import Rustchain.Consensus.Replay
import Rustchain.Consensus.Selection
import Rustchain.Consensus.Turns

/-! # Nonces and the selection

The selection sorts all pending transactions by gas price first. It respects the nonces of a sender
where a later nonce is never priced higher, never asks for less gas, and comes once (`Ordered`); any
two transactions of one sender for which this fails can be pending without others, and then there
are limits for which the selection breaks the order. Where it is respected and the pending nonces go
on from those of the accounts, a block skips a transaction for its nonce exactly if an earlier one
of the sender could not be paid for. -/

namespace Rustchain.Consensus

open Rustchain.Core Storage Vm Lib.Machine Lib.Maps Lib.Greedy

theorem eq_range'_of_closed : ∀ {l : List ℕ} {c : ℕ}, l.Pairwise (· < ·) → (∀ x ∈ l, c ≤ x) →
    (∀ x ∈ l, ∀ y, c ≤ y → y < x → y ∈ l) → l = List.range' c l.length
  | [], _, _, _, _ => rfl
  | a :: l, c, hlt, hle, hclosed => by
    obtain ⟨ha, hl⟩ := List.pairwise_cons.mp hlt
    have hac : a = c := by
      by_contra hne
      have hc := hle a List.mem_cons_self
      rcases List.mem_cons.mp (hclosed a List.mem_cons_self c le_rfl (by omega)) with h | h
      · exact hne h.symm
      · have := ha c h
        omega
    subst hac
    have ih := @eq_range'_of_closed l (a + 1) hl (fun x hx => ha x hx) fun x hx y hy hyx => by
      rcases List.mem_cons.mp (hclosed x (List.mem_cons_of_mem _ hx) y (by omega) hyx) with h | h
      · omega
      · exact h
    rw [List.length_cons, List.range'_succ, ← ih]

namespace TransactionPool

variable {P : Primitives} {pool : TransactionPool P}

/-- A nonce of a pending transaction of a sender. -/
def PendingNonce (pool : TransactionPool P) (a : Address) (n : ℕ) : Prop :=
  ∃ h p, pool.pending.lookup h = some p ∧ p.tx.sender = a ∧ p.tx.transaction.nonce = n

/-- **A selection that respects nonces**: the transactions of each sender have rising nonces, and
these are the first ones that the sender has in the pool. -/
structure Respects (pool : TransactionPool P) (selected : List SignedTransaction) : Prop where
  increasing : ∀ a, ((signedBy a selected).map (·.transaction.nonce)).Pairwise (· < ·)
  initial : ∀ a, ∀ stx ∈ signedBy a selected, ∀ n, pool.PendingNonce a n →
    n < stx.transaction.nonce → n ∈ (signedBy a selected).map (·.transaction.nonce)

/-- Of two pending transactions of one sender, the later nonce is not priced higher and does not
have the lower gas limit; and no nonce comes twice. -/
def Ordered (pool : TransactionPool P) : Prop :=
  ∀ h p k q, pool.pending.lookup h = some p → pool.pending.lookup k = some q → h ≠ k →
    p.tx.sender = q.tx.sender → p.tx.transaction.nonce ≠ q.tx.transaction.nonce ∧
      (p.tx.transaction.nonce < q.tx.transaction.nonce → q.gasPrice ≤ p.gasPrice ∧
        p.tx.transaction.gasLimit ≤ q.tx.transaction.gasLimit)

/-- A pool with some of the pending transactions of another. -/
def PartOf (part pool : TransactionPool P) : Prop :=
  ∀ h p, part.pending.lookup h = some p → pool.pending.lookup h = some p

theorem Ordered.part {part : TransactionPool P} (h : pool.Ordered) (hp : part.PartOf pool) :
    part.Ordered := fun k p k' p' hk hk' => h k p k' p' (hp k p hk) (hp k' p' hk')

/-! ### Pools in order -/

section
variable {order : IterOrder (Sigma fun _ : Blake3Hash => PooledTransaction)}

theorem Ordered.pairwise (h : pool.Ordered) (a : Address) :
    ((pool.queue order).filter fun e => decide (e.sender = a)).Pairwise
      fun e f => e.nonce < f.nonce ∧ e.gasLimit ≤ f.gasLimit := by
  have hkeys : (pool.queue order).Pairwise fun e f => e.1 ≠ f.1 :=
    List.pairwise_map.mp nodup_queue
  refine ((hkeys.and pairwise_queue).filter _).imp_of_mem fun {e f} he hf hef => ?_
  obtain ⟨he, hea⟩ := List.mem_filter.mp he
  obtain ⟨hf, hfa⟩ := List.mem_filter.mp hf
  have hsender : e.sender = f.sender :=
    (of_decide_eq_true hea).trans (of_decide_eq_true hfa).symm
  obtain ⟨hne, hup⟩ := h e.1 e.2 f.1 f.2 (mem_queue.mp he) (mem_queue.mp hf) hef.1 hsender
  obtain ⟨-, hdown⟩ := h f.1 f.2 e.1 e.2 (mem_queue.mp hf) (mem_queue.mp he) (Ne.symm hef.1)
    hsender.symm
  have hlt : e.nonce < f.nonce := by
    by_contra hge
    have hfe : f.nonce < e.nonce := lt_of_le_of_ne (Nat.le_of_not_lt hge) (Ne.symm hne)
    have hprice := (hdown hfe).1
    rcases hef.2 with hlow | ⟨-, hle⟩
    · omega
    · exact hge (lt_of_le_of_ne hle hne)
  exact ⟨hlt, (hup hlt).2⟩

theorem Ordered.respects (h : pool.Ordered) {gasLimit maxCount : ℕ}
    (hovf : (pool.selectTransactions order gasLimit maxCount).ovf = false) :
    pool.Respects (pool.selectTransactions order gasLimit maxCount).val := by
  have hsigned : ∀ a, signedBy a (pool.selectTransactions order gasLimit maxCount).val =
      ((fill Entry.gasLimit gasLimit maxCount 0 (pool.queue order)).filter
        fun e => decide (e.sender = a)).map (·.2.tx) := by
    intro a
    rw [selectTransactions_val hovf, signedBy, List.filter_map]
    rfl
  have hinitial : ∀ a, ∃ left, ((fill Entry.gasLimit gasLimit maxCount 0 (pool.queue order)).filter
      fun e => decide (e.sender = a)) ++ left =
        (pool.queue order).filter fun e => decide (e.sender = a) := fun a =>
    filter_fill_initial Entry.gasLimit gasLimit _ ((h.pairwise a).imp fun hef => hef.2)
  constructor
  · intro a
    obtain ⟨left, hleft⟩ := hinitial a
    have hsorted := @Ordered.pairwise P pool order h a
    rw [← hleft, List.pairwise_append] at hsorted
    rw [hsigned, List.map_map, List.pairwise_map]
    exact hsorted.1.imp fun hef => hef.1
  · rintro a stx hstx n ⟨k, p, hk, rfl, rfl⟩ hlt
    obtain ⟨left, hleft⟩ := hinitial p.tx.sender
    have hsorted := @Ordered.pairwise P pool order h p.tx.sender
    have hmem : ((k, p) : Entry) ∈
        (pool.queue order).filter fun e => decide (e.sender = p.tx.sender) :=
      List.mem_filter.mpr ⟨mem_queue.mpr hk, decide_eq_true rfl⟩
    rw [hsigned] at hstx ⊢
    obtain ⟨e, he, rfl⟩ := List.mem_map.mp hstx
    rw [← hleft, List.mem_append] at hmem
    rw [← hleft, List.pairwise_append] at hsorted
    rcases hmem with hmem | hmem
    · exact List.mem_map_of_mem (List.mem_map_of_mem hmem)
    · -- what is left over comes after everything that is selected
      have hafter : e.nonce < p.tx.transaction.nonce := (hsorted.2.2 e he (k, p) hmem).1
      exact absurd hlt (Nat.lt_asymm hafter)

end

/-! ### Two transactions alone -/

theorem queue_eq_of_perm {order : IterOrder (Sigma fun _ : Blake3Hash => PooledTransaction)}
    {e f : Entry} (hperm : (pool.queue order).Perm [e, f]) (hbefore : ¬ Entry.Before f e) :
    pool.queue order = [e, f] := by
  have hsorted := @pairwise_queue P pool order
  match hl : pool.queue order, hperm.length_eq with
  | [a, b], _ =>
    rw [hl] at hperm hsorted
    have hab : Entry.Before a b := List.rel_of_pairwise_cons hsorted (by simp)
    have ha : a = e ∨ a = f := by simpa using hperm.subset (List.mem_cons_self ..)
    rcases ha with rfl | rfl
    · have hrest := (List.perm_cons _).mp hperm
      rw [List.singleton_perm_singleton.mp hrest]
    · have hrest := (List.perm_cons _).mp (hperm.trans (List.Perm.swap ..))
      rw [List.singleton_perm_singleton.mp hrest] at hab
      exact absurd hab hbefore

/-- The pool with two of the pending transactions only. -/
def pair (pool : TransactionPool P) {h k : Blake3Hash} {p q : PooledTransaction}
    (hp : pool.pending.lookup h = some p) (hq : pool.pending.lookup k = some q) :
    TransactionPool P where
  pending := AList.insert h p (AList.insert k q ∅)
  bySender := pool.bySender
  maxSize := pool.maxSize
  minGasPrice := pool.minGasPrice
  verified j r hr := by
    by_cases hj : j = h
    · subst hj
      rw [AList.lookup_insert] at hr
      exact Option.some.inj hr ▸ pool.verified _ _ hp
    · rw [AList.lookup_insert_ne hj] at hr
      by_cases hk : j = k
      · subst hk
        rw [AList.lookup_insert] at hr
        exact Option.some.inj hr ▸ pool.verified _ _ hq
      · rw [AList.lookup_insert_ne hk, AList.lookup_empty] at hr
        cases hr

section
variable {h k : Blake3Hash} {p q : PooledTransaction} (hp : pool.pending.lookup h = some p)
  (hq : pool.pending.lookup k = some q) (hne : h ≠ k)
include hne

theorem lookup_pair {e : Entry} : (pool.pair hp hq).pending.lookup e.1 = some e.2 ↔
    e = (h, p) ∨ e = (k, q) := by
  obtain ⟨j, r⟩ := e
  unfold pair
  dsimp only
  by_cases hj : j = h
  · subst hj
    rw [AList.lookup_insert]
    simp only [Option.some.injEq, Prod.mk.injEq, hne, true_and, false_and, or_false]
    exact eq_comm
  · rw [AList.lookup_insert_ne hj]
    by_cases hk : j = k
    · subst hk
      rw [AList.lookup_insert]
      simp only [Option.some.injEq, Prod.mk.injEq, hj, true_and, false_and, false_or]
      exact eq_comm
    · rw [AList.lookup_insert_ne hk, AList.lookup_empty]
      simp [hj, hk]

theorem pair_partOf : (pool.pair hp hq).PartOf pool := by
  intro j r hr
  rcases (lookup_pair hp hq hne (e := (j, r))).mp hr with he | he
  · obtain ⟨rfl, rfl⟩ := Prod.mk.inj he
    exact hp
  · obtain ⟨rfl, rfl⟩ := Prod.mk.inj he
    exact hq

variable (order : IterOrder (Sigma fun _ : Blake3Hash => PooledTransaction))

theorem queue_pair_perm : ((pool.pair hp hq).queue order).Perm [(h, p), (k, q)] := by
  refine (List.perm_ext_iff_of_nodup (List.Nodup.of_map _ nodup_queue) (by simp [hne])).mpr
    fun e => ?_
  rw [mem_queue, lookup_pair hp hq hne]
  simp

theorem select_pair_ovf {gasLimit maxCount : ℕ}
    (hfits : p.tx.transaction.gasLimit + q.tx.transaction.gasLimit < 2 ^ 64) :
    ((pool.pair hp hq).selectTransactions order gasLimit maxCount).ovf = false := by
  refine selectTransactions_ovf ?_
  rw [((queue_pair_perm hp hq hne order).map Entry.gasLimit).sum_eq]
  simpa [Entry.gasLimit] using hfits

omit hne

theorem not_respects_of_same_nonce (hne : h ≠ k) (hs : p.tx.sender = q.tx.sender)
    (hfits : p.tx.transaction.gasLimit + q.tx.transaction.gasLimit < 2 ^ 64)
    (hn : p.tx.transaction.nonce = q.tx.transaction.nonce) :
    ¬ (pool.pair hp hq).Respects ((pool.pair hp hq).selectTransactions order
      (p.tx.transaction.gasLimit + q.tx.transaction.gasLimit) 2).val := by
  intro hr
  have hperm := queue_pair_perm hp hq hne order
  have hall := hr.increasing q.tx.sender
  have hsum : 0 + (((pool.pair hp hq).queue order).map Entry.gasLimit).sum ≤
      p.tx.transaction.gasLimit + q.tx.transaction.gasLimit := by
    rw [(hperm.map _).sum_eq]
    simp [Entry.gasLimit]
  have hlen : ((pool.pair hp hq).queue order).length ≤ 2 := hperm.length_eq.le
  rw [selectTransactions_val (select_pair_ovf hp hq hne order hfits),
    fill_eq_self _ _ hsum hlen] at hall
  -- both have the sender, so their nonces would have to differ
  have hnonces := ((hperm.map (·.2.tx)).filter fun t => decide (t.sender = q.tx.sender)).map
    (·.transaction.nonce)
  have hnodup := hnonces.nodup_iff.mp (hall.imp fun hlt => hlt.ne)
  simp [hs, hn] at hnodup

/-- The second of them has the higher nonce and is tried first, or it needs less gas: then there are
limits for which it is selected alone. -/
theorem not_respects_of_alone (hne : h ≠ k) (hs : p.tx.sender = q.tx.sender)
    (hfits : p.tx.transaction.gasLimit + q.tx.transaction.gasLimit < 2 ^ 64)
    (hn : p.tx.transaction.nonce < q.tx.transaction.nonce)
    (hfirst : p.gasPrice < q.gasPrice ∨
      q.gasPrice ≤ p.gasPrice ∧ q.tx.transaction.gasLimit < p.tx.transaction.gasLimit) :
    ¬ (pool.pair hp hq).Respects ((pool.pair hp hq).selectTransactions order
      q.tx.transaction.gasLimit 1).val := by
  intro hr
  have hperm := queue_pair_perm hp hq hne order
  have hsel : ((pool.pair hp hq).selectTransactions order q.tx.transaction.gasLimit 1).val =
      [q.tx] := by
    rw [selectTransactions_val (select_pair_ovf hp hq hne order hfits)]
    rcases hfirst with hprice | ⟨hprice, hgas⟩
    · have hbefore : ¬ Entry.Before (h, p) (k, q) := by
        simp only [Entry.Before, Entry.nonce]
        omega
      rw [queue_eq_of_perm (hperm.trans (List.Perm.swap ..)) hbefore, fill_cons,
        if_neg (by simp [Entry.gasLimit]), fill_zero]
      rfl
    · have hbefore : ¬ Entry.Before (k, q) (h, p) := by
        simp only [Entry.Before, Entry.nonce]
        omega
      rw [queue_eq_of_perm hperm hbefore, fill_cons, if_pos (by simpa [Entry.gasLimit] using hgas),
        fill_cons, if_neg (by simp [Entry.gasLimit]), fill_zero]
      rfl
  have hone : signedBy q.tx.sender [q.tx] = [q.tx] := by simp [signedBy]
  have hpending : (pool.pair hp hq).PendingNonce q.tx.sender p.tx.transaction.nonce :=
    ⟨h, p, (lookup_pair hp hq hne (e := (h, p))).mpr (.inl rfl), hs, rfl⟩
  have hin := hr.initial q.tx.sender q.tx (by rw [hsel, hone]; simp) _ hpending hn
  rw [hsel, hone, List.map_singleton, List.mem_singleton] at hin
  omega

end

theorem respects_iff_ordered
    (hfits : ∀ h p k q, pool.pending.lookup h = some p → pool.pending.lookup k = some q → h ≠ k →
      p.tx.transaction.gasLimit + q.tx.transaction.gasLimit < 2 ^ 64) :
    (∀ part : TransactionPool P, part.PartOf pool → ∀ order gasLimit maxCount,
      (part.selectTransactions order gasLimit maxCount).ovf = false →
        part.Respects (part.selectTransactions order gasLimit maxCount).val) ↔ pool.Ordered := by
  constructor
  · intro hall h p k q hp hq hne hs
    have hsum := hfits h p k q hp hq hne
    have hpart := pair_partOf hp hq hne
    have hovf : ∀ gasLimit maxCount,
        ((pool.pair hp hq).selectTransactions (.listed _) gasLimit maxCount).ovf = false :=
      fun _ _ => select_pair_ovf hp hq hne _ hsum
    have hnone : p.tx.transaction.nonce ≠ q.tx.transaction.nonce := fun hn =>
      not_respects_of_same_nonce hp hq _ hne hs hsum hn (hall _ hpart _ _ _ (hovf _ _))
    refine ⟨hnone, fun hlt => ?_⟩
    have halone : ¬ (p.gasPrice < q.gasPrice ∨ q.gasPrice ≤ p.gasPrice ∧
        q.tx.transaction.gasLimit < p.tx.transaction.gasLimit) := fun hfirst =>
      not_respects_of_alone hp hq _ hne hs hsum hlt hfirst (hall _ hpart _ _ _ (hovf _ _))
    omega
  · intro h part hp order gasLimit maxCount hovf
    exact (h.part hp).respects hovf

/-- The pending nonces of every sender go on from the nonce of its account. -/
def InSequence (pool : TransactionPool P) (s : ChainState Database) : Prop :=
  ∀ a n, pool.PendingNonce a n → (accountOf s.storage.accounts a).nonce ≤ n ∧
    ∀ m, (accountOf s.storage.accounts a).nonce ≤ m → m < n → pool.PendingNonce a m

theorem Respects.nonces_eq {selected : List SignedTransaction} {s : ChainState Database}
    (h : pool.Respects selected) (hseq : pool.InSequence s)
    (hsub : ∀ stx ∈ selected, ∃ k p, pool.pending.lookup k = some p ∧ p.tx = stx) (a : Address) :
    (signedBy a selected).map (·.transaction.nonce) =
      List.range' (accountOf s.storage.accounts a).nonce (signedBy a selected).length := by
  have hpending : ∀ n ∈ (signedBy a selected).map (·.transaction.nonce), pool.PendingNonce a n := by
    intro n hn
    obtain ⟨stx, hstx, rfl⟩ := List.mem_map.mp hn
    obtain ⟨hmem, ha⟩ := List.mem_filter.mp hstx
    obtain ⟨k, p, hk, rfl⟩ := hsub stx hmem
    exact ⟨k, p, hk, of_decide_eq_true ha, rfl⟩
  have hrange := eq_range'_of_closed (h.increasing a) (fun n hn => (hseq a n (hpending n hn)).1)
    fun n hn m hm hmn => by
      have hm := (hseq a n (hpending n hn)).2 m hm hmn
      obtain ⟨stx, hstx, rfl⟩ := List.mem_map.mp hn
      exact h.initial a stx hstx m hm hmn
  rwa [List.length_map] at hrange

end TransactionPool

/-! ### Execution -/

section
variable {P : Primitives} {W : Wasmtime} {cfg : VmConfig} {ord : ℕ → HashOrders} {block : Block}
  {start : Loop W.Module Database}

/-- One of the first `i` transactions of a block had the nonce of its sender `a` at its turn, and
the sender could not pay for it. -/
def Unpaid (P : Primitives) (W : Wasmtime) (cfg : VmConfig) (ord : ℕ → HashOrders) (block : Block)
    (start : Loop W.Module Database) (a : Address) (i : ℕ) : Prop :=
  ∃ j < i, ∃ t l l', Exec.AtTurn P W cfg ord block start j t l l' ∧ t.sender = a ∧
    t.transaction.nonce = (accountOf l.accounts a).nonce ∧
    (accountOf l.accounts a).balance < t.transaction.totalCost.val

variable {stx : SignedTransaction}

theorem unpaid_succ {a : Address} {i : ℕ} {l l' : Loop W.Module Database}
    (hturn : Exec.AtTurn P W cfg ord block start i stx l l') :
    Unpaid P W cfg ord block start a (i + 1) ↔ Unpaid P W cfg ord block start a i ∨
      stx.sender = a ∧ stx.transaction.nonce = (accountOf l.accounts a).nonce ∧
        (accountOf l.accounts a).balance < stx.transaction.totalCost.val := by
  constructor
  · rintro ⟨j, hj, t, m, m', hm, ht⟩
    rcases Nat.lt_succ_iff_lt_or_eq.mp hj with hj | rfl
    · exact .inl ⟨j, hj, t, m, m', hm, ht⟩
    · obtain rfl := Option.some.inj (hm.tx.symm.trans hturn.tx)
      obtain rfl := (Prod.mk.inj (Option.some.inj (hm.before.symm.trans hturn.before))).2
      exact .inr ht
  · rintro (⟨j, hj, hrest⟩ | ht)
    · exact ⟨j, by omega, hrest⟩
    · exact ⟨i, by omega, stx, l, l', hturn, ht⟩

theorem nonce_of_range {txs : List SignedTransaction} {n₀ len i : ℕ}
    (hnonces : (signedBy stx.sender txs).map (·.transaction.nonce) = List.range' n₀ len)
    (hget : txs[i]? = some stx) :
    stx.transaction.nonce = n₀ + (signedBy stx.sender (txs.take i)).length := by
  obtain ⟨hlt, hstx⟩ := List.getElem?_eq_some_iff.mp hget
  have htxs : txs = txs.take i ++ stx :: txs.drop (i + 1) := by
    rw [← hstx, ← List.drop_eq_getElem_cons hlt, List.take_append_drop]
  have hsplit : signedBy stx.sender txs = signedBy stx.sender (txs.take i) ++
      stx :: signedBy stx.sender (txs.drop (i + 1)) := by
    conv_lhs => rw [htxs, signedBy_append]
    congr 1
    exact List.filter_cons_of_pos (decide_eq_true rfl)
  rw [hsplit, List.map_append, List.map_cons] at hnonces
  have hbound : (signedBy stx.sender (txs.take i)).length < len := by
    have hlen := congrArg List.length hnonces
    rw [List.length_append, List.length_map, List.length_cons, List.length_range'] at hlen
    omega
  have hat := congrArg (fun l => l[(signedBy stx.sender (txs.take i)).length]?) hnonces
  rw [List.getElem?_append_right (by rw [List.length_map]), List.length_map, Nat.sub_self,
    List.getElem?_cons_zero, List.getElem?_range' hbound] at hat
  have hvalue := Option.some.inj hat
  omega

theorem signedBy_take_succ {txs : List SignedTransaction} {i : ℕ} (a : Address)
    (hget : txs[i]? = some stx) :
    signedBy a (txs.take (i + 1)) =
      signedBy a (txs.take i) ++ if stx.sender = a then [stx] else [] := by
  rw [List.take_add_one, hget, Option.toList_some, signedBy_append]
  congr 1
  split_ifs with hs <;> simp [signedBy, hs]

/-- **The nonce of the sender over its own transaction**, which carries the nonce `n`: a nonce that
was behind `n` falls further behind, and one that was not does if the sender cannot pay. -/
theorem nonceAfter_own {M : Type} {l : Loop M Database} {n : ℕ} {behind : Prop}
    (hnonce : stx.transaction.nonce = n) (hlt : n + 1 < 2 ^ 64)
    (hle : (accountOf l.accounts stx.sender).nonce ≤ n)
    (hiff : (accountOf l.accounts stx.sender).nonce = n ↔ ¬ behind) :
    Exec.nonceAfter l stx ≤ n + 1 ∧
      (Exec.nonceAfter l stx = n + 1 ↔ ¬ (behind ∨
        stx.transaction.nonce = (accountOf l.accounts stx.sender).nonce ∧
          (accountOf l.accounts stx.sender).balance < stx.transaction.totalCost.val)) := by
  unfold Exec.nonceAfter
  by_cases hbehind : behind
  · have hne := mt hiff.mp (not_not.mpr hbehind)
    rw [if_neg fun hp => hne (hp.1.symm.trans hnonce)]
    exact ⟨by omega, iff_of_false (by omega) (not_not.mpr (.inl hbehind))⟩
  · have heq := hiff.mpr hbehind
    by_cases hpays : stx.transaction.totalCost.val ≤ (accountOf l.accounts stx.sender).balance
    · rw [if_pos ⟨hnonce.trans heq.symm, hpays⟩, Nat.mod_eq_of_lt (by omega)]
      refine ⟨by omega, iff_of_true (by omega) ?_⟩
      rintro (h | ⟨-, hpoor⟩)
      · exact hbehind h
      · omega
    · rw [if_neg fun hp => hpays hp.2]
      refine ⟨by omega, iff_of_false (by omega) (not_not.mpr (.inr ⟨?_, by omega⟩))⟩
      exact hnonce.trans heq.symm

/-- **The nonce of a sender during a block** whose transactions carry the next nonces: it counts
them until the sender cannot pay, and then stays. -/
theorem nonce_at_turn {a : Address} {n₀ len : ℕ}
    (hnonces : (signedBy a block.transactions).map (·.transaction.nonce) = List.range' n₀ len)
    (hstart : (accountOf start.accounts a).nonce = n₀)
    (hfree : ∀ d ∈ block.transactions, ¬ Exec.DeployedAt P block d a) :
    ∀ {i : ℕ} {l : Loop W.Module Database}, i ≤ block.transactions.length →
      Exec.executeTxs P W cfg ord block 0 (block.transactions.take i) start = some ((), l) →
      n₀ + (signedBy a (block.transactions.take i)).length < 2 ^ 64 →
      (accountOf l.accounts a).nonce ≤ n₀ + (signedBy a (block.transactions.take i)).length ∧
        ((accountOf l.accounts a).nonce = n₀ + (signedBy a (block.transactions.take i)).length ↔
          ¬ Unpaid P W cfg ord block start a i) := by
  intro i
  induction i with
  | zero =>
    intro l _ h _
    obtain ⟨-, rfl⟩ := Lib.Partial.pure_eq_some h
    have hnone : ¬ Unpaid P W cfg ord block start a 0 := by
      rintro ⟨j, hj, -⟩
      omega
    exact ⟨hstart.le, iff_of_true hstart hnone⟩
  | succ i ih =>
    intro l' hi h hlt
    have hget : block.transactions[i]? = some block.transactions[i] :=
      List.getElem?_eq_getElem hi
    generalize block.transactions[i] = stx at hget
    obtain ⟨l, hturn⟩ := Exec.exists_turn_of_take hget h
    rw [unpaid_succ hturn]
    rw [signedBy_take_succ a hget, List.length_append] at hlt ⊢
    obtain ⟨hle, hiff⟩ := ih (by omega) hturn.before (by omega)
    have heffect := Exec.executeTx_effect hturn.step
    by_cases hs : stx.sender = a
    · subst hs
      obtain ⟨b, hb⟩ := heffect.sender
      have hafter : (accountOf l'.accounts stx.sender).nonce = Exec.nonceAfter l stx := by rw [hb]
      rw [if_pos rfl, List.length_singleton, ← Nat.add_assoc] at hlt ⊢
      simpa [hafter] using nonceAfter_own (nonce_of_range hnonces hget) hlt hle hiff
    · have hsame : (accountOf l'.accounts a).nonce = (accountOf l.accounts a).nonce := by
        rcases heffect.others a (Ne.symm hs) with ⟨b, hb⟩ | ⟨hdep, -⟩
        · rw [hb]
        · exact absurd hdep (hfree stx (List.mem_of_getElem? hget))
      rw [if_neg hs, List.length_nil, Nat.add_zero, hsame]
      simpa [hs] using ⟨hle, hiff⟩

end

namespace Small

def twoPayments (first second : ℕ) : TransactionPool .small :=
  (engineWith [priced 0 first, priced 1 second]).txPool

def takenOf (first second : ℕ) : List SignedTransaction :=
  ((twoPayments first second).selectTransactions (.listed _) (10 ^ 7) 10).val

def takenBlock (first second : ℕ) : Block := next genesisBlock (takenOf first second)

theorem takenBlock_transactions (first second : ℕ) : (takenBlock first second).transactions =
    ((twoPayments first second).selectTransactions (.listed _) (10 ^ 7) 10).val := rfl

theorem forall_lookup {pool : TransactionPool .small} {p : Blake3Hash → PooledTransaction → Prop}
    (h : ∀ e ∈ pool.pending.entries, p e.1 e.2) {k : Blake3Hash} {x : PooledTransaction}
    (hx : pool.pending.lookup k = some x) : p k x :=
  h ⟨k, x⟩ (AList.mem_lookup_iff.mp hx)

structure Evaluated (first second : ℕ) (taken : List SignedTransaction) : Prop where
  entries : ∀ e ∈ (twoPayments first second).pending.entries,
    e.2.tx.sender = (KeyPair.small 2).address .small ∧ e.2.tx.transaction.nonce < 2 ∧
      e.2.tx.transaction.gasLimit = 50000
  zeroth : ∃ e ∈ (twoPayments first second).pending.entries,
    e.2.tx.sender = (KeyPair.small 2).address .small ∧ e.2.tx.transaction.nonce = 0
  selects : takenOf first second = taken

instance (first second : ℕ) (taken : List SignedTransaction) :
    Decidable (Evaluated first second taken) :=
  decidable_of_iff ((∀ e ∈ (twoPayments first second).pending.entries,
      e.2.tx.sender = (KeyPair.small 2).address .small ∧ e.2.tx.transaction.nonce < 2 ∧
        e.2.tx.transaction.gasLimit = 50000) ∧
      (∃ e ∈ (twoPayments first second).pending.entries,
        e.2.tx.sender = (KeyPair.small 2).address .small ∧ e.2.tx.transaction.nonce = 0) ∧
      takenOf first second = taken)
    ⟨fun h => ⟨h.1, h.2.1, h.2.2⟩, fun h => ⟨h.entries, h.zeroth, h.selects⟩⟩

theorem Evaluated.inSequence {first second : ℕ} {taken : List SignedTransaction}
    (h : Evaluated first second taken) : (twoPayments first second).InSequence start := by
  have hzero : ∀ a, (accountOf start.storage.accounts a).nonce = 0 := nonce_started started
  rintro a n ⟨k, p, hp, rfl, rfl⟩
  obtain ⟨hsender, hn, -⟩ := forall_lookup (p := fun _ p =>
    p.tx.sender = (KeyPair.small 2).address .small ∧ p.tx.transaction.nonce < 2 ∧
      p.tx.transaction.gasLimit = 50000) h.entries hp
  refine ⟨by rw [hzero]; exact Nat.zero_le _, fun m _ hm => ?_⟩
  obtain ⟨e, he, hes, hen⟩ := h.zeroth
  exact ⟨e.1, e.2, AList.mem_lookup_iff.mpr he, hes.trans hsender.symm, by omega⟩

theorem orderly : Evaluated 2 1 [priced 0 2, priced 1 1] ∧ (twoPayments 2 1).Ordered ∧
    ((twoPayments 2 1).selectTransactions (.listed _) (10 ^ 7) 10).ovf = false := by
  have hall : Evaluated 2 1 [priced 0 2, priced 1 1] ∧
    (∀ e ∈ (twoPayments 2 1).pending.entries, ∀ f ∈ (twoPayments 2 1).pending.entries,
      e.1 ≠ f.1 → e.2.tx.transaction.nonce ≠ f.2.tx.transaction.nonce ∧
        (e.2.tx.transaction.nonce < f.2.tx.transaction.nonce → f.2.gasPrice ≤ e.2.gasPrice)) ∧
    ((twoPayments 2 1).selectTransactions (.listed _) (10 ^ 7) 10).ovf = false := by
    decide +kernel
  obtain ⟨heval, hordered, hovf⟩ := hall
  refine ⟨heval, fun h p k q hp hq hne _ => ?_, hovf⟩
  have hp := AList.mem_lookup_iff.mp hp
  have hq := AList.mem_lookup_iff.mp hq
  obtain ⟨hnonce, hprice⟩ := hordered _ hp _ hq hne
  refine ⟨hnonce, fun hlt => ⟨hprice hlt, ?_⟩⟩
  rw [(heval.entries _ hp).2.2, (heval.entries _ hq).2.2]

theorem hasty : Evaluated 1 2 [priced 1 2, priced 0 1] := by decide +kernel

theorem dear : Evaluated 100 1 [priced 0 100, priced 1 1] := by decide +kernel

end Small

end Rustchain.Consensus

import Rustchain.Lib.Payments
import Rustchain.Vm.Deltas

/-! # The deltas as a ledger

Calls of `transfer` in one context only write balance deltas, over accounts that a state reader
reads. As long as the balances of the reader stay below `2 ^ 127` in total, base and delta together
are the ledger that the payments make of the balances: every call is answered as the plain ledger
answers it, unless the reader fails, and no operation on `i128` overflows
(`transfers_form_ledger`). -/

namespace Rustchain.Vm

open Rustchain.Core Storage Lib.Machine Lib.Maps Lib.Partial Lib.Payments

variable {M σ : Type}

/-! ### State readers -/

/-- **A state reader** with the given balances: in the states `Q`, which reading keeps, it reads the
balance of an address, `0` if it finds no account, or fails with a message that it may fail with. -/
structure Reads [Backend σ] (base : Address → ℕ) (fails : Address → String → Prop)
    (Q : σ → Prop) : Prop where
  kept : ∀ a s, Q s → Q (getAccount a s).2
  read : ∀ a s account, Q s → (getAccount a s).1 = .ok account →
    (account.map (·.balance)).getD 0 = base a
  failed : ∀ a s e, Q s → (getAccount a s).1 = .error e → fails a e.display

theorem reads_database (d : Database) :
    Reads (storedBalance d) (fun _ _ => False) (fun s : Database => s = d) where
  kept _ _ h := h
  read := by
    rintro a s account rfl h
    rw [← Except.ok.inj h]
    rfl
  failed _ _ _ _ h := nomatch h

theorem reads_faultyStore (d : Database) (e : StorageError) :
    Reads (storedBalance d) (fun _ msg => msg = e.display)
      (fun s : FaultyStore => s.content = d ∧ s.error = e) where
  kept := by
    rintro a s ⟨rfl, rfl⟩
    show (Backend.perform _ id s).2.content = _ ∧ (Backend.perform _ id s).2.error = _
    dsimp only [Backend.perform]
    split_ifs <;> exact ⟨rfl, rfl⟩
  read := by
    rintro a s account ⟨rfl, rfl⟩ h
    unfold getAccount Storage.read at h
    dsimp only [Backend.perform] at h
    split_ifs at h
    · exact nomatch h
    · rw [← Except.ok.inj h]
      rfl
  failed := by
    rintro a s e' ⟨rfl, rfl⟩ h
    unfold getAccount Storage.read at h
    dsimp only [Backend.perform] at h
    split_ifs at h
    · rw [← Except.error.inj h]
    · exact nomatch h

theorem below_storedBalance {d : Database} {bound : ℕ}
    (h : total (·.balance) d.accounts < bound) : Below bound (storedBalance d) := by
  intro S
  rw [total_eq_sum _ (S ∪ d.accounts.keys) _ fun k hk =>
    Finset.mem_union_right _ (Finmap.mem_keys.mpr hk)] at h
  exact lt_of_le_of_lt (Finset.sum_le_sum_of_subset Finset.subset_union_left) h

/-! ### Calls and what they do to a plain ledger -/

/-- The arguments of a call of `transfer`. -/
structure TransferCall where
  source : Address
  target : Address
  amount : ℕ
  deriving DecidableEq

/-- What `transfer` answers to an account that holds too little. -/
def insufficient (held amount : ℕ) : VmError :=
  .hostFunction s!"insufficient balance: have {held}, need {amount}"

/-- The calls on a plain ledger: a call that succeeds is paid, one that the account does not cover
is refused, and one that the reader fails on is not executed. -/
inductive Settles (fails : Address → String → Prop) :
    (Address → ℕ) → List (TransferCall × Except VmError Unit) → (Address → ℕ) → Prop
  | nil (l) : Settles fails l [] l
  | paid {l l' l'' t log} (h : pay l t.source t.target t.amount = some l')
      (rest : Settles fails l' log l'') : Settles fails l ((t, .ok ()) :: log) l''
  | refused {l l'' t log} (h : pay l t.source t.target t.amount = none)
      (rest : Settles fails l log l'') :
      Settles fails l ((t, .error (insufficient (l t.source) t.amount)) :: log) l''
  | unread {l l'' t log msg} (h : fails t.source msg) (rest : Settles fails l log l'') :
      Settles fails l ((t, .error (.state msg)) :: log) l''

/-! ### The deltas as a ledger -/

/-- **The context mirrors the ledger**: base and delta together are its amounts, no operation
overflowed so far, and the deltas sum to zero. -/
structure Mirrors (base l : Address → ℕ) (s : VmState M σ) : Prop where
  amount : ∀ a, (base a : ℤ) + s.context.delta a = l a
  deltaSum : s.context.deltaSum = 0
  overflow : s.overflow = false

variable {base l : Address → ℕ} {fails : Address → String → Prop} {Q : σ → Prop}
  {s : VmState M σ}

theorem Mirrors.withStorage (h : Mirrors base l s) (t : σ) :
    Mirrors base l { s with storage := t } :=
  ⟨h.amount, h.deltaSum, h.overflow⟩

theorem amount_withDelta {c : ExecutionContext} (h : ∀ a, (base a : ℤ) + c.delta a = l a)
    (a : Address) {d : ℤ} {n : ℕ} (hn : (base a : ℤ) + d = n) (b : Address) :
    (base b : ℤ) + (c.withDelta a d).delta b = Function.update l a n b := by
  rw [delta_withDelta, Function.update_apply]
  split_ifs with hb
  · rw [hb, hn]
  · exact h b

theorem mirrors_base (hc : s.context.balanceChanges = ∅) (ho : s.overflow = false) :
    Mirrors base base s := by
  refine ⟨fun a => ?_, ?_, ho⟩
  · unfold ExecutionContext.delta
    rw [hc, AList.lookup_empty, Option.getD_none, Int.add_zero]
  · unfold ExecutionContext.deltaSum
    rw [hc]
    rfl

theorem moved_of_pay (hbase : Below (2 ^ 127) base) (hl : Below (2 ^ 127) l)
    {c : ExecutionContext} (h : ∀ a, (base a : ℤ) + c.delta a = l a) {source target : Address}
    {amount : ℕ} {l' : Address → ℕ} (hp : pay l source target amount = some l') :
    (c.moved source target amount).ovf = false ∧
      ∀ a, (base a : ℤ) + (c.moved source target amount).val.delta a = l' a := by
  have hle : amount ≤ l source := by
    by_contra hlt
    rw [pay_of_lt (Nat.lt_of_not_le hlt)] at hp
    exact nomatch hp
  have hl' := hl.pay hp
  rw [pay_of_le hle] at hp
  obtain rfl := Option.some.inj hp
  have hsource := h source
  have hsource_lt := hl.lt source
  have hbase_source := hbase.lt source
  have hsub : subI 128 (c.delta source) amount = ⟨c.delta source - amount, false⟩ :=
    fitI_128 (by omega) (by omega)
  -- The source's delta is written first, so that of the target is read after it.
  have htaken := amount_withDelta (n := l source - amount) (d := c.delta source - amount) h source
    (by omega)
  have htarget := htaken target
  have htarget_lt := hl'.lt target
  rw [Function.update_self] at htarget_lt
  have hbase_target := hbase.lt target
  have hadd : addI 128 ((c.withDelta source (c.delta source - amount)).delta target) amount =
      ⟨(c.withDelta source (c.delta source - amount)).delta target + amount, false⟩ :=
    fitI_128 (by omega) (by omega)
  unfold ExecutionContext.moved
  simp only [ovf_bind, val_bind, hsub, hadd]
  refine ⟨rfl, amount_withDelta htaken target ?_⟩
  rw [← Int.add_assoc, htarget, Int.natCast_add]

/-! ### Calls -/

variable [Backend σ]

def TransferCall.run (t : TransferCall) : VmM M σ (Except VmError Unit) :=
  transfer t.source t.target t.amount

/-- Calls of `transfer` one after the other, with their answers. -/
def transfers : List TransferCall → VmM M σ (List (Except VmError Unit))
  | [] => return []
  | t :: calls => do
    let answer ← t.run
    let answers ← transfers calls
    return answer :: answers

theorem getBalance_of_mirrors (hr : Reads base fails Q) (hbase : Below (2 ^ 127) base)
    (hl : Below (2 ^ 127) l) (hQ : Q s.storage) (h : Mirrors base l s) (a : Address) :
    ∃ t, Q t ∧ (getBalance a s = some (.ok (l a), { s with storage := t }) ∨
      ∃ msg, fails a msg ∧
        getBalance a s = some (.error (.state msg), { s with storage := t })) := by
  refine ⟨(getAccount a s.storage).2, hr.kept a _ hQ, ?_⟩
  cases haccount : (getAccount a s.storage).1 with
  | ok account =>
    left
    rw [getBalance_of_ok (Prod.ext haccount rfl), hr.read a _ _ hQ haccount,
      seenBalance_of_below (hbase.lt a) (hl.lt a) (h.amount a), Bool.or_false]
  | error e =>
    exact .inr ⟨_, hr.failed a _ _ hQ haccount, getBalance_of_error (Prod.ext haccount rfl)⟩

/-- **One call** is answered as the plain ledger answers it, or the reader fails, and the context
mirrors the ledger after it. -/
theorem run_of_mirrors (hr : Reads base fails Q) (hbase : Below (2 ^ 127) base)
    (hl : Below (2 ^ 127) l) (hQ : Q s.storage) (h : Mirrors base l s) (t : TransferCall) :
    ∃ answer s' l', t.run s = some (answer, s') ∧ Q s'.storage ∧ Mirrors base l' s' ∧
      Below (2 ^ 127) l' ∧
      ∀ {log l''}, Settles fails l' log l'' → Settles fails l ((t, answer) :: log) l'' := by
  obtain ⟨u, hu, hbalance | ⟨msg, hmsg, hbalance⟩⟩ :=
    getBalance_of_mirrors hr hbase hl hQ h t.source
  · obtain hlt | hle := Nat.lt_or_ge (l t.source) t.amount
    · exact ⟨_, _, l, transfer_of_lt hbalance hlt, hu, h.withStorage u, hl,
        .refused (pay_of_lt hlt)⟩
    · obtain ⟨l', hp⟩ : ∃ l', pay l t.source t.target t.amount = some l' := ⟨_, pay_of_le hle⟩
      have hsigned : toSigned 128 t.amount = ⟨t.amount, false⟩ :=
        have hlt := hl.lt t.source
        fitI_128 (by omega) (by omega)
      obtain ⟨hovf, hamount⟩ := moved_of_pay hbase hl h.amount hp
      have hrun := (transfer_of_le hbalance hle : t.run s = _)
      rw [hsigned] at hrun
      refine ⟨_, _, l', hrun, hu, ⟨hamount, ?_, ?_⟩, hl.pay hp, .paid hp⟩
      · rw [ExecutionContext.deltaSum_moved hovf]
        exact h.deltaSum
      · show (s.overflow || (false || _)) = false
        rw [h.overflow, hovf]
        rfl
  · exact ⟨_, _, l, transfer_of_error hbalance, hu, h.withStorage u, hl, .unread hmsg⟩

theorem transfers_of_mirrors (hr : Reads base fails Q) (hbase : Below (2 ^ 127) base) :
    ∀ (calls : List TransferCall) {l : Address → ℕ} {s : VmState M σ}, Below (2 ^ 127) l →
      Q s.storage → Mirrors base l s → ∃ answers s' l', transfers calls s = some (answers, s') ∧
        answers.length = calls.length ∧ Settles fails l (calls.zip answers) l' ∧
        Q s'.storage ∧ Mirrors base l' s' ∧ Below (2 ^ 127) l'
  | [], l, s, hl, hQ, h => ⟨[], s, l, rfl, rfl, .nil l, hQ, h, hl⟩
  | t :: calls, l, s, hl, hQ, h => by
    obtain ⟨answer, s₁, l₁, hrun, hQ₁, h₁, hl₁, hsettles⟩ := run_of_mirrors hr hbase hl hQ h t
    obtain ⟨answers, s', l', hruns, hlength, hrest, hQ', h', hl'⟩ :=
      transfers_of_mirrors hr hbase calls hl₁ hQ₁ h₁
    refine ⟨answer :: answers, s', l', ?_, congrArg Nat.succ hlength, hsettles hrest, hQ', h', hl'⟩
    unfold transfers
    rw [bind_of_eq hrun, bind_of_eq hruns, pure_apply]

theorem context_getBalance {a : Address} {r : Except VmError ℕ} {s' : VmState M σ}
    (h : getBalance a s = some (r, s')) : s'.context = s.context := by
  cases haccount : (getAccount a s.storage).1 with
  | ok account =>
    rw [getBalance_of_ok (Prod.ext haccount rfl)] at h
    rw [← (some_pair_inj h).2]
  | error e =>
    rw [getBalance_of_error (Prod.ext haccount rfl)] at h
    rw [← (some_pair_inj h).2]

/-- A call that is answered with an error writes no delta, in any context and for any reader. -/
theorem context_of_error {t : TransferCall} {e : VmError} {s' : VmState M σ}
    (h : t.run s = some (.error e, s')) : s'.context = s.context := by
  unfold TransferCall.run at h
  obtain ⟨r, u, hbalance, -⟩ := bind_eq_some.mp h
  refine Eq.trans ?_ (context_getBalance hbalance)
  cases r with
  | error e' =>
    rw [transfer_of_error hbalance] at h
    rw [(some_pair_inj h).2]
  | ok held =>
    obtain hlt | hle := Nat.lt_or_ge held t.amount
    · rw [transfer_of_lt hbalance hlt] at h
      rw [(some_pair_inj h).2]
    · rw [transfer_of_le hbalance hle] at h
      exact nomatch (some_pair_inj h).1

/-- **Transfers form a conserving ledger.** From a context without deltas, over a reader whose
balances total less than `2 ^ 127`, any calls are answered as on a plain ledger. After them the
deltas sum to zero, no balance is clamped, no operation overflowed, a balance query sees the amount
of the ledger unless the reader fails, and a call that is answered with an error leaves the deltas
as they are. Since the calls are any, this holds after each of them. -/
theorem transfers_form_ledger (hr : Reads base fails Q) (hbase : Below (2 ^ 127) base)
    (hQ : Q s.storage) (hc : s.context.balanceChanges = ∅) (ho : s.overflow = false)
    (calls : List TransferCall) :
    ∃ answers s' l, transfers calls s = some (answers, s') ∧ answers.length = calls.length ∧
      Settles fails base (calls.zip answers) l ∧
      s'.context.deltaSum = 0 ∧
      (∀ a, 0 ≤ (base a : ℤ) + s'.context.delta a) ∧
      s'.overflow = false ∧
      (∀ a, ∃ r s'', getBalance a s' = some (r, s'') ∧ s''.overflow = false ∧
        (r = .ok (l a) ∨ ∃ msg, fails a msg ∧ r = .error (.state msg))) ∧
      ∀ (t : TransferCall) e s'', t.run s' = some (.error e, s'') →
        s''.context.balanceChanges = s'.context.balanceChanges := by
  obtain ⟨answers, s', l, hruns, hlength, hsettles, hQ', h, hl⟩ :=
    transfers_of_mirrors hr hbase calls hbase hQ (mirrors_base hc ho)
  refine ⟨answers, s', l, hruns, hlength, hsettles, h.deltaSum, fun a => ?_, h.overflow,
    fun a => ?_, fun t e s'' herror => by rw [context_of_error herror]⟩
  · rw [h.amount a]
    exact Int.natCast_nonneg _
  · obtain ⟨u, -, hbalance | ⟨msg, hmsg, hbalance⟩⟩ :=
      getBalance_of_mirrors hr hbase hl hQ' h a
    · exact ⟨_, _, hbalance, h.overflow, .inl rfl⟩
    · exact ⟨_, _, hbalance, h.overflow, .inr ⟨msg, hmsg, rfl⟩⟩

/-- The zero address with a balance of `10`. -/
def tenAtZero : Database := Database.empty.putAccount (Account.new .zero 10)

/-- Two calls that the balance covers, the second back to the payer, and one that it does not. -/
def threeCalls : List TransferCall :=
  [⟨.zero, ⟨Vector.replicate 20 1⟩, 4⟩, ⟨.zero, .zero, 6⟩, ⟨.zero, .zero, 7⟩]

theorem three_calls_settle : total (·.balance) tenAtZero.accounts < 2 ^ 127 ∧
    ∃ answers s' l,
      transfers threeCalls (⟨.blank, tenAtZero, ∅, false⟩ : VmState Unit Database) =
        some (answers, s') ∧ answers.length = threeCalls.length ∧
      Settles (fun _ _ => False) (storedBalance tenAtZero) (threeCalls.zip answers) l ∧
      s'.context.deltaSum = 0 ∧
      (∀ a, 0 ≤ (storedBalance tenAtZero a : ℤ) + s'.context.delta a) ∧
      s'.overflow = false ∧
      (∀ a, ∃ r s'', getBalance a s' = some (r, s'') ∧ s''.overflow = false ∧
        (r = .ok (l a) ∨ ∃ msg, False ∧ r = .error (.state msg))) ∧
      ∀ (t : TransferCall) e s'', t.run s' = some (.error e, s'') →
        s''.context.balanceChanges = s'.context.balanceChanges :=
  have hlt : total (·.balance) tenAtZero.accounts < 2 ^ 127 := by decide
  ⟨hlt, transfers_form_ledger (reads_database tenAtZero) (below_storedBalance hlt) rfl rfl rfl
    threeCalls⟩

end Rustchain.Vm

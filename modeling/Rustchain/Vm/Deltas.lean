import Mathlib.Algebra.Ring.Int.Defs
import Rustchain.Vm.Relations

/-! # Balance deltas of an execution

A transfer takes from the delta of the contract what it adds to the delta of the target, so the
deltas of an execution without overflow sum to zero. -/

namespace Rustchain.Vm

open Rustchain.Core Storage Lib.Machine Lib.Maps Lib.Partial

def ExecutionContext.deltaSum (c : ExecutionContext) : ℤ := total id c.balanceChanges.toFinmap

theorem ExecutionContext.weightAt_delta (c : ExecutionContext) (a : Address) :
    weightAt id c.balanceChanges.toFinmap a = c.delta a := by
  unfold weightAt ExecutionContext.delta
  rw [Finmap.lookup_toFinmap, Option.map_id_fun, id]

def ExecutionContext.withDelta (c : ExecutionContext) (a : Address) (d : ℤ) : ExecutionContext :=
  { c with balanceChanges := c.balanceChanges.insert a d }

theorem ExecutionContext.deltaSum_withDelta (c : ExecutionContext) (a : Address) (d : ℤ) :
    (c.withDelta a d).deltaSum = c.deltaSum - c.delta a + d := by
  have h := total_insert id c.balanceChanges.toFinmap a d
  rw [c.weightAt_delta, id, Finmap.insert_toFinmap] at h
  show total id (c.balanceChanges.insert a d).toFinmap = _
  unfold ExecutionContext.deltaSum
  omega

theorem delta_withDelta (c : ExecutionContext) (a b : Address) (d : ℤ) :
    (c.withDelta a d).delta b = if b = a then d else c.delta b := by
  unfold ExecutionContext.withDelta ExecutionContext.delta
  dsimp only
  split_ifs with hb
  · rw [hb, AList.lookup_insert, Option.getD_some]
  · rw [AList.lookup_insert_ne hb]

theorem fitI_128 {a : ℤ} (hlo : -2 ^ 127 ≤ a) (hhi : a < 2 ^ 127) : fitI 128 a = ⟨a, false⟩ :=
  if_pos ⟨hlo, hhi⟩

section
variable {M σ : Type}

theorem arith_run {α : Type} (x : Flagged α) (s : VmState M σ) :
    arith x s = some (x.val, { s with overflow := s.overflow || x.ovf }) := rfl

theorem getContext_run (s : VmState M σ) : getContext s = some (s.context, s) := rfl

theorem storageRead_run (a : Address) (k : Bytes) (s : VmState M Database) :
    storageRead a k s = some (.ok ((s.context.storageChanges.lookup (a, k)).getD
      (s.storage.contractStorage.lookup (contractStorageKey a k))), s) := by
  unfold storageRead
  rw [bind_of_eq (getContext_run _)]
  cases s.context.storageChanges.lookup (a, k) <;> rfl

theorem setDelta_run (a : Address) (d : ℤ) (s : VmState M σ) :
    setDelta a d s = some ((), { s with context := s.context.withDelta a d }) := rfl

/-- The balance of an address in a database, `0` if there is no account. -/
def storedBalance (d : Database) (a : Address) : ℕ :=
  ((d.accounts.lookup a).map (·.balance)).getD 0

/-- What a balance and a delta make together: their sum, `0` if it is negative. -/
def seenBalance (stored : ℕ) (delta : ℤ) : Flagged ℕ := do
  let base ← toSigned 128 stored
  let sum ← addI 128 base delta
  return (max sum 0).toNat

theorem seenBalance_ovf (stored : ℕ) (delta : ℤ) : (seenBalance stored delta).ovf =
    ((toSigned 128 stored).ovf || (addI 128 (toSigned 128 stored).val delta).ovf) := by
  unfold seenBalance
  rw [ovf_bind, ovf_bind, ovf_pure, Bool.or_false]

theorem seenBalance_val (stored : ℕ) (delta : ℤ) : (seenBalance stored delta).val =
    (max (addI 128 (toSigned 128 stored).val delta).val 0).toNat := by
  unfold seenBalance
  rw [val_bind, val_bind, val_pure]

theorem seenBalance_of_below {b n : ℕ} {d : ℤ} (hb : b < 2 ^ 127) (hn : n < 2 ^ 127)
    (h : (b : ℤ) + d = n) : seenBalance b d = ⟨n, false⟩ := by
  have hsigned : toSigned 128 b = ⟨b, false⟩ := fitI_128 (by omega) (by omega)
  have hsum : addI 128 b d = ⟨n, false⟩ := by
    unfold addI
    rw [h]
    exact fitI_128 (by omega) (by omega)
  refine Flagged.ext ?_ ?_
  · rw [seenBalance_val, hsigned, hsum]
    show (max (n : ℤ) 0).toNat = n
    omega
  · rw [seenBalance_ovf, hsigned, hsum]
    rfl

theorem getBalance_of_ok [Backend σ] {a : Address} {s : VmState M σ} {account : Option Account}
    {t : σ} (h : getAccount a s.storage = (.ok account, t)) :
    getBalance a s =
      some (.ok (seenBalance ((account.map (·.balance)).getD 0) (s.context.delta a)).val,
        { s with
          storage := t
          overflow := s.overflow ||
            (seenBalance ((account.map (·.balance)).getD 0) (s.context.delta a)).ovf }) := by
  have hread : readState (getAccount a) s = some (.ok account, { s with storage := t }) := by
    unfold readState
    rw [h]
    rfl
  unfold getBalance
  rw [bind_of_eq hread]
  dsimp only
  rw [bind_of_eq (getContext_run _), bind_of_eq (arith_run _ _), bind_of_eq (arith_run _ _)]
  rw [pure_apply, seenBalance_ovf, seenBalance_val, ← Bool.or_assoc]

theorem getBalance_of_error [Backend σ] {a : Address} {s : VmState M σ} {e : StorageError} {t : σ}
    (h : getAccount a s.storage = (.error e, t)) :
    getBalance a s = some (.error (.state e.display), { s with storage := t }) := by
  have hread : readState (getAccount a) s =
      some (.error (.state e.display), { s with storage := t }) := by
    unfold readState
    rw [h]
    rfl
  unfold getBalance
  rw [bind_of_eq hread]
  rfl

theorem getBalance_run (a : Address) (s : VmState M Database) :
    getBalance a s =
      some (.ok (seenBalance (storedBalance s.storage a) (s.context.delta a)).val,
        { s with overflow := s.overflow ||
          (seenBalance (storedBalance s.storage a) (s.context.delta a)).ovf }) :=
  getBalance_of_ok rfl

/-- The context after a transfer: the amount moves from one delta to the other. -/
def ExecutionContext.moved (c : ExecutionContext) (source target : Address) (a : ℤ) :
    Flagged ExecutionContext := do
  let d ← subI 128 (c.delta source) a
  let c := c.withDelta source d
  let d ← addI 128 (c.delta target) a
  return c.withDelta target d

variable {source target : Address}

theorem ExecutionContext.deltaSum_moved {c : ExecutionContext} {a : ℤ}
    (h : (c.moved source target a).ovf = false) :
    (c.moved source target a).val.deltaSum = c.deltaSum := by
  unfold ExecutionContext.moved at h ⊢
  simp only [ovf_bind, val_bind, Bool.or_eq_false_iff] at h ⊢
  obtain ⟨hsub, hadd, -⟩ := h
  rw [show (subI 128 (c.delta source) a).val = _ from fitI_val hsub] at hadd ⊢
  rw [show (addI 128 ((c.withDelta source _).delta target) a).val = _ from fitI_val hadd]
  show ((c.withDelta source _).withDelta target _).deltaSum = _
  rw [deltaSum_withDelta, deltaSum_withDelta]
  omega

theorem transfer_of_error [Backend σ] {amount : ℕ} {s t : VmState M σ} {e : VmError}
    (h : getBalance source s = some (.error e, t)) :
    transfer source target amount s = some (.error e, t) := by
  unfold transfer
  rw [bind_of_eq h]
  rfl

theorem transfer_of_lt [Backend σ] {amount held : ℕ} {s t : VmState M σ}
    (h : getBalance source s = some (.ok held, t)) (hlt : held < amount) :
    transfer source target amount s =
      some (.error (.hostFunction s!"insufficient balance: have {held}, need {amount}"), t) := by
  unfold transfer
  rw [bind_of_eq h]
  dsimp only
  rw [if_pos hlt]
  rfl

theorem transfer_of_le [Backend σ] {amount held : ℕ} {s t : VmState M σ}
    (h : getBalance source s = some (.ok held, t)) (hle : amount ≤ held) :
    transfer source target amount s = some (.ok (), { t with
      context := (t.context.moved source target (toSigned 128 amount).val).val
      overflow := t.overflow || ((toSigned 128 amount).ovf ||
        (t.context.moved source target (toSigned 128 amount).val).ovf) }) := by
  unfold transfer
  rw [bind_of_eq h]
  dsimp only
  rw [if_neg (Nat.not_lt.mpr hle), bind_of_eq (arith_run _ _), bind_of_eq (getContext_run _),
    bind_of_eq (arith_run _ _), bind_of_eq (setDelta_run _ _ _), bind_of_eq (getContext_run _),
    bind_of_eq (arith_run _ _), bind_of_eq (setDelta_run _ _ _), pure_apply]
  unfold ExecutionContext.moved
  simp only [ovf_bind, val_bind, ovf_pure, val_pure, Bool.or_false, Bool.or_assoc]

theorem transfer_spec {amount : ℕ} {s s' : VmState M Database} {r : Except VmError Unit}
    (h : transfer source target amount s = some (r, s')) :
    ∃ c ov, s' = { s with context := c, overflow := ov } ∧
      (ov = false → s.overflow = false ∧ c.deltaSum = s.context.deltaSum) := by
  obtain hlt | hle := Nat.lt_or_ge
    (seenBalance (storedBalance s.storage source) (s.context.delta source)).val amount
  · rw [transfer_of_lt (getBalance_run source s) hlt] at h
    obtain ⟨-, rfl⟩ := some_pair_inj h
    exact ⟨s.context, _, rfl, fun h => ⟨(Bool.or_eq_false_iff.mp h).1, rfl⟩⟩
  · rw [transfer_of_le (getBalance_run source s) hle] at h
    obtain ⟨-, rfl⟩ := some_pair_inj h
    refine ⟨_, _, rfl, fun h => ?_⟩
    obtain ⟨h, hmoved⟩ := Bool.or_eq_false_iff.mp h
    exact ⟨(Bool.or_eq_false_iff.mp h).1,
      ExecutionContext.deltaSum_moved (Bool.or_eq_false_iff.mp hmoved).2⟩

end

/-! ### Executions keep the deltas balanced -/

/-- An overflow is not forgotten, and deltas that sum to zero still do as long as there is none. -/
def Balanced {M : Type} (s s' : VmState M Database) : Prop :=
  s'.overflow = false →
    s.overflow = false ∧ (s.context.deltaSum = 0 → s'.context.deltaSum = 0)

theorem balanced_of_deltas {M : Type} {s s' : VmState M Database}
    (hc : s'.context.balanceChanges = s.context.balanceChanges)
    (ho : s'.overflow = false → s.overflow = false) : Balanced s s' := by
  refine fun h => ⟨ho h, fun h0 => ?_⟩
  unfold ExecutionContext.deltaSum at h0 ⊢
  rwa [hc]

theorem Balanced.trans {M : Type} {s t u : VmState M Database} (h1 : Balanced s t)
    (h2 : Balanced t u) : Balanced s u := by
  intro h
  obtain ⟨ht, h2⟩ := h2 h
  obtain ⟨hs, h1⟩ := h1 ht
  exact ⟨hs, fun h0 => h2 (h1 h0)⟩

theorem balanced_modifyContext {M : Type} {f : ExecutionContext → ExecutionContext}
    (hf : ∀ c, (f c).balanceChanges = c.balanceChanges) :
    Keeps Balanced (modifyContext f : VmM M Database Unit) :=
  keeps_of_apply (fun _ => rfl) fun _ => balanced_of_deltas (hf _) id

theorem balanced_readState {M α : Type} (op : StorageOp) (f : Database → α) :
    Keeps Balanced (readState (read op f) : VmM M Database (Except VmError α)) :=
  keeps_of_apply (fun _ => rfl) fun _ => balanced_of_deltas rfl id

theorem balanced_transfer {M : Type} (target : Address) (amount : ℕ) :
    Keeps Balanced (getContext >>= fun ctx => transfer ctx.contractAddress target amount :
      VmM M Database (Except VmError Unit)) := by
  intro s r s' h
  rw [bind_of_eq (getContext_run _)] at h
  obtain ⟨c, ov, rfl, hc⟩ := transfer_spec h
  intro hov
  obtain ⟨hs, hsum⟩ := hc hov
  exact ⟨hs, fun h0 => hsum.trans h0⟩

theorem engineRelation_balanced {P : Primitives} {W : Wasmtime} {cfg : VmConfig} :
    EngineRelation P W cfg (Balanced (M := W.Module)) where
  refl _ := balanced_of_deltas rfl id
  trans _ _ _ := Balanced.trans
  arith _ := keeps_of_apply (fun _ => rfl) fun _ =>
    balanced_of_deltas rfl fun h => (Bool.or_eq_false_iff.mp h).1
  gas _ := keeps_of_apply (fun _ => rfl) fun _ => balanced_of_deltas rfl id
  readAccount _ := balanced_readState _ _
  readStorage _ _ := balanced_readState _ _
  journal _ _ _ := balanced_modifyContext fun _ => rfl
  emit _ := balanced_modifyContext fun _ => rfl
  transfer := balanced_transfer
  blank := keeps_of_apply (fun _ => rfl) fun _ h => ⟨h, fun _ => rfl⟩
  address _ := balanced_modifyContext fun _ => rfl
  clearLogs := balanced_modifyContext fun _ => rfl
  compile code := by
    intro s a s' h
    obtain ⟨cache, rfl⟩ := compileModule_spec h
    exact balanced_of_deltas rfl id
  readCode _ := balanced_readState _ _

end Rustchain.Vm

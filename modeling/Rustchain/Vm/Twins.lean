import Mathlib.Data.Set.Function
import Rustchain.Vm.Deltas
import Rustchain.Vm.Simulation

/-! # Executions on two nodes

Two executions over databases that agree on contracts, on contract storage and on the balance of the
contract give the same result, whatever their module caches hold, as long as a cache holds under a
hash what the code with that hash compiles to. They may be in different blocks if the contract does
not ask for the block. -/

namespace Rustchain.Vm

open Rustchain.Core Storage Lib.Machine Lib.Maps Lib.Partial Lib.Simulation

/-! ### Module caches -/

section
variable (P : Primitives) (W : Wasmtime) (cfg : VmConfig) (codes : Set Bytes)

/-- Every module of the cache is compiled from the code in `codes` with the hash it stands under. -/
def Coherent (cache : HashMap Blake3Hash W.Module) : Prop :=
  ∀ h m, cache.lookup h = some m →
    ∃ code ∈ codes, P.blake3 code = h ∧ compileFresh W cfg code = .ok m

end

section
variable {P : Primitives} {W : Wasmtime} {cfg : VmConfig} {codes : Set Bytes}

theorem coherent_empty : Coherent P W cfg codes ∅ := by
  intro h m hm
  rw [AList.lookup_empty] at hm
  cases hm

theorem Coherent.insert {cache : HashMap Blake3Hash W.Module} (h : Coherent P W cfg codes cache)
    {code : Bytes} (hc : code ∈ codes) {m : W.Module} (hm : compileFresh W cfg code = .ok m) :
    Coherent P W cfg codes (cache.insert (P.blake3 code) m) := by
  intro h' m' hl
  by_cases he : h' = P.blake3 code
  · subst he
    rw [AList.lookup_insert] at hl
    obtain rfl := Option.some.inj hl
    exact ⟨code, hc, rfl, hm⟩
  · rw [AList.lookup_insert_ne he] at hl
    exact h h' m' hl

theorem Coherent.fresh {cache : HashMap Blake3Hash W.Module} (h : Coherent P W cfg codes cache)
    (hinj : Set.InjOn P.blake3 codes) {code : Bytes} (hc : code ∈ codes) {m : W.Module}
    (hl : cache.lookup (P.blake3 code) = some m) : compileFresh W cfg code = .ok m := by
  obtain ⟨code', hc', hh, hm⟩ := h _ _ hl
  rwa [hinj hc' hc hh] at hm

theorem compileModule_coherent {σ : Type} (hinj : Set.InjOn P.blake3 codes) {code : Bytes}
    (hc : code ∈ codes) {s : VmState W.Module σ} (h : Coherent P W cfg codes s.moduleCache) :
    ∃ cache, compileModule P W cfg code s =
        some ((compileFresh W cfg code).map fun m => (m, P.blake3 code),
          { s with moduleCache := cache }) ∧ Coherent P W cfg codes cache := by
  unfold compileModule
  cases hl : s.moduleCache.lookup (P.blake3 code) with
  | some m =>
    refine ⟨s.moduleCache, ?_, h⟩
    rw [h.fresh hinj hc hl]
    rfl
  | none =>
    cases hm : compileFresh W cfg code with
    | error e => exact ⟨s.moduleCache, rfl, h⟩
    | ok m => exact ⟨_, rfl, h.insert hc hm⟩

theorem loadModule_coherent (hinj : Set.InjOn P.blake3 codes) {code : Bytes} (hc : code ∈ codes)
    {s : VmState W.Module Database} (h : Coherent P W cfg codes s.moduleCache)
    (hs : s.storage.contracts.lookup (P.blake3 code) = some code) :
    ∃ cache, loadModule P W cfg (P.blake3 code) s =
        some (compileFresh W cfg code, { s with moduleCache := cache }) ∧
      Coherent P W cfg codes cache := by
  have hcached : cachedModule (P.blake3 code) s =
      some (s.moduleCache.lookup (P.blake3 code), s) := rfl
  have hread : readState (getContractCode (P.blake3 code)) s = some (.ok (some code), s) := by
    rw [← hs]
    rfl
  unfold loadModule
  rw [bind_of_eq hcached]
  cases hl : s.moduleCache.lookup (P.blake3 code) with
  | some m =>
    refine ⟨s.moduleCache, ?_, h⟩
    rw [h.fresh hinj hc hl]
    rfl
  | none =>
    obtain ⟨cache, hcomp, hcoh⟩ := compileModule_coherent (σ := Database) hinj hc h
    refine ⟨cache, ?_, hcoh⟩
    dsimp only
    rw [bind_of_eq hread]
    dsimp only
    rw [bind_of_eq hcomp]
    cases compileFresh W cfg code <;> rfl

end

/-! ### Related states -/

/-- Contexts that agree but for the block, and on the block as well if `b`. -/
structure SameContext (b : Prop) (c c' : ExecutionContext) : Prop where
  caller : c.caller = c'.caller
  origin : c.origin = c'.origin
  address : c.contractAddress = c'.contractAddress
  value : c.value = c'.value
  gasMeter : c.gasMeter = c'.gasMeter
  logs : c.logs = c'.logs
  storageChanges : c.storageChanges = c'.storageChanges
  balanceChanges : c.balanceChanges = c'.balanceChanges
  block : b → c.blockNumber = c'.blockNumber ∧ c.blockTimestamp = c'.blockTimestamp ∧
    c.chainId = c'.chainId

theorem SameContext.refl (b : Prop) (c : ExecutionContext) : SameContext b c c :=
  ⟨rfl, rfl, rfl, rfl, rfl, rfl, rfl, rfl, fun _ => ⟨rfl, rfl, rfl⟩⟩

/-- Databases that agree on contracts, on their storage and on the balances of the addresses in
`A`. -/
structure SameReads (A : Address → Prop) (d d' : Database) : Prop where
  contracts : d.contracts = d'.contracts
  contractStorage : d.contractStorage = d'.contractStorage
  balance : ∀ a, A a → storedBalance d a = storedBalance d' a

section
variable (P : Primitives) (W : Wasmtime) (cfg : VmConfig) (codes : Set Bytes) (b : Prop)
variable (d d' : Database)

/-- The states of two executions over the databases `d` and `d'`. -/
structure Twin (s s' : VmState W.Module Database) : Prop where
  context : SameContext b s.context s'.context
  left : s.storage = d
  right : s'.storage = d'
  cacheLeft : Coherent P W cfg codes s.moduleCache
  cacheRight : Coherent P W cfg codes s'.moduleCache

/-- The same while the contract at an address in `A` runs. -/
structure TwinAt (A : Address → Prop) (s s' : VmState W.Module Database) : Prop
    extends Twin P W cfg codes b d d' s s' where
  running : A s.context.contractAddress

end

section
variable {P : Primitives} {W : Wasmtime} {cfg : VmConfig} {codes : Set Bytes} {b : Prop}
variable {d d' : Database} {A : Address → Prop}

theorem Twin.withContext {s s' : VmState W.Module Database} (h : Twin P W cfg codes b d d' s s')
    {c c' : ExecutionContext} (hc : SameContext b c c') {o o' : Bool} :
    Twin P W cfg codes b d d' { s with context := c, overflow := o }
      { s' with context := c', overflow := o' } :=
  ⟨hc, h.left, h.right, h.cacheLeft, h.cacheRight⟩

theorem sim_twinAt {α : Type} {V : α → α → Prop} {x y : VmM W.Module Database α}
    {f g : VmState W.Module Database → α} {c k : VmState W.Module Database → ExecutionContext}
    {o q : VmState W.Module Database → Bool}
    (hx : ∀ s, x s = some (f s, { s with context := c s, overflow := o s }))
    (hy : ∀ s, y s = some (g s, { s with context := k s, overflow := q s }))
    (h : ∀ s s', TwinAt P W cfg codes b d d' A s s' →
      V (f s) (g s') ∧ SameContext b (c s) (k s') ∧
        (c s).contractAddress = s.context.contractAddress) :
    Sim Never (TwinAt P W cfg codes b d d' A) (TwinAt P W cfg codes b d d' A) V x y := by
  refine .of_apply hx hy (fun _ h => h) fun s s' hR => ?_
  obtain ⟨hV, hc, ha⟩ := h s s' hR
  exact .inr ⟨hV, hR.toTwin.withContext hc, ha ▸ hR.running⟩

theorem twinAt_arith {α : Type} (x : Flagged α) :
    Agree Never (TwinAt P W cfg codes b d d' A) (arith x) (arith x) :=
  sim_twinAt (c := fun s => s.context) (k := fun s => s.context) (fun _ => rfl) (fun _ => rfl)
    fun _ _ h => ⟨rfl, h.context, rfl⟩

theorem twinAt_context :
    Sim Never (TwinAt P W cfg codes b d d' A) (TwinAt P W cfg codes b d d' A)
      (fun c c' => SameContext b c c' ∧ A c.contractAddress) getContext getContext :=
  sim_twinAt (c := fun s => s.context) (k := fun s => s.context) (fun _ => rfl) (fun _ => rfl)
    fun _ _ h => ⟨⟨h.context, h.running⟩, h.context, rfl⟩

theorem twinAt_gas (n : ℕ) :
    Agree Never (TwinAt P W cfg codes b d d' A) (consumeGas n) (consumeGas n) := by
  refine sim_twinAt (fun _ => rfl) (fun _ => rfl) fun s s' h => ⟨?_, ?_, rfl⟩
  · rw [h.context.gasMeter]
  · have hc := h.context
    exact ⟨hc.caller, hc.origin, hc.address, hc.value, by rw [hc.gasMeter], hc.logs,
      hc.storageChanges, hc.balanceChanges, hc.block⟩

theorem twinAt_storage (hd : SameReads A d d') (a : Address) (k : Bytes) :
    Agree Never (TwinAt P W cfg codes b d d' A) (storageRead a k) (storageRead a k) := by
  refine sim_twinAt (c := fun s => s.context) (k := fun s => s.context) (storageRead_run a k)
    (storageRead_run a k) fun s s' h => ⟨?_, h.context, rfl⟩
  rw [h.context.storageChanges, h.left, h.right, hd.contractStorage]

theorem twinAt_modify {f : ExecutionContext → ExecutionContext}
    (hf : ∀ c c', SameContext b c c' → SameContext b (f c) (f c'))
    (ha : ∀ c, (f c).contractAddress = c.contractAddress) :
    Agree Never (TwinAt P W cfg codes b d d' A) (modifyContext f) (modifyContext f) :=
  sim_twinAt (fun _ => rfl) (fun _ => rfl) fun _ _ h => ⟨rfl, hf _ _ h.context, ha _⟩

theorem twinAt_balance (hd : SameReads A d d') {a : Address} (ha : A a) :
    Agree Never (TwinAt P W cfg codes b d d' A) (getBalance a) (getBalance a) := by
  refine sim_twinAt (c := fun s => s.context) (k := fun s => s.context) (getBalance_run a)
    (getBalance_run a) fun s s' h => ⟨?_, h.context, rfl⟩
  unfold ExecutionContext.delta
  rw [h.left, h.right, hd.balance a ha, h.context.balanceChanges]

theorem twinAt_transfer (hd : SameReads A d d') (target : Address) (amount : ℕ) :
    Agree Never (TwinAt P W cfg codes b d d' A)
      (getContext >>= fun c => transfer c.contractAddress target amount)
      (getContext >>= fun c => transfer c.contractAddress target amount) := by
  refine twinAt_context.bind_of (fun _ => stable_never _) fun c c' hc => ?_
  obtain ⟨hc, ha⟩ := hc
  rw [← hc.address]
  refine (twinAt_balance hd ha).bind fun r => ?_
  have hdelta : ∀ x y, Agree Never (TwinAt P W cfg codes b d d' A) (setDelta x y)
      (setDelta x y) := fun x y => twinAt_modify
    (fun c c' h => ⟨h.caller, h.origin, h.address, h.value, h.gasMeter, h.logs, h.storageChanges,
      by rw [h.balanceChanges], h.block⟩) fun _ => rfl
  cases r with
  | error e => exact .ret _
  | ok found =>
    dsimp only
    split_ifs
    · exact .ret _
    · refine (twinAt_arith _).bind fun v => twinAt_context.bind_of (fun _ => stable_never _)
        fun c1 c1' h1 => ?_
      unfold ExecutionContext.delta
      rw [h1.1.balanceChanges]
      refine (twinAt_arith _).bind fun _ => (hdelta _ _).bind fun _ =>
        twinAt_context.bind_of (fun _ => stable_never _) fun c2 c2' h2 => ?_
      rw [h2.1.balanceChanges]
      exact (twinAt_arith _).bind fun _ => (hdelta _ _).bind fun _ => .ret _

theorem twinAt_block {c : HostCall} (mem : Option Memory) (hask : c.AsksBlock)
    (hA : b ∨ ¬ c.AsksBlock) :
    Agree Never (TwinAt P W cfg codes b d d' A) (runHostCall c mem) (runHostCall c mem) := by
  have hb : b := hA.resolve_right (not_not.mpr hask)
  rcases hask with rfl | rfl | rfl
  · refine twinAt_context.bind_of (fun _ => stable_never _) fun c c' hc => ?_
    rw [(hc.1.block hb).1]
    exact .ret _
  · refine twinAt_context.bind_of (fun _ => stable_never _) fun c c' hc => ?_
    rw [(hc.1.block hb).2.1]
    exact .ret _
  · refine twinAt_context.bind_of (fun _ => stable_never _) fun c c' hc => ?_
    rw [(hc.1.block hb).2.2]
    exact .ret _

theorem hostSim_twin (hd : SameReads A d d') :
    HostSim Never (TwinAt P W cfg codes b d d' A) (SameContext b)
      (fun c => b ∨ ¬ c.AsksBlock) where
  refl := SameContext.refl b
  caller _ _ h := h.caller
  address _ _ h := h.address
  gasMeter _ _ h := h.gasMeter
  context := twinAt_context.mono (fun _ _ h => h.1) fun _ _ h => h
  arith := twinAt_arith
  gas := twinAt_gas
  storage := twinAt_storage hd
  journal a k v := twinAt_modify
    (fun _ _ h => ⟨h.caller, h.origin, h.address, h.value, h.gasMeter, h.logs,
      by rw [h.storageChanges], h.balanceChanges, h.block⟩) fun _ => rfl
  emit data := twinAt_modify
    (fun _ _ h => ⟨h.caller, h.origin, h.address, h.value, h.gasMeter,
      by rw [h.logs, h.address], h.storageChanges, h.balanceChanges, h.block⟩) fun _ => rfl
  balance := twinAt_context.bind_of (fun _ => stable_never _) fun c c' hc => by
    rw [← hc.1.address]
    exact twinAt_balance hd hc.2
  transfer := twinAt_transfer hd
  block _ mem := twinAt_block mem

theorem twin_gasSince (n : ℕ) :
    Agree Never (Twin P W cfg codes b d d') (gasSince n) (gasSince n) :=
  .of_apply (fun _ => rfl) (fun _ => rfl) (fun _ h => h)
    fun s s' h => .inr ⟨by rw [h.context.gasMeter], h.withContext h.context⟩

theorem twin_takeLogs : Agree Never (Twin P W cfg codes b d d') takeLogs takeLogs := by
  refine .of_apply (fun _ => rfl) (fun _ => rfl) (fun _ h => h) fun s s' h => ?_
  have hc := h.context
  have hcleared : SameContext b { s.context with logs := [] } { s'.context with logs := [] } :=
    ⟨hc.caller, hc.origin, hc.address, hc.value, hc.gasMeter, rfl, hc.storageChanges,
      hc.balanceChanges, hc.block⟩
  exact .inr ⟨hc.logs, h.withContext hcleared⟩

/-- The guests of a runtime do not ask for the block, or need not be kept from it. -/
def BlockFree (W : Wasmtime) (b : Prop) : Prop :=
  (∀ m fuel, (W.instantiate m fuel).Only fun c => b ∨ ¬ c.AsksBlock) ∧
    ∀ inst name args, (W.call inst name args).Only fun c => b ∨ ¬ c.AsksBlock

theorem blockFree_of_same (W : Wasmtime) {b : Prop} (hb : b) : BlockFree W b :=
  ⟨fun _ _ => Guest.only_of_forall (fun _ => .inl hb) _,
    fun _ _ _ => Guest.only_of_forall (fun _ => .inl hb) _⟩

theorem callSim_twin (hd : SameReads A d d') (hW : BlockFree W b) :
    CallSim W Never (TwinAt P W cfg codes b d d' A) (Twin P W cfg codes b d d') (SameContext b)
      (fun c => b ∨ ¬ c.AsksBlock) where
  toHostSim := hostSim_twin hd
  instantiate := hW.1
  guestCall := hW.2
  done _ _ h := h.toTwin
  blank := .of_apply (fun _ => rfl) (fun _ => rfl) (fun _ h => h) fun _ _ h =>
    .inr ⟨rfl, ⟨.refl b _, h.left, h.right, h.cacheLeft, h.cacheRight⟩⟩
  gasSince := twin_gasSince
  takeLogs := twin_takeLogs

theorem twin_callContract (hd : SameReads A d d') (hW : BlockFree W b)
    (hinj : Set.InjOn P.blake3 codes) {code : Bytes} (hc : code ∈ codes)
    (hs : d.contracts.lookup (P.blake3 code) = some code) (name : String) (args : Bytes) :
    Sim Never (TwinAt P W cfg codes b d d' A) (Twin P W cfg codes b d d') Eq
      (callContract P W cfg (P.blake3 code) name args)
      (callContract P W cfg (P.blake3 code) name args) := by
  refine (callSim_twin hd hW).callContract ⟨stable_never _, ?_⟩ name args
  intro s s' r t h ht
  have hs1 : s.storage.contracts.lookup (P.blake3 code) = some code := by rw [h.left]; exact hs
  have hs2 : s'.storage.contracts.lookup (P.blake3 code) = some code := by
    rw [h.right, ← hd.contracts]
    exact hs
  obtain ⟨c1, h1, hc1⟩ := loadModule_coherent hinj hc h.cacheLeft hs1
  obtain ⟨c2, h2, hc2⟩ := loadModule_coherent hinj hc h.cacheRight hs2
  rw [h1] at ht
  obtain ⟨rfl, rfl⟩ := some_pair_inj ht
  exact .inr ⟨_, _, h2, rfl, ⟨h.context, h.left, h.right, hc1, hc2⟩, h.running⟩

theorem twin_deployContract (hd : SameReads (fun _ => True) d d') (hW : BlockFree W b)
    (hinj : Set.InjOn P.blake3 codes) {code : Bytes} (hc : code ∈ codes) (args : Bytes) :
    Sim Never (fun s s' => Twin P W cfg codes b d d' s s' ∧
        s.context.blockNumber = s'.context.blockNumber) (Twin P W cfg codes b d d') Eq
      (deployContract P W cfg code args) (deployContract P W cfg code args) := by
  refine (callSim_twin hd hW).deployContract ⟨stable_never _, ?_⟩ ?_ ?_ (fun _ _ h => h.1) args
  · intro s s' r t h ht
    obtain ⟨c1, h1, hc1⟩ := compileModule_coherent (σ := Database) hinj hc h.1.cacheLeft
    obtain ⟨c2, h2, hc2⟩ := compileModule_coherent (σ := Database) hinj hc h.1.cacheRight
    rw [h1] at ht
    obtain ⟨rfl, rfl⟩ := some_pair_inj ht
    exact .inr ⟨_, _, h2, rfl, ⟨h.1.context, h.1.left, h.1.right, hc1, hc2⟩, h.2⟩
  · exact .of_apply (fun _ => rfl) (fun _ => rfl) (fun _ h => h) fun s s' h =>
      .inr ⟨⟨h.1.context.caller, h.2, h.1.context.gasMeter⟩, h⟩
  · intro a
    refine .of_apply (fun _ => rfl) (fun _ => rfl) (fun _ h => h) fun s s' h => .inr ⟨rfl, ?_⟩
    have hx := h.1.context
    exact ⟨⟨⟨hx.caller, hx.origin, rfl, hx.value, hx.gasMeter, hx.logs, hx.storageChanges,
      hx.balanceChanges, hx.block⟩, h.1.left, h.1.right, h.1.cacheLeft, h.1.cacheRight⟩, trivial⟩

end

end Rustchain.Vm

import Rustchain.Lib.Overlay
import Rustchain.Vm.Deltas
import Rustchain.Vm.GasAccounting

/-! # The storage journal

An execution reads and writes contract storage through a journal in its context. Seen from the
execution, the journal over the database is one store: `Performs` says that a run makes some
accesses in turn, in between steps that touch neither journal nor database, and `Performs.refines`
that every read is answered, and the store left, as if the accesses had been made on it directly.
The accesses that an execution makes are a trace of its host calls (`Entry.performs`). -/

namespace Rustchain.Vm

open Rustchain.Core Storage Lib.Machine Lib.Maps Lib.Partial Lib

/-! ### Direct storage -/

/-- An access to contract storage; a read comes with its answer. -/
inductive StorageAccess where
  | read (addr : Address) (key : Bytes) (answer : Except VmError (Option Bytes))
  | write (addr : Address) (key value : Bytes)
  | delete (addr : Address) (key : Bytes)
  deriving DecidableEq

namespace StorageAccess

def addr : StorageAccess → Address
  | .read addr _ _ => addr
  | .write addr _ _ => addr
  | .delete addr _ => addr

/-- The database after an access that is made on it directly. -/
def direct (d : Database) : StorageAccess → Database
  | .read .. => d
  | .write addr key value => d.putContractStorage addr key value
  | .delete addr key => d.deleteContractStorage addr key

/-- A read is answered as the database answers it. -/
def Answered (d : Database) : StorageAccess → Prop
  | .read addr key answer =>
    answer = .ok (d.contractStorage.lookup (contractStorageKey addr key))
  | _ => True

end StorageAccess

/-- The database after accesses that are made on it directly, in turn. -/
def directly (d : Database) (as : List StorageAccess) : Database := as.foldl StorageAccess.direct d

/-- **A direct store answers the reads so**, each from what the accesses before it left. -/
def AllAnswered : Database → List StorageAccess → Prop
  | _, [] => True
  | d, a :: as => a.Answered d ∧ AllAnswered (a.direct d) as

theorem directly_append (d : Database) (as bs : List StorageAccess) :
    directly d (as ++ bs) = directly (directly d as) bs := List.foldl_append

theorem allAnswered_append : ∀ {as : List StorageAccess} {bs : List StorageAccess} {d : Database},
    AllAnswered d (as ++ bs) ↔ AllAnswered d as ∧ AllAnswered (directly d as) bs
  | [], _, _ => (iff_of_eq (true_and _)).symm
  | a :: as, _, d => by
    rw [List.cons_append, AllAnswered, AllAnswered, allAnswered_append, and_assoc]
    rfl

theorem lookup_directly_of_ne {addr : Address} (key : Bytes) : ∀ {as : List StorageAccess}
    (d : Database), (∀ a ∈ as, a.addr ≠ addr) →
      (directly d as).contractStorage.lookup (contractStorageKey addr key) =
        d.contractStorage.lookup (contractStorageKey addr key)
  | [], _, _ => rfl
  | a :: as, d, h => by
    have hne : ∀ k, contractStorageKey addr key ≠ contractStorageKey a.addr k := fun k he =>
      h a List.mem_cons_self (contractStorageKey_injective he).1.symm
    refine (lookup_directly_of_ne key (a.direct d) fun b hb =>
      h b (List.mem_cons_of_mem a hb)).trans ?_
    cases a with
    | read addr' key' answer => rfl
    | write addr' key' value => exact Finmap.lookup_insert_of_ne _ (hne key')
    | delete addr' key' => exact Finmap.lookup_erase_ne (hne key')

/-! ### The journal over the database -/

section
variable {M : Type} {s s' : VmState M Database}

/-- The place of a journaled key in the database. -/
def storagePlace (k : Address × Bytes) : Bytes := contractStorageKey k.1 k.2

theorem storagePlace_injective : Function.Injective storagePlace := fun _ _ h =>
  Prod.ext_iff.mpr (contractStorageKey_injective h)

/-- **The store that an execution sees**: the database with the journal written out. -/
def journalView (s : VmState M Database) : Database :=
  { s.storage with contractStorage :=
    Overlay.written storagePlace s.context.storageChanges s.storage.contractStorage }

theorem journalView_of_empty (h : s.context.storageChanges = ∅) : journalView s = s.storage := by
  unfold journalView
  rw [h]
  rfl

theorem journalView_congr (hstorage : s'.storage = s.storage)
    (hjournal : s'.context.storageChanges = s.context.storageChanges) :
    journalView s' = journalView s := by
  unfold journalView
  rw [hstorage, hjournal]

/-- **A run that makes accesses to contract storage**, in turn; what else it does touches neither
the journal nor the database. -/
inductive Performs : VmState M Database → List StorageAccess → VmState M Database → Prop
  | other {s s' : VmState M Database} (hstorage : s'.storage = s.storage)
      (hjournal : s'.context.storageChanges = s.context.storageChanges) : Performs s [] s'
  | read {s s' : VmState M Database} {addr : Address} {key : Bytes}
      {answer : Except VmError (Option Bytes)}
      (h : storageRead addr key s = some (answer, s')) : Performs s [.read addr key answer] s'
  | write {s s' : VmState M Database} {addr : Address} {key value : Bytes}
      (h : storageWrite addr key value s = some ((), s')) : Performs s [.write addr key value] s'
  | delete {s s' : VmState M Database} {addr : Address} {key : Bytes}
      (h : storageDelete addr key s = some ((), s')) : Performs s [.delete addr key] s'
  | append {s s1 s2 : VmState M Database} {as bs : List StorageAccess} (h1 : Performs s as s1)
      (h2 : Performs s1 bs s2) : Performs s (as ++ bs) s2

theorem journalView_insert (s : VmState M Database) (addr : Address) (key : Bytes)
    (v : Option Bytes) :
    journalView { s with context := { s.context with
        storageChanges := s.context.storageChanges.insert (addr, key) v } } =
      { s.storage with
        contractStorage :=
          Overlay.put (journalView s).contractStorage (contractStorageKey addr key) v } :=
  congrArg (fun t => { s.storage with contractStorage := t })
    (Overlay.written_insert storagePlace_injective _ _ (addr, key) v)

/-- **The journal refines the store**: every read is answered from the store as the accesses before
it left it, and the store is left as the accesses leave it. -/
theorem Performs.refines {as : List StorageAccess} (h : Performs s as s') :
    s'.storage = s.storage ∧ AllAnswered (journalView s) as ∧
      journalView s' = directly (journalView s) as := by
  induction h with
  | other hstorage hjournal =>
    exact ⟨hstorage, trivial, journalView_congr hstorage hjournal⟩
  | @read s s' addr key answer h =>
    rw [storageRead_run] at h
    obtain ⟨rfl, rfl⟩ := some_pair_inj h
    refine ⟨rfl, ⟨congrArg Except.ok ?_, trivial⟩, rfl⟩
    exact (Overlay.lookup_written storagePlace_injective _ _ (addr, key)).symm
  | write h =>
    obtain ⟨-, rfl⟩ := some_pair_inj h
    exact ⟨rfl, ⟨trivial, trivial⟩, journalView_insert _ _ _ _⟩
  | delete h =>
    obtain ⟨-, rfl⟩ := some_pair_inj h
    exact ⟨rfl, ⟨trivial, trivial⟩, journalView_insert _ _ _ _⟩
  | append _ _ ih1 ih2 =>
    obtain ⟨hs1, ha1, hv1⟩ := ih1
    obtain ⟨hs2, ha2, hv2⟩ := ih2
    rw [hv1] at ha2 hv2
    exact ⟨hs2.trans hs1, allAnswered_append.mpr ⟨ha1, ha2⟩, hv2.trans (directly_append _ _ _).symm⟩

/-! ### The accesses of an execution -/

/-- The access to contract storage that a host call makes, if it makes one. -/
def noteStorage (c : HostCall) (mem : Option Memory) (s : VmState M Database) :
    List StorageAccess :=
  match c, mem with
  | .storageRead keyPtr keyLen _, some m =>
    match (s.context.gasMeter.consume gasCosts.storageRead).1,
      m.read (asUsize keyPtr) (asUsize keyLen) with
    | .ok _, some key => (storageRead s.context.contractAddress key s).toList.map fun p =>
        .read s.context.contractAddress key p.1
    | _, _ => []
  | .storageWrite keyPtr keyLen valPtr valLen, some m =>
    match m.read (asUsize keyPtr) (asUsize keyLen), m.read (asUsize valPtr) (asUsize valLen) with
    | some key, some value => [.write s.context.contractAddress key value]
    | _, _ => []
  | _, _ => []

/-- **A run of the contract itself**: it makes accesses, to its own storage only. -/
structure PerformsOwn (as : List StorageAccess) (s s' : VmState M Database) : Prop where
  performs : Performs s as s'
  own : ∀ a ∈ as, a.addr = s.context.contractAddress
  address : s'.context.contractAddress = s.context.contractAddress

def NoAccess (s s' : VmState M Database) : Prop := PerformsOwn [] s s'

theorem noAccess_of_eq (hstorage : s'.storage = s.storage)
    (hjournal : s'.context.storageChanges = s.context.storageChanges)
    (haddress : s'.context.contractAddress = s.context.contractAddress) : NoAccess s s' :=
  ⟨.other hstorage hjournal, nofun, haddress⟩

theorem PerformsOwn.append {as bs : List StorageAccess} {s1 : VmState M Database}
    (h1 : PerformsOwn as s s1) (h2 : PerformsOwn bs s1 s') : PerformsOwn (as ++ bs) s s' where
  performs := h1.performs.append h2.performs
  own a ha := by
    rcases List.mem_append.mp ha with ha | ha
    · exact h1.own a ha
    · exact (h2.own a ha).trans h1.address
  address := h2.address.trans h1.address

theorem quietRelation_noAccess : QuietRelation (NoAccess (M := M)) where
  refl _ := noAccess_of_eq rfl rfl rfl
  trans _ _ _ h1 h2 := h1.append h2
  arith _ := keeps_of_apply (fun _ => rfl) fun _ => noAccess_of_eq rfl rfl rfl
  gas _ := keeps_of_apply (fun _ => rfl) fun _ => noAccess_of_eq rfl rfl rfl
  readAccount _ := keeps_of_apply (fun _ => rfl) fun _ => noAccess_of_eq rfl rfl rfl
  emit _ := keeps_of_apply (fun _ => rfl) fun _ => noAccess_of_eq rfl rfl rfl

theorem allocBuffer_eq_some {len : Int32} {n : ℕ} (h : allocBuffer len s = some (n, s')) :
    n = asUsize len ∧ s' = s := by
  unfold allocBuffer at h
  split_ifs at h
  obtain ⟨rfl, rfl⟩ := some_pair_inj h
  exact ⟨rfl, rfl⟩

theorem noAccess_gas {n : ℕ} {r : Except VmError Unit} (h : consumeGas n s = some (r, s')) :
    NoAccess s s' := quietRelation_noAccess.gas n s r s' h

theorem performsOwn_read {key : Bytes} {answer : Except VmError (Option Bytes)}
    (h : storageRead s.context.contractAddress key s = some (answer, s')) :
    PerformsOwn [.read s.context.contractAddress key answer] s s' := by
  refine ⟨.read h, List.forall_mem_singleton.mpr rfl, ?_⟩
  rw [storageRead_run] at h
  obtain ⟨-, rfl⟩ := some_pair_inj h
  rfl

theorem performsOwn_write {key value : Bytes}
    (h : storageWrite s.context.contractAddress key value s = some ((), s')) :
    PerformsOwn [.write s.context.contractAddress key value] s s' := by
  refine ⟨.write h, List.forall_mem_singleton.mpr rfl, ?_⟩
  obtain ⟨-, rfl⟩ := some_pair_inj h
  rfl

theorem hostStorageRead_performs {keyPtr keyLen valPtr : Int32} {mem : Option Memory}
    {r : HostValue × Option Memory}
    (h : hostStorageRead keyPtr keyLen valPtr mem s = some (r, s')) :
    PerformsOwn (noteStorage (.storageRead keyPtr keyLen valPtr) mem s) s s' := by
  obtain ⟨charge, s1, hgas, h⟩ := bind_eq_some.mp h
  have hquiet : NoAccess s s1 := noAccess_gas hgas
  obtain ⟨hcharge, rfl⟩ := some_pair_inj hgas
  unfold noteStorage
  rw [hcharge]
  cases charge with
  | error e =>
    obtain ⟨-, rfl⟩ := pure_eq_some h
    cases mem with
    | none => exact hquiet
    | some m => exact hquiet
  | ok u =>
    cases mem with
    | none =>
      obtain ⟨-, rfl⟩ := pure_eq_some h
      exact hquiet
    | some m =>
      obtain ⟨len, s2, hlen, h⟩ := bind_eq_some.mp h
      obtain ⟨rfl, rfl⟩ := allocBuffer_eq_some hlen
      dsimp only at h ⊢
      cases hkey : m.read (asUsize keyPtr) (asUsize keyLen) with
      | none =>
        rw [hkey] at h
        obtain ⟨-, rfl⟩ := pure_eq_some h
        exact hquiet
      | some key =>
        rw [hkey] at h
        obtain ⟨ctx, s3, hctx, h⟩ := bind_eq_some.mp h
        obtain ⟨rfl, rfl⟩ := some_pair_inj hctx
        obtain ⟨answer, s4, hread, h⟩ := bind_eq_some.mp h
        -- the answer does not depend on the charge
        have hnote : storageRead s.context.contractAddress key s = some (answer, s) := by
          rw [storageRead_run] at hread ⊢
          exact congrArg some (Prod.ext (some_pair_inj hread).1 rfl)
        have hs' : s' = s4 := by
          rcases answer with e | _ | value
          · exact (pure_eq_some h).2.symm
          · exact (pure_eq_some h).2.symm
          · dsimp only at h
            cases hvalue : m.write (asUsize valPtr) value
            all_goals
              rw [hvalue] at h
              exact (pure_eq_some h).2.symm
        dsimp only
        rw [hnote, hs']
        exact hquiet.append (performsOwn_read hread)

theorem hostStorageWrite_performs {keyPtr keyLen valPtr valLen : Int32} {mem : Option Memory}
    {r : HostValue × Option Memory}
    (h : hostStorageWrite keyPtr keyLen valPtr valLen mem s = some (r, s')) :
    PerformsOwn (noteStorage (.storageWrite keyPtr keyLen valPtr valLen) mem s) s s' := by
  obtain ⟨charge, s1, hgas, h1⟩ := bind_eq_some.mp h
  have hquiet : NoAccess s s1 := noAccess_gas hgas
  unfold noteStorage
  cases mem with
  | none =>
    obtain ⟨-, rfl⟩ := pure_eq_some h1
    exact hquiet
  | some m =>
    obtain ⟨kl, s2, hkl, h2⟩ := bind_eq_some.mp h1
    obtain ⟨vl, s3, hvl, h3⟩ := bind_eq_some.mp h2
    obtain ⟨rfl, rfl⟩ := allocBuffer_eq_some hkl
    obtain ⟨rfl, rfl⟩ := allocBuffer_eq_some hvl
    dsimp only at h3 ⊢
    cases hkey : m.read (asUsize keyPtr) (asUsize keyLen) with
    | none =>
      rw [hkey] at h3
      obtain ⟨-, rfl⟩ := pure_eq_some h3
      exact hquiet
    | some key =>
      cases hvalue : m.read (asUsize valPtr) (asUsize valLen) with
      | none =>
        rw [hkey, hvalue] at h3
        obtain ⟨-, rfl⟩ := pure_eq_some h3
        exact hquiet
      | some value =>
        rw [hkey, hvalue] at h3
        obtain ⟨ctx, s4, hctx, h4⟩ := bind_eq_some.mp h3
        obtain ⟨rfl, rfl⟩ := some_pair_inj hctx
        obtain ⟨_, s5, hwrite, h5⟩ := bind_eq_some.mp h4
        obtain ⟨-, rfl⟩ := pure_eq_some h5
        dsimp only
        rw [← hquiet.address]
        exact hquiet.append (performsOwn_write hwrite)

theorem traceRelation_storage : TraceRelation (noteStorage (M := M)) PerformsOwn where
  refl _ := noAccess_of_eq rfl rfl rfl
  append := PerformsOwn.append
  call {c mem s r s'} h := by
    have hother : (∀ kp kl vp, c ≠ .storageRead kp kl vp) →
        (∀ kp kl vp vl, c ≠ .storageWrite kp kl vp vl) → NoAccess s s' := fun hread hwrite =>
      quietRelation_noAccess.runHostCall
        (quietRelation_noAccess.metered.transfer fun _ _ =>
          keeps_of_apply (fun _ => rfl) fun _ => noAccess_of_eq rfl rfl rfl)
        c mem hread hwrite _ _ _ h
    cases c with
    | storageRead kp kl vp =>
      rw [runHostCall, map_apply, Option.map_eq_some_iff] at h
      obtain ⟨p, hrun, heq⟩ := h
      obtain ⟨-, rfl⟩ := Prod.mk.inj heq
      exact hostStorageRead_performs hrun
    | storageWrite kp kl vp vl =>
      rw [runHostCall, map_apply, Option.map_eq_some_iff] at h
      obtain ⟨p, hrun, heq⟩ := h
      obtain ⟨-, rfl⟩ := Prod.mk.inj heq
      exact hostStorageWrite_performs hrun
    | caller p => exact hother nofun nofun
    | selfAddress p => exact hother nofun nofun
    | blockNumber => exact hother nofun nofun
    | blockTimestamp => exact hother nofun nofun
    | chainId => exact hother nofun nofun
    | selfBalance => exact hother nofun nofun
    | transfer p a => exact hother nofun nofun
    | emitEvent tp tc dp dl => exact hother nofun nofun
    | abort p l => exact hother nofun nofun

end

theorem loadModule_spec {P : Primitives} {W : Wasmtime} {cfg : VmConfig}
    {s s' : VmState W.Module Database} {codeHash : Blake3Hash} {r : Except VmError W.Module}
    (h : loadModule P W cfg codeHash s = some (r, s')) :
    ∃ cache, s' = { s with moduleCache := cache } := by
  have hcached : cachedModule codeHash s = some (s.moduleCache.lookup codeHash, s) := rfl
  have hread : readState (getContractCode codeHash) s =
      some (.ok (s.storage.contracts.lookup codeHash), s) := rfl
  unfold loadModule at h
  rw [bind_of_eq hcached] at h
  cases hc : s.moduleCache.lookup codeHash with
  | some m =>
    rw [hc] at h
    obtain ⟨-, rfl⟩ := pure_eq_some h
    exact ⟨s.moduleCache, rfl⟩
  | none =>
    rw [hc] at h
    dsimp only at h
    rw [bind_of_eq hread] at h
    cases hb : s.storage.contracts.lookup codeHash with
    | none =>
      rw [hb] at h
      obtain ⟨-, rfl⟩ := pure_eq_some h
      exact ⟨s.moduleCache, rfl⟩
    | some bytecode =>
      rw [hb] at h
      obtain ⟨r', s1, hcompile, h⟩ := bind_eq_some.mp h
      obtain ⟨cache, rfl⟩ := compileModule_spec hcompile
      refine ⟨cache, ?_⟩
      cases r' with
      | error e => exact (pure_eq_some h).2.symm
      | ok p => exact (pure_eq_some h).2.symm

namespace Entry

section
variable (P : Primitives) (W : Wasmtime) (cfg : VmConfig)

def contract {M σ : Type} (P : Primitives) (entry : Entry) (s : VmState M σ) : Address :=
  match entry with
  | .deploy _ _ => deployAddress P s.context.caller s.context.blockNumber
  | .call _ _ _ => s.context.contractAddress

/-- **The accesses to contract storage** of the execution, in turn. -/
def storageAccesses (entry : Entry) (s : VmState W.Module Database) : List StorageAccess :=
  match entry.enter P W cfg s with
  | some (.ok (module, function, args), s1) =>
    invokeTrace W cfg noteStorage module function args s1
  | _ => []

def Returns (entry : Entry) (s : VmState W.Module Database) : Prop :=
  ∃ module function args s1 data s2,
    entry.enter P W cfg s = some (.ok (module, function, args), s1) ∧
    (invoke W cfg module function args).run s1 = some (.ok data, s2)

end

variable {P : Primitives} {W : Wasmtime} {cfg : VmConfig} {entry : Entry}
  {s s1 s2 s' : VmState W.Module Database} {module : W.Module} {function : String} {args : Bytes}

theorem enter_spec (h : entry.enter P W cfg s = some (.ok (module, function, args), s1)) :
    s1.storage = s.storage ∧ s1.context.storageChanges = s.context.storageChanges ∧
      s1.context.contractAddress = entry.contract P s := by
  cases entry with
  | deploy code constructorArgs =>
    obtain ⟨r, s2, hcompile, h⟩ := bind_eq_some.mp h
    obtain ⟨cache, rfl⟩ := compileModule_spec hcompile
    cases r with
    | error e => cases (pure_eq_some h).1
    | ok p =>
      obtain ⟨_, s3, hmodify, h⟩ := bind_eq_some.mp h
      obtain ⟨-, rfl⟩ := some_pair_inj hmodify
      obtain ⟨-, rfl⟩ := pure_eq_some h
      exact ⟨rfl, rfl, rfl⟩
  | call codeHash function' args' =>
    obtain ⟨r, s2, hload, h⟩ := bind_eq_some.mp h
    obtain ⟨cache, rfl⟩ := loadModule_spec hload
    cases r with
    | error e => cases (pure_eq_some h).1
    | ok m =>
      obtain ⟨-, rfl⟩ := pure_eq_some h
      exact ⟨rfl, rfl, rfl⟩

theorem performs {r : Except VmError Bytes}
    (henter : entry.enter P W cfg s = some (.ok (module, function, args), s1))
    (hrun : (invoke W cfg module function args).run s1 = some (r, s2)) :
    PerformsOwn (entry.storageAccesses P W cfg s) s1 s2 := by
  unfold storageAccesses
  rw [henter]
  exact traceRelation_storage.invoke hrun

theorem refines {r : Except VmError Bytes} (hempty : s.context.storageChanges = ∅)
    (henter : entry.enter P W cfg s = some (.ok (module, function, args), s1))
    (hrun : (invoke W cfg module function args).run s1 = some (r, s2)) :
    AllAnswered s.storage (entry.storageAccesses P W cfg s) ∧
      (∀ a ∈ entry.storageAccesses P W cfg s, a.addr = entry.contract P s) ∧
      Overlay.written storagePlace s2.context.storageChanges s.storage.contractStorage =
        (directly s.storage (entry.storageAccesses P W cfg s)).contractStorage := by
  obtain ⟨hstorage, hjournal, haddress⟩ := enter_spec henter
  obtain ⟨hperforms, hown, -⟩ := performs henter hrun
  obtain ⟨hs2, hanswered, hview⟩ := hperforms.refines
  rw [journalView_of_empty (hjournal.trans hempty), hstorage] at hanswered hview
  refine ⟨hanswered, fun a ha => (hown a ha).trans haddress, ?_⟩
  rw [← hview, ← hstorage, ← hs2]
  rfl

/-- **What a completed execution hands over to be flushed**: the accesses of an execution that
returned, and nothing if the constructor was missing. -/
theorem flushed_of_completes {r : Except VmError ℕ} (hempty : s.context.storageChanges = ∅)
    (hcompletes : entry.Completes P W cfg s) (h : entry.run P W cfg s = some (r, s')) :
    AllAnswered s.storage (entry.storageAccesses P W cfg s) ∧
      (∀ a ∈ entry.storageAccesses P W cfg s, a.addr = entry.contract P s) ∧
      (entry.Returns P W cfg s →
        Overlay.written storagePlace s'.context.storageChanges s.storage.contractStorage =
          (directly s.storage (entry.storageAccesses P W cfg s)).contractStorage) ∧
      (¬ entry.Returns P W cfg s → s'.context.storageChanges = ∅) := by
  rcases run_cases h with ⟨e, henter, -⟩ | ⟨module, function, args, s1, s2, henter, hcases⟩
  · exact absurd hcompletes (not_completes henter)
  · rcases hcases with ⟨data, hrun, hcontext, -⟩ | ⟨e, hrun, hblank, -⟩
    · obtain ⟨hanswered, hown, hwritten⟩ := refines hempty henter hrun
      refine ⟨hanswered, hown, fun _ => ?_, fun hnot => ?_⟩
      · rw [hcontext]
        exact hwritten
      · exact absurd ⟨_, _, _, _, data, s2, henter, hrun⟩ hnot
    · obtain ⟨hanswered, hown, -⟩ := refines hempty henter hrun
      refine ⟨hanswered, hown, ?_, fun _ => by rw [hblank]; rfl⟩
      rintro ⟨_, _, _, _, data, _, henter', hrun'⟩
      cases henter.symm.trans henter'
      cases hrun.symm.trans hrun'

end Entry

/-- A runtime whose modules have the start function `g` and no other. -/
def Wasmtime.starting (g : Guest Unit) : Wasmtime where
  Module := Unit
  Instance := Unit
  validate _ := .ok ()
  compile _ := .ok ()
  instantiate _ _ := g
  hasFunc _ _ _ := false
  call _ _ _ := .trap ""
  memory _ := none
  setMemory inst _ := inst
  describe
    | .guest msg => msg
    | .abort _ => "contract aborted"

end Rustchain.Vm

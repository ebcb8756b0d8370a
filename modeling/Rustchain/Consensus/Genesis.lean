import Rustchain.Consensus.Restart
import Rustchain.Storage.Faults

/-! # First starts

A first start writes the genesis block, the chain height, the genesis hash, the accounts, the
validators and the first epoch, one after the other. A start that finds a genesis hash in the
database takes all of them to be there. So a first start that was cut off is made good by the next
one only if it stopped before the genesis hash, which is the third of the writes.

What a later start compares with the genesis file is the hash of the genesis block. The block has
the chain identifier, the time, the gas limit, the chain name and the first validator; the accounts,
the other validators, all stakes and the consensus parameters are not in it. -/

namespace Rustchain.Consensus

open Rustchain.Core Storage Vm Lib.Machine Lib.Maps Lib.Runs

/-! ### The writes of a first start -/

/-- A single write: the operation and its effect. -/
abbrev Write := StorageOp × (Database → Database)

section
variable (P : Primitives) (g : GenesisConfig) (b : Block)

def markerWrites : List Write :=
  [(.putBlock b.header.number, Database.putBlock P b), (.putMeta, Database.setChainHeight 0),
    (.putMeta, Database.setGenesisHash (b.hash P))]

def accountWrites : List Write :=
  g.initialAccounts.map fun a =>
    (.putAccount a.address, Database.putAccount (Account.new a.address a.balance))

def validatorWrites : List Write :=
  g.toValidatorInfos.map fun v => (.putValidator v.address, Database.putValidator v)

def epochWrite : Write := (.putEpoch 0, Database.putEpoch (firstEpoch g))

/-- The writes after the genesis hash and before the last one. -/
def recordWrites : List Write := accountWrites g ++ validatorWrites g

/-- All writes of a first start, in their order. -/
def genesisWrites : List Write := markerWrites P b ++ (recordWrites g ++ [epochWrite g])

def applyWrites (l : List Write) (d : Database) : Database := l.foldl (fun d w => w.2 d) d

/-- The database after a first start that stopped after `k` writes. -/
def interrupted (k : ℕ) : Database := applyWrites ((genesisWrites P g b).take k) .empty

end

variable {P : Primitives} {g : GenesisConfig} {b : Block}

theorem applyWrites_append (l l' : List Write) (d : Database) :
    applyWrites (l ++ l') d = applyWrites l' (applyWrites l d) := List.foldl_append

theorem field_applyWrites {β : Type} {f : Database → β} {l : List Write}
    (h : ∀ w ∈ l, ∀ d, f (w.2 d) = f d) (d : Database) : f (applyWrites l d) = f d := by
  induction l generalizing d with
  | nil => rfl
  | cons w l ih =>
    have hrest := ih (fun v hv => h v (List.mem_cons_of_mem _ hv)) (w.2 d)
    exact hrest.trans (h w List.mem_cons_self d)

theorem mem_recordWrites {w : Write} (hw : w ∈ recordWrites g) :
    (∃ a : Account, w.2 = Database.putAccount a) ∨
      ∃ v : ValidatorInfo, w.2 = Database.putValidator v := by
  rcases List.mem_append.mp hw with hw | hw
  · obtain ⟨a, -, rfl⟩ := List.mem_map.mp hw
    exact .inl ⟨_, rfl⟩
  · obtain ⟨v, -, rfl⟩ := List.mem_map.mp hw
    exact .inr ⟨v, rfl⟩

theorem field_recordWrites {β : Type} {f : Database → β} (ha : ∀ d a, f (d.putAccount a) = f d)
    (hv : ∀ d v, f (d.putValidator v) = f d) {w : Write} (hw : w ∈ recordWrites g)
    (d : Database) : f (w.2 d) = f d := by
  rcases mem_recordWrites hw with ⟨a, hw⟩ | ⟨v, hw⟩
  · rw [hw]
    exact ha d a
  · rw [hw]
    exact hv d v

theorem applyWrites_genesisWrites (d : Database) :
    applyWrites (genesisWrites P g b) d = initialized P g b d := by
  unfold genesisWrites recordWrites accountWrites validatorWrites initialized
  rw [applyWrites_append, applyWrites_append, applyWrites_append]
  unfold applyWrites
  rw [List.foldl_map, List.foldl_map]
  rfl

/-! ### Writes on a database that fails -/

/-- Writes with `?`. -/
def runWrites {σ : Type} [Backend σ] (l : List Write) : InitM σ Unit :=
  l.forM fun w => write w.1 w.2

theorem initChain_eq {σ : Type} [Backend σ] : (initChain P g b : InitM σ _) =
    (do runWrites (genesisWrites P g b); return (b, 0, firstEpoch g)) := by
  unfold initChain runWrites genesisWrites recordWrites markerWrites accountWrites validatorWrites
    epochWrite
  simp only [List.forM_eq_forM, List.forM_append, List.forM_cons, List.forM_nil, List.forM_map,
    bind_assoc, pure_bind]

theorem run_write_error {σ α : Type} [Backend σ] {op : StorageOp} {f : Database → Database}
    {st st' : σ} {e : StorageError} (k : Unit → InitM σ α)
    (h : Backend.perform op f st = (.error e, st')) :
    (write op f >>= k : InitM σ α).run st = (.error (.storage e), st') := by
  show ExceptT.bindCont k ((Backend.perform op f st).1.mapError ConsensusError.storage)
    (Backend.perform op f st).2 = _
  rw [h]
  rfl

theorem run_write_ok {σ α : Type} [Backend σ] {op : StorageOp} {f : Database → Database}
    {st st' : σ} {u : Unit} (k : Unit → InitM σ α) (h : Backend.perform op f st = (.ok u, st')) :
    (write op f >>= k : InitM σ α).run st = (k ()).run st' := by
  show ExceptT.bindCont k ((Backend.perform op f st).1.mapError ConsensusError.storage)
    (Backend.perform op f st).2 = _
  rw [h]
  rfl

variable {k : ℕ}

/-- **Writes with a fault** at number `k` of them: those before it are in the database, the others
are not, and the error comes back. -/
theorem run_runWrites_fault {α : Type} (rest : Unit → InitM FaultyStore α) {s : FaultyStore}
    {l : List Write} (hk : k < l.length) (hf : s.fault = some (s.log.length + k)) :
    ((runWrites l >>= rest).run s).1 = .error (.storage s.error) ∧
      ((runWrites l >>= rest).run s).2.content = applyWrites (l.take k) s.content := by
  induction l generalizing k s with
  | nil => exact absurd hk (Nat.not_lt_zero k)
  | cons w l ih =>
    have hcons : (runWrites (w :: l) >>= rest) =
        (write w.1 w.2 >>= fun _ => runWrites l >>= rest) := by
      unfold runWrites
      rw [List.forM_eq_forM, List.forM_cons, bind_assoc]
    rw [hcons]
    cases k with
    | zero =>
      rw [run_write_error _ (FaultyStore.perform_fault hf _)]
      exact ⟨rfl, rfl⟩
    | succ k =>
      have hlater : s.fault ≠ some s.log.length := by
        rw [hf]
        intro heq
        have := Option.some.inj heq
        omega
      rw [run_write_ok _ (FaultyStore.perform_ok hlater _)]
      refine ih (s := { s with content := w.2 s.content, log := s.log ++ [(w.1, true)] })
        (Nat.lt_of_succ_lt_succ hk) ?_
      show s.fault = some ((s.log ++ [(w.1, true)]).length + k)
      rw [hf, List.length_append, List.length_singleton]
      congr 1
      omega

/-- A first start whose `k`-th write fails leaves the database that `interrupted` names: the read of
the genesis hash comes before the writes. -/
theorem fromGenesis_fault (hv : g.validate = .ok ()) (hb : g.toGenesisBlock = some b)
    (hk : k < (genesisWrites P g b).length) (e : StorageError) :
    (fromGenesis P g (⟨.empty, some (k + 1), e, []⟩ : FaultyStore)).1 = .error (.storage e) ∧
      (fromGenesis P g (⟨.empty, some (k + 1), e, []⟩ : FaultyStore)).2.content =
        interrupted P g b k := by
  have hload : (loadOrInit P g b : InitM FaultyStore _).run ⟨.empty, some (k + 1), e, []⟩ =
      (some <$> initChain P g b : InitM FaultyStore _).run
        ⟨.empty, some (k + 1), e, [(.getMeta, true)]⟩ := rfl
  have hmap : (some <$> initChain P g b : InitM FaultyStore _) =
      runWrites (genesisWrites P g b) >>= fun _ => pure (some (b, 0, firstEpoch g)) := by
    rw [initChain_eq, map_bind]
    simp only [map_pure]
  obtain ⟨herr, hcontent⟩ := run_runWrites_fault
    (fun _ => (pure (some (b, 0, firstEpoch g)) : InitM FaultyStore _)) hk
    (s := ⟨.empty, some (k + 1), e, [(.getMeta, true)]⟩) (by simp [Nat.add_comm])
  unfold fromGenesis
  simp only [hv, hb, hload, hmap]
  refine ⟨?_, hcontent⟩
  rw [herr]
  rfl

/-! ### The next start -/

theorem length_genesisWrites : (genesisWrites P g b).length = 4 + (recordWrites g).length := by
  unfold genesisWrites markerWrites
  simp only [List.length_append, List.length_cons, List.length_nil]
  omega

theorem number_of_toGenesisBlock (hb : g.toGenesisBlock = some b) : b.header.number = 0 := by
  obtain ⟨v, -, rfl⟩ := Option.map_eq_some_iff.mp hb
  rfl

/-- The database once the genesis hash is written. -/
def marked (P : Primitives) (b : Block) : Database := applyWrites (markerWrites P b) .empty

theorem initialized_interrupted (hk : k < 3) : (interrupted P g b k).genesisHash = none ∧
    initialized P g b (interrupted P g b k) = initialized P g b .empty := by
  have hagain : ∀ d : Database, (d.putBlock P b).putBlock P b = d.putBlock P b := by
    intro d
    unfold Database.putBlock
    dsimp only
    rw [Finmap.insert_insert, Finmap.insert_insert]
  rcases (by omega : k = 0 ∨ k = 1 ∨ k = 2) with rfl | rfl | rfl
  · exact ⟨rfl, rfl⟩
  · refine ⟨rfl, ?_⟩
    show initialized P g b (Database.empty.putBlock P b) = _
    unfold initialized
    rw [hagain]
  · refine ⟨rfl, ?_⟩
    have hheight : (((Database.empty.putBlock P b).setChainHeight 0).putBlock P b).setChainHeight 0
        = ((Database.empty.putBlock P b).putBlock P b).setChainHeight 0 := rfl
    show initialized P g b ((Database.empty.putBlock P b).setChainHeight 0) = _
    unfold initialized
    rw [hheight, hagain]

/-- From the genesis hash on, the writes that were made are some of the records and then the epoch.
-/
theorem interrupted_marked (hk : 3 ≤ k) : interrupted P g b k =
    applyWrites ((recordWrites g ++ [epochWrite g]).take (k - 3)) (marked P b) := by
  have htake : (genesisWrites P g b).take k =
      markerWrites P b ++ (recordWrites g ++ [epochWrite g]).take (k - 3) := by
    unfold genesisWrites
    rw [List.take_append, List.take_of_length_le (show (markerWrites P b).length ≤ k from hk)]
    rfl
  unfold interrupted marked
  rw [htake, applyWrites_append]

theorem field_interrupted {β : Type} {f : Database → β} (ha : ∀ d a, f (d.putAccount a) = f d)
    (hv : ∀ d v, f (d.putValidator v) = f d) (he : ∀ d e, f (d.putEpoch e) = f d) (hk : 3 ≤ k) :
    f (interrupted P g b k) = f (marked P b) := by
  rw [interrupted_marked hk]
  refine field_applyWrites (fun w hw d => ?_) _
  rcases List.mem_append.mp (List.mem_of_mem_take hw) with hw | hw
  · exact field_recordWrites ha hv hw d
  · rw [List.mem_singleton.mp hw]
    exact he d _

theorem epochs_interrupted (hk : 3 ≤ k) (hlt : k < (genesisWrites P g b).length) :
    (interrupted P g b k).epochs = ∅ := by
  rw [length_genesisWrites] at hlt
  rw [interrupted_marked hk, List.take_append_of_le_length (by omega)]
  have hkeep := field_applyWrites (f := Database.epochs)
    (l := (recordWrites g).take (k - 3)) (fun w hw d =>
      field_recordWrites (fun _ _ => rfl) (fun _ _ => rfl) (List.mem_of_mem_take hw) d)
    (marked P b)
  exact hkeep

/-- **After the genesis hash is written**, the next start reads the height and the head, computes
the epoch and writes nothing. -/
theorem fromGenesis_interrupted (hv : g.validate = .ok ()) (hb : g.toGenesisBlock = some b)
    (hk : 3 ≤ k) : fromGenesis P g (interrupted P g b k) =
      (.ok ((reloadedEpoch g 0).map fun e => ⟨b, 0, e, interrupted P g b k⟩),
        interrupted P g b k) := by
  have hhash : (interrupted P g b k).genesisHash = some (b.hash P) :=
    field_interrupted (f := Database.genesisHash) (fun _ _ => rfl) (fun _ _ => rfl)
      (fun _ _ => rfl) hk
  have hheight : (interrupted P g b k).chainHeight = some 0 :=
    field_interrupted (f := Database.chainHeight) (fun _ _ => rfl) (fun _ _ => rfl)
      (fun _ _ => rfl) hk
  have hhead : (interrupted P g b k).blocks.lookup 0 = some b := by
    rw [field_interrupted (f := Database.blocks) (fun _ _ => rfl) (fun _ _ => rfl)
      (fun _ _ => rfl) hk, ← number_of_toGenesisBlock hb]
    exact Finmap.lookup_insert _
  have h0 : (interrupted P g b k).chainHeight.getD 0 = 0 := by rw [hheight]; rfl
  unfold fromGenesis
  simp only [hv, hb, run_loadOrInit, hhash]
  rw [if_neg (not_not.mpr rfl), run_reload, h0, hhead]
  cases reloadedEpoch g 0 <;> rfl

theorem interrupted_of_length_le (hk : (genesisWrites P g b).length ≤ k) :
    interrupted P g b k = initialized P g b .empty := by
  unfold interrupted
  rw [List.take_of_length_le hk, applyWrites_genesisWrites]

theorem reloadedEpoch_zero_iff (hlen : epochLength g < 2 ^ 64) :
    reloadedEpoch g 0 = some (firstEpoch g) ↔ 0 < epochLength g := by
  by_cases hL : 0 < epochLength g
  · have hadd : (addU 64 (0 * epochLength g) (epochLength g)).val = epochLength g := by
      rw [addU, Nat.zero_mul, Nat.zero_add]
      exact Nat.mod_eq_of_lt hlen
    rw [reloadedEpoch_eq hL (by decide)]
    unfold epochAt firstEpoch
    rw [Nat.zero_div, hadd, Nat.zero_mul]
    simp [hL]
  · have hnone : reloadedEpoch g 0 = none := if_pos (Nat.eq_zero_of_not_pos hL)
    simp [hnone, hL]

/-- **An interrupted first start** is made good by the next start exactly where it stopped before
the genesis hash was written, or after the last write and the epoch length is not zero. In between,
the next start finds the genesis hash and leaves the missing records missing. -/
theorem interrupted_recovers_iff (P : Primitives) {g : GenesisConfig} {b : Block}
    (hlen : epochLength g < 2 ^ 64) (hv : g.validate = .ok ()) (hb : g.toGenesisBlock = some b)
    (k : ℕ) : fromGenesis P g (interrupted P g b k) = fromGenesis P g Database.empty ↔
      k < 3 ∨ (genesisWrites P g b).length ≤ k ∧ 0 < epochLength g := by
  rw [fromGenesis_fresh P hv hb (d := .empty) rfl]
  rcases Nat.lt_or_ge k 3 with hk | hk
  · obtain ⟨hnone, hsame⟩ := initialized_interrupted (P := P) (g := g) (b := b) hk
    rw [fromGenesis_fresh P hv hb hnone, hsame]
    simp [hk]
  · rw [fromGenesis_interrupted hv hb hk]
    rcases Nat.lt_or_ge k (genesisWrites P g b).length with hlt | hge
    · -- the first epoch is missing
      have hepochs : interrupted P g b k ≠ initialized P g b .empty := by
        intro heq
        have hlookup := congrArg (fun d : Database => d.epochs.lookup 0) heq
        have hfound : (initialized P g b .empty).epochs.lookup 0 = some (firstEpoch g) :=
          Finmap.lookup_insert _
        rw [epochs_interrupted hk hlt, hfound] at hlookup
        cases hlookup
      constructor
      · intro h
        exact absurd (congrArg Prod.snd h) hepochs
      · intro h
        omega
    · -- nothing is missing, and the epoch is computed from the length of an epoch
      have hlate : (k < 3 ∨ (genesisWrites P g b).length ≤ k ∧ 0 < epochLength g) ↔
          0 < epochLength g := by omega
      rw [interrupted_of_length_le hge, hlate, ← reloadedEpoch_zero_iff hlen]
      cases reloadedEpoch g 0 with
      | none => simp
      | some e => simp

/-- A full disk at the third write. -/
theorem genesis_hash_write_fails :
    (fromGenesis .small Small.genesis (⟨.empty, some 3, .database "full", []⟩ : FaultyStore)).1 =
        .error (.storage (.database "full")) ∧
      (fromGenesis .small Small.genesis
          (⟨.empty, some 3, .database "full", []⟩ : FaultyStore)).2.content =
        interrupted .small Small.genesis Small.genesisBlock 2 :=
  fromGenesis_fault (by decide +kernel) rfl (by decide +kernel) _

/-- A first start that stopped after the height is made good. -/
theorem interrupted_before_hash_recovers :
    fromGenesis .small Small.genesis (interrupted .small Small.genesis Small.genesisBlock 2) =
      fromGenesis .small Small.genesis Database.empty :=
  (interrupted_recovers_iff .small (by decide) (by decide +kernel) rfl 2).mpr (.inl (by decide))

/-- A first start that stopped after the genesis hash: the next start succeeds without the account,
the validator and the epoch of the genesis file. -/
theorem interrupted_after_hash_loses : ∃ s d,
    fromGenesis .small Small.genesis (interrupted .small Small.genesis Small.genesisBlock 3) =
      (.ok (some s), d) ∧
    d.accounts.lookup ((KeyPair.small 2).address .small) = none ∧
    d.validators.lookup ((KeyPair.small 1).address .small) = none ∧
    d.epochs.lookup 0 = none ∧
    fromGenesis .small Small.genesis (interrupted .small Small.genesis Small.genesisBlock 3) ≠
      fromGenesis .small Small.genesis Database.empty := by
  have hstart := fromGenesis_interrupted (P := .small) (g := Small.genesis)
    (b := Small.genesisBlock) (by decide +kernel) rfl (k := 3) (by decide)
  refine ⟨_, _, hstart, rfl, rfl, rfl, fun heq => ?_⟩
  rw [fromGenesis_fresh .small (g := Small.genesis) (b := Small.genesisBlock) (d := .empty)
    (by decide +kernel) rfl rfl, hstart] at heq
  have hepoch := congrArg (fun r => r.2.epochs.lookup 0) heq
  cases hepoch

/-! ### What the genesis hash covers -/

/-- The two files agree in what goes into the genesis block. -/
structure SameGenesisBlock (g₁ g₂ : GenesisConfig) : Prop where
  chainId : g₁.chainId = g₂.chainId
  chainName : g₁.chainName = g₂.chainName
  timestamp : g₁.timestamp = g₂.timestamp
  gasLimit : g₁.gasLimit = g₂.gasLimit
  validator : g₁.initialValidators.head?.map (fun v => (v.address, v.publicKey)) =
    g₂.initialValidators.head?.map (fun v => (v.address, v.publicKey))

/-- The two files agree in what the state is built from. -/
structure SameGenesisState (g₁ g₂ : GenesisConfig) : Prop where
  accounts : g₁.initialAccounts = g₂.initialAccounts
  validators : g₁.initialValidators = g₂.initialValidators
  params : g₁.consensusParams = g₂.consensusParams

theorem extraData_injective {n₁ n₂ : String}
    (h : (s!"rustchain genesis: {n₁}").toUTF8.data.toList =
      (s!"rustchain genesis: {n₂}").toUTF8.data.toList) : n₁ = n₂ := by
  have hbytes : (s!"rustchain genesis: {n₁}").toUTF8 = (s!"rustchain genesis: {n₂}").toUTF8 :=
    ByteArray.ext (Array.toList_inj.mp h)
  have hstr := String.toByteArray_inj.mp hbytes
  exact (String.append_right_inj _).mp hstr

theorem toGenesisBlock_eq_iff {g₁ g₂ : GenesisConfig} {b₁ b₂ : Block}
    (hb₁ : g₁.toGenesisBlock = some b₁) (hb₂ : g₂.toGenesisBlock = some b₂) :
    b₁.header = b₂.header ↔ SameGenesisBlock g₁ g₂ := by
  obtain ⟨v₁, hv₁, rfl⟩ := Option.map_eq_some_iff.mp hb₁
  obtain ⟨v₂, hv₂, rfl⟩ := Option.map_eq_some_iff.mp hb₂
  constructor
  · intro h
    refine ⟨congrArg BlockHeader.chainId h, extraData_injective (congrArg BlockHeader.extraData h),
      congrArg BlockHeader.timestamp h, congrArg BlockHeader.gasLimit h, ?_⟩
    rw [hv₁, hv₂]
    exact congrArg some (Prod.ext (congrArg BlockHeader.validator h)
      (congrArg BlockHeader.validatorPubkey h))
  · intro h
    have hv := h.validator
    rw [hv₁, hv₂] at hv
    obtain ⟨ha, hk⟩ := Prod.mk.inj (Option.some.inj hv)
    rw [h.chainId, h.timestamp, h.gasLimit, h.chainName, ha, hk]

theorem genesis_hash_eq_iff {g₁ g₂ : GenesisConfig} {b₁ b₂ : Block}
    (hb₁ : g₁.toGenesisBlock = some b₁) (hb₂ : g₂.toGenesisBlock = some b₂)
    (hcf : BlockHeader.CollisionFree P {b₁.header, b₂.header}) :
    b₁.hash P = b₂.hash P ↔ SameGenesisBlock g₁ g₂ := by
  rw [← toGenesisBlock_eq_iff hb₁ hb₂]
  constructor
  · intro h
    have hun := hcf b₁.header (.inl rfl) b₂.header (.inr rfl) h
    obtain ⟨v₁, -, rfl⟩ := Option.map_eq_some_iff.mp hb₁
    obtain ⟨v₂, -, rfl⟩ := Option.map_eq_some_iff.mp hb₂
    exact hun
  · intro h
    exact congrArg (BlockHeader.hash P) h

/-- The error of a start with another genesis block. -/
def genesisMismatch : ConsensusError :=
  .stateTransition "genesis hash mismatch with existing database"

/-- **A start on the database of a chain** is refused for its genesis hash exactly if the hash is
another one. -/
theorem fromGenesis_mismatch_iff {g₂ : GenesisConfig} {b₁ b₂ : Block} {d : Database}
    (hv : g₂.validate = .ok ()) (hb₂ : g₂.toGenesisBlock = some b₂)
    (hd : d.genesisHash = some (b₁.hash P)) :
    (fromGenesis P g₂ d).1 = .error genesisMismatch ↔ b₁.hash P ≠ b₂.hash P := by
  unfold fromGenesis
  simp only [hv, hb₂, run_loadOrInit, hd]
  split_ifs with hne
  · exact ⟨fun _ => hne, fun _ => rfl⟩
  · refine ⟨fun h => absurd h ?_, fun h => absurd h hne⟩
    rw [run_reload]
    cases d.blocks.lookup (d.chainHeight.getD 0) with
    | none => simp [Except.map, genesisMismatch]
    | some head => simp [Except.map]

/-- **The genesis check**: on the database of any run from one genesis file, a start from another
file is refused for its genesis exactly if they differ in what goes into the genesis block. So that
no start from a file with other accounts, validators or parameters is let through, they would have
to differ in the genesis block too. -/
theorem genesis_check_iff (P : Primitives) (W : Wasmtime) (cfg : VmConfig) {g₁ g₂ : GenesisConfig}
    {b₁ b₂ : Block} {s : ChainState Database} (hs : Reachable P W cfg g₁ s)
    (hv : g₂.validate = .ok ()) (hb₁ : g₁.toGenesisBlock = some b₁)
    (hb₂ : g₂.toGenesisBlock = some b₂)
    (hcf : BlockHeader.CollisionFree P {b₁.header, b₂.header}) :
    ((fromGenesis P g₂ s.storage).1 = .error genesisMismatch ↔ ¬ SameGenesisBlock g₁ g₂) ∧
    (((fromGenesis P g₂ s.storage).1 ≠ .error genesisMismatch → SameGenesisState g₁ g₂) ↔
      (SameGenesisBlock g₁ g₂ → SameGenesisState g₁ g₂)) := by
  have hstored : Stored P g₁ s := by
    obtain ⟨s₀, ops, h0, hrun⟩ := hs
    exact hrun.invariant (stored_start h0) fun _ _ _ h _ hstep => stored_chainStep h hstep
  obtain ⟨b, hb, hd⟩ := hstored.genesis
  obtain rfl : b = b₁ := Option.some.inj (hb.symm.trans hb₁)
  have hiff : (fromGenesis P g₂ s.storage).1 = .error genesisMismatch ↔
      ¬ SameGenesisBlock g₁ g₂ := by
    rw [fromGenesis_mismatch_iff hv hb₂ hd, Ne, genesis_hash_eq_iff hb₁ hb₂ hcf]
  exact ⟨hiff, by rw [Ne, hiff, not_not]⟩

namespace Small

def laterGenesis : GenesisConfig := { genesis with timestamp := 1 }

def richerGenesis : GenesisConfig :=
  { genesis with
    initialAccounts := [⟨(KeyPair.small 2).address .small, 2 * 10 ^ 6⟩]
    initialValidators :=
      [⟨(KeyPair.small 1).address .small, (KeyPair.small 1).publicKey .small, 200⟩]
    consensusParams := { genesis.consensusParams with epochLength := 20 } }

end Small

/-- A start with another timestamp is refused. -/
theorem later_genesis_refused :
    (fromGenesis .small Small.laterGenesis Small.start.storage).1 = .error genesisMismatch :=
  (genesis_check_iff .small .small .default Small.reachable_start (by decide +kernel) rfl rfl
    (BlockHeader.collisionFree_of_hash_ne _ (by decide +kernel))).1.mpr fun h => by
      cases h.timestamp

/-- A start with other accounts, stakes and parameters is let through. -/
theorem richer_genesis_accepted : Reachable .small .small .default Small.genesis Small.start ∧
    Small.richerGenesis.validate = .ok () ∧
    (fromGenesis .small Small.richerGenesis Small.start.storage).1 ≠ .error genesisMismatch ∧
    Small.genesis.initialAccounts ≠ Small.richerGenesis.initialAccounts ∧
    Small.genesis.initialValidators ≠ Small.richerGenesis.initialValidators ∧
    Small.genesis.consensusParams ≠ Small.richerGenesis.consensusParams := by
  refine ⟨Small.reachable_start, by decide +kernel, ?_, by decide +kernel, by decide +kernel,
    by decide +kernel⟩
  have hhash : Small.start.storage.genesisHash = some (Small.genesisBlock.hash .small) :=
    genesisHash_initialized .small Small.genesis Small.genesisBlock _
  have hblock : Small.richerGenesis.toGenesisBlock = some Small.genesisBlock := rfl
  rw [Ne, fromGenesis_mismatch_iff (by decide +kernel) hblock hhash]
  exact not_not.mpr rfl

end Rustchain.Consensus

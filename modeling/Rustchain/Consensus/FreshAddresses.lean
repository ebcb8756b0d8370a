import Rustchain.Consensus.ContractBalances
import Rustchain.Consensus.Contracts
import Rustchain.Consensus.Node

/-! # Addresses of contracts

The address of a contract is derived from its deployer and the number of the block, and the new
account is written there whatever there is. An address has an account from the moment on at which
the genesis file names it, or an executed transaction writes it: as the sender, as the recipient of
a transfer, through a balance change of a contract, or through a deployment. So a deployment meets
an account exactly if one of these came before it. The nonce is not in the derivation: two
deployments of one sender in one block share their address. -/

namespace Rustchain.Consensus

open Rustchain.Core Storage Vm Lib.Machine Lib.Maps Lib.Partial Lib.Runs

/-! ### Turns -/

/-- A transaction that passes the checks of execution, with its block and the loop state at its
turn. -/
structure Turn (W : Wasmtime) where
  block : Block
  stx : SignedTransaction
  loop : Loop W.Module Database

namespace Turn

variable {W : Wasmtime} (P : Primitives) (cfg : VmConfig) (t : Turn W) (a : Address)

/-- The contract execution of the transaction, if it succeeds. -/
def run : Option Exec.ContractRun := Exec.contractRun P W cfg t.block t.stx t.loop

/-- The transaction is a deployment and succeeds. -/
def Deploys : Prop := t.stx.transaction.txType = .contractDeploy ∧ (t.run P cfg).isSome

instance : Decidable (t.Deploys P cfg) := by unfold Deploys; infer_instance

def address : Address := deployAddress P t.stx.sender t.block.header.number

/-- The transaction is a transfer to the address. -/
def PaysTo : Prop :=
  t.stx.transaction.txType = .transfer ∧ a = t.stx.transaction.toAddr.getD Address.zero

/-- The contract execution of the transaction changes the balance of the address. -/
def MovesBalanceOf : Prop := ∃ r ∈ t.run P cfg, a ∈ r.context.balanceChanges

/-- The transaction writes the account of the address. -/
def Touches : Prop :=
  a = t.stx.sender ∨ t.PaysTo a ∨ t.MovesBalanceOf P cfg a ∨ t.Deploys P cfg ∧ a = t.address P

end Turn

/-! ### The accounts that there are -/

theorem mem_foldl_balanceMoved (a : Address) (es : List (Sigma fun _ : Address => ℤ))
    (t : Table Address Account) : a ∈ es.foldl balanceMoved t ↔ a ∈ t ∨ a ∈ es.keys := by
  induction es generalizing t with
  | nil => simp
  | cons e es ih =>
    rw [List.foldl_cons, ih, balanceMoved, Finmap.mem_insert, List.keys_cons, List.mem_cons,
      or_assoc, or_left_comm]

theorem mem_balancesFlushed (a : Address) (c : ExecutionContext) (t : Table Address Account) :
    a ∈ balancesFlushed c t ↔ a ∈ t ∨ a ∈ c.balanceChanges :=
  mem_foldl_balanceMoved a _ t

theorem Loop.mem_put {M : Type} (l : Loop M Database) (a b : Address) (x : Account) :
    a ∈ (l.put b x).accounts ↔ a = b ∨ a ∈ l.accounts := by
  rw [Loop.accounts_put, Finmap.mem_insert]

namespace Exec

section
variable {P : Primitives} {W : Wasmtime} {cfg : VmConfig} {ord : HashOrders}
variable {block : Block} {stx : SignedTransaction} {l l' : Loop W.Module Database}
variable {x x' : Account} {o : Outcome}

theorem mem_executeDeploy (ht : stx.transaction.txType = .contractDeploy)
    (h : executeDeploy P W cfg ord block stx.transaction stx.sender x (entered l stx) =
      some ((x', o), l')) (a : Address) :
    a ∈ l'.accounts ↔ a ∈ l.accounts ∨ ∃ r ∈ contractRun P W cfg block stx l,
      a ∈ r.context.balanceChanges ∨ a = deployAddress P stx.sender block.header.number := by
  cases deployRun_of_eq_some P W cfg ord h with
  | refused hvm =>
    have hrun : contractRun P W cfg block stx l = none := contractRun_refused ht hvm
    rw [hrun]
    simp only [Option.not_mem_none, false_and, exists_false, or_false]
    exact Iff.rfl
  | @done r s l1 _ _ hvm hflush hrefund =>
    have hrun : contractRun P W cfg block stx l =
        some ⟨r.contractAddress, r.gasUsed, s.context⟩ := contractRun_deploy ht hvm
    obtain ⟨b, ov, -, rfl, -⟩ := refundGas_spec hrefund
    have haddr := (deployContract_result hvm).1
    simp only [vmOn, contextFor, ExecutionContext.new] at haddr
    have hsame : a ∈ (afterVm W (entered l stx) s).accounts ↔ a ∈ l.accounts := Iff.rfl
    show a ∈ l1.accounts ↔ _
    rw [(flushed_of_flush hflush).accounts, mem_balancesFlushed, accounts_withContract,
      Finmap.mem_insert, hsame, haddr, hrun]
    simp only [Option.mem_some_iff, exists_eq_left']
    rw [or_assoc, or_comm, or_assoc]

theorem mem_executeCall (ht : stx.transaction.txType = .contractCall)
    (h : executeCall P W cfg ord block stx.transaction stx.sender x (entered l stx) =
      some ((x', o), l')) (a : Address) :
    a ∈ l'.accounts ↔ a ∈ l.accounts ∨ ∃ r ∈ contractRun P W cfg block stx l,
      a ∈ r.context.balanceChanges := by
  -- without a run nothing is written
  have hnone : contractRun P W cfg block stx l = none → l'.accounts = l.accounts →
      (a ∈ l'.accounts ↔ a ∈ l.accounts ∨ ∃ r ∈ contractRun P W cfg block stx l,
        a ∈ r.context.balanceChanges) := by
    intro hrun hacc
    rw [hrun, hacc]
    simp
  cases callRun_of_eq_some P W cfg ord h with
  | noCode hcode => exact hnone (contractRun_noCode ht hcode) rfl
  | refused hcode hvm => exact hnone (contractRun_call_refused ht hcode hvm) rfl
  | failed hcode hvm hst hrefund =>
    obtain ⟨b, ov, -, rfl, -⟩ := refundGas_spec hrefund
    exact hnone (contractRun_failed ht hcode hvm hst) rfl
  | @done _ _ _ l1 _ _ hcode hvm hst hflush hrefund =>
    obtain ⟨b, ov, -, rfl, -⟩ := refundGas_spec hrefund
    show a ∈ l1.accounts ↔ _
    rw [(flushed_of_flush hflush).accounts, mem_balancesFlushed,
      contractRun_call (l := l) ht hcode hvm hst]
    simp only [Option.mem_some_iff, exists_eq_left']
    exact Iff.rfl

theorem mem_executeTx {i : ℕ} (hp : Passes l stx)
    (h : executeTx P W cfg ord block i stx l = some ((), l')) (a : Address) :
    a ∈ l'.accounts ↔ a ∈ l.accounts ∨ Turn.Touches P cfg ⟨block, stx, l⟩ a := by
  obtain ⟨y, o, l1, htype, rfl⟩ := executeTx_run P W cfg ord hp h
  rw [accounts_finished, Finmap.mem_insert]
  suffices hl1 : a ∈ l1.accounts ↔ a ∈ l.accounts ∨ Turn.PaysTo ⟨block, stx, l⟩ a ∨
      Turn.MovesBalanceOf P cfg ⟨block, stx, l⟩ a ∨
      Turn.Deploys P cfg ⟨block, stx, l⟩ ∧ a = Turn.address P ⟨block, stx, l⟩ by
    rw [hl1]
    exact or_left_comm
  unfold executeType at htype
  unfold Turn.PaysTo Turn.MovesBalanceOf Turn.Deploys Turn.address Turn.run
  dsimp only
  cases ht : stx.transaction.txType with
  | transfer =>
    rw [ht] at htype
    obtain ⟨tb, b, ov, -, rfl, -⟩ := executeTransfer_spec htype
    have hput := Loop.mem_put (entered l stx) a (stx.transaction.toAddr.getD Address.zero)
      { accountOf (entered l stx).accounts (stx.transaction.toAddr.getD Address.zero) with
        balance := tb }
    rw [accounts_entered] at hput
    rw [contractRun_eq_none (by simp [ht]) (by simp [ht])]
    simp only [Option.not_mem_none, false_and, exists_false, or_false, reduceCtorEq, true_and]
    exact hput.trans or_comm
  | contractDeploy =>
    rw [ht] at htype
    rw [mem_executeDeploy ht htype a]
    cases contractRun P W cfg block stx l with
    | none => simp
    | some r => simp
  | contractCall =>
    rw [ht] at htype
    rw [mem_executeCall ht htype a]
    simp
  | stake =>
    rw [ht] at htype
    rw [(executeStake_spec htype).1.accounts_eq, accounts_entered,
      contractRun_eq_none (by simp [ht]) (by simp [ht])]
    simp
  | unstake =>
    rw [ht] at htype
    rw [(executeUnstake_spec htype).1.accounts_eq, accounts_entered,
      contractRun_eq_none (by simp [ht]) (by simp [ht])]
    simp

theorem accounts_executeTx_skip {i : ℕ} (hp : ¬ Passes l stx)
    (h : executeTx P W cfg ord block i stx l = some ((), l')) : l'.accounts = l.accounts := by
  obtain ⟨msg, ov, hs⟩ := executeTx_skip P W cfg ord block i hp
  rw [hs] at h
  obtain ⟨-, rfl⟩ := some_pair_inj h
  rfl

end

end Exec

/-! ### One block -/

/-- The turns of the transactions of a block, in order. -/
def Exec.turns (P : Primitives) (W : Wasmtime) (cfg : VmConfig) (ord : ℕ → HashOrders)
    (block : Block) : ℕ → List SignedTransaction → Loop W.Module Database → List (Turn W)
  | _, [], _ => []
  | i, stx :: txs, l =>
    (if Exec.Passes l stx then [⟨block, stx, l⟩] else []) ++
      match Exec.executeTx P W cfg (ord i) block i stx l with
      | none => []
      | some (_, l') => Exec.turns P W cfg ord block (i + 1) txs l'

section
variable (P : Primitives) {W : Wasmtime} (cfg : VmConfig) (G : Address → Prop)

/-- The addresses with an account are those of the genesis and those that the turns touch. -/
def Tracks (h : List (Turn W)) (accounts : Table Address Account) : Prop :=
  ∀ a, a ∈ accounts ↔ G a ∨ ∃ u ∈ h, u.Touches P cfg a

/-- Every turn finds the accounts that the turns before it leave. -/
inductive Traced : List (Turn W) → Prop
  | nil : Traced []
  | snoc {h : List (Turn W)} {t : Turn W} :
      Traced h → Tracks P cfg G h t.loop.accounts → Traced (h ++ [t])

end

section
variable {P : Primitives} {W : Wasmtime} {cfg : VmConfig} {G : Address → Prop}

theorem Tracks.snoc {h : List (Turn W)} {t : Turn W} {accounts accounts' : Table Address Account}
    (hh : Tracks P cfg G h accounts)
    (ht : ∀ a, a ∈ accounts' ↔ a ∈ accounts ∨ t.Touches P cfg a) :
    Tracks P cfg G (h ++ [t]) accounts' := by
  intro a
  rw [ht a, hh a]
  simp only [List.mem_append, List.mem_singleton, or_and_right, exists_or, exists_eq_left, or_assoc]

theorem Exec.traced_executeTxs {ord : ℕ → HashOrders} {block : Block}
    (txs : List SignedTransaction) : ∀ {i : ℕ} {l l' : Loop W.Module Database}
      {h : List (Turn W)}, Exec.executeTxs P W cfg ord block i txs l = some ((), l') →
      Traced P cfg G h → Tracks P cfg G h l.accounts →
      Traced P cfg G (h ++ Exec.turns P W cfg ord block i txs l) ∧
        Tracks P cfg G (h ++ Exec.turns P W cfg ord block i txs l) l'.accounts := by
  induction txs with
  | nil =>
    intro i l l' h hx htr hacc
    obtain ⟨-, rfl⟩ := pure_eq_some hx
    rw [Exec.turns, List.append_nil]
    exact ⟨htr, hacc⟩
  | cons stx txs ih =>
    intro i l l' h hx htr hacc
    unfold Exec.executeTxs at hx
    obtain ⟨_, l1, h1, h2⟩ := bind_eq_some.mp hx
    rw [Exec.turns, h1, ← List.append_assoc]
    by_cases hp : Exec.Passes l stx
    · rw [if_pos hp]
      exact ih h2 (htr.snoc hacc) (hacc.snoc (Exec.mem_executeTx hp h1))
    · rw [if_neg hp, List.append_nil]
      refine ih h2 htr ?_
      rw [Exec.accounts_executeTx_skip hp h1]
      exact hacc

theorem Exec.block_of_mem_turns {ord : ℕ → HashOrders} {block : Block} {t : Turn W}
    (txs : List SignedTransaction) : ∀ {i : ℕ} {l : Loop W.Module Database},
      t ∈ Exec.turns P W cfg ord block i txs l → t.block = block := by
  induction txs with
  | nil => simp [Exec.turns]
  | cons stx txs ih =>
    intro i l ht
    rw [Exec.turns, List.mem_append] at ht
    rcases ht with ht | ht
    · split_ifs at ht
      · rw [List.mem_singleton.mp ht]
      · cases ht
    · cases hx : Exec.executeTx P W cfg (ord i) block i stx l with
      | none => simp [hx] at ht
      | some r =>
        rw [hx] at ht
        exact ih ht

end

/-! ### Runs -/

def turnsBy (P : Primitives) (W : Wasmtime) (cfg : VmConfig) (s : ChainState Database) :
    ChainOp W → List (Turn W)
  | .applyBlock ord cache block =>
    Exec.turns P W cfg ord block 0 block.transactions (s.toLoop cache)
  | _ => []

/-- A step of a node that adds its turns to the history of the chain. -/
def TracedStep (P : Primitives) (W : Wasmtime) (cfg : VmConfig) (g : GenesisConfig)
    (r : ChainState Database × List (Turn W)) (op : ChainOp W)
    (r' : ChainState Database × List (Turn W)) : Prop :=
  ChainStep P W cfg g r.1 op r'.1 ∧ r'.2 = r.2 ++ turnsBy P W cfg r.1 op

/-- The genesis file gives the address an account. -/
def InGenesis (g : GenesisConfig) (a : Address) : Prop :=
  a ∈ g.initialAccounts.map (·.address)

/-- What is known of a run: the accounts and every turn are tracked, and block numbers are in
range. -/
structure TracedInv (P : Primitives) {W : Wasmtime} (cfg : VmConfig) (g : GenesisConfig)
    (r : ChainState Database × List (Turn W)) : Prop where
  node : NodeInv r.1
  traced : Traced P cfg (InGenesis g) r.2
  accounts : Tracks P cfg (InGenesis g) r.2 r.1.storage.accounts
  numbered : ∀ t ∈ r.2, t.block.header.number < 2 ^ 64

section
variable {P : Primitives} {W : Wasmtime} {cfg : VmConfig} {g : GenesisConfig}

theorem TracedInv.quiet {s s' : ChainState Database} {h : List (Turn W)}
    (hi : TracedInv P cfg g (s, h)) (hn : NodeInv s')
    (ha : s'.storage.accounts = s.storage.accounts) : TracedInv P cfg g (s', h ++ []) := by
  rw [List.append_nil]
  refine ⟨hn, hi.traced, ?_, hi.numbered⟩
  rw [ha]
  exact hi.accounts

theorem tracedInv_applyBlock {s s' : ChainState Database} {h : List (Turn W)}
    {ord : ℕ → HashOrders} {cache : HashMap Blake3Hash W.Module} {block : Block}
    (hi : TracedInv P cfg g (s, h))
    (hs : ChainStep P W cfg g s (.applyBlock ord cache block) s') :
    TracedInv P cfg g (s', h ++ turnsBy P W cfg s (.applyBlock ord cache block)) := by
  have hn := nodeInv_step P hi.node hs
  obtain ⟨r, rs, ha, hok, rfl⟩ := hs
  obtain ⟨-, hnum, l, hl, rfl⟩ := applyBlock_ok ha hok
  have hkeyed : Keyed l.accounts := by
    refine (Exec.executeTxs_effect hl).keyed ?_
    rw [Loop.accounts_toLoop]
    exact hi.node.keyed
  have hloop : Tracks P cfg (InGenesis g) h (s.toLoop cache).accounts := by
    rw [Loop.accounts_toLoop]
    exact hi.accounts
  obtain ⟨htr, hacc⟩ := Exec.traced_executeTxs block.transactions hl hi.traced hloop
  refine ⟨hn, htr, ?_, ?_⟩
  · show Tracks P cfg (InGenesis g) _ (l.storage.commitBlock P block l.receipts _).accounts
    rw [accounts_commitBlock hkeyed]
    exact hacc
  · intro t ht
    rcases List.mem_append.mp ht with ht | ht
    · exact hi.numbered t ht
    · rw [Exec.block_of_mem_turns _ ht, hnum]
      exact Nat.mod_lt _ (by decide)

theorem tracedInv_step {r r' : ChainState Database × List (Turn W)} {op : ChainOp W}
    (hi : TracedInv P cfg g r) (hs : TracedStep P W cfg g r op r') : TracedInv P cfg g r' := by
  obtain ⟨s, h⟩ := r
  obtain ⟨s', h'⟩ := r'
  obtain ⟨hstep, hh⟩ := hs
  dsimp only at hstep hh
  subst hh
  have hn := nodeInv_step P hi.node hstep
  cases op with
  | applyBlock ord cache block => exact tracedInv_applyBlock hi hstep
  | advanceEpoch params now =>
    refine hi.quiet hn ?_
    rw [← show _ = s' from hstep, accounts_maybeAdvanceEpoch]
  | putValidator v => exact hi.quiet hn (by rw [← show _ = s' from hstep]; rfl)
  | restart =>
    obtain ⟨d, hd⟩ := hstep
    exact hi.quiet hn (by rw [storage_restart P hi.node hd])

theorem mem_foldl_putAccount (a : Address) (l : List GenesisAccount) (d : Database) :
    a ∈ (l.foldl (fun d x => d.putAccount (Account.new x.address x.balance)) d).accounts ↔
      a ∈ d.accounts ∨ a ∈ l.map (·.address) := by
  induction l generalizing d with
  | nil => simp
  | cons x l ih =>
    have hput : a ∈ (d.putAccount (Account.new x.address x.balance)).accounts ↔
        a = x.address ∨ a ∈ d.accounts := Finmap.mem_insert
    rw [List.foldl_cons, ih, hput, List.map_cons, List.mem_cons, or_assoc, or_left_comm]

theorem mem_accounts_started {s : ChainState Database} (h : Started P g s) (a : Address) :
    a ∈ s.storage.accounts ↔ InGenesis g a := by
  obtain ⟨d, hd⟩ := h
  obtain ⟨-, b, -, ⟨-, rfl⟩ | ⟨hg, -⟩⟩ := fromGenesis_ok P hd
  · show a ∈ Database.accounts (g.toValidatorInfos.foldl (fun d v => d.putValidator v) _) ↔ _
    rw [field_foldl (f := Database.accounts) (w := fun d v => d.putValidator v) fun _ _ => rfl,
      mem_foldl_putAccount]
    exact or_iff_right (Finmap.notMem_empty)
  · cases hg

theorem tracedInv_of_run {s₀ s : ChainState Database} {ops : List (ChainOp W)}
    {h : List (Turn W)} (h0 : Started P g s₀)
    (hrun : Run (TracedStep P W cfg g) Free (s₀, []) ops (s, h)) : TracedInv P cfg g (s, h) := by
  refine hrun.invariant ?_ fun _ _ _ hi _ hs => tracedInv_step hi hs
  have hreach : Reachable P W cfg g s₀ := ⟨s₀, [], h0, .nil⟩
  refine ⟨Reachable.inv P hreach, .nil, fun a => ?_, by simp⟩
  simpa using mem_accounts_started h0 a

end

/-! ### The derivation -/

/-- What the address of a contract is the hash of. -/
def derivation (sender : Address) (number : ℕ) : Bytes :=
  hashMultipleInput [sender.asBytes, leBytes 64 number]

theorem length_derivation (sender : Address) (number : ℕ) :
    (derivation sender number).length = 44 := by
  simp [derivation, hashMultipleInput, length_leBytes, Address.length_asBytes]

theorem derivation_inj {sender sender' : Address} {number number' : ℕ} (hn : number < 2 ^ 64)
    (hn' : number' < 2 ^ 64) (h : derivation sender number = derivation sender' number') :
    sender = sender' ∧ number = number' := by
  obtain ⟨hs, hrest⟩ := framed_append_inj (by simp [sender.length_asBytes])
    (by simp [sender'.length_asBytes]) h
  obtain ⟨hbytes, -⟩ := framed_append_inj (by simp [length_leBytes]) (by simp [length_leBytes])
    hrest
  have hnum : number % 2 ^ 64 = number' % 2 ^ 64 := leBytes_inj hbytes
  rw [Nat.mod_eq_of_lt hn, Nat.mod_eq_of_lt hn'] at hnum
  exact ⟨Address.asBytes_injective hs, hnum⟩

/-- Blake3 has no collision on its first 20 bytes among the inputs. -/
def PrefixFree (P : Primitives) (inputs : List Bytes) : Prop :=
  ∀ x ∈ inputs, ∀ y ∈ inputs, (P.blake3 x).toAddress = (P.blake3 y).toAddress → x = y

/-- What addresses are derived from in a history: senders with block numbers, and public keys. -/
def derivations {W : Wasmtime} (h : List (Turn W)) : List Bytes :=
  h.map (fun t => derivation t.stx.sender t.block.header.number) ++
    h.map (·.stx.publicKey.asBytes)

section
variable {P : Primitives} {W : Wasmtime} {cfg : VmConfig} {h : List (Turn W)} {u t : Turn W}

theorem derivation_mem (ht : t ∈ h) :
    derivation t.stx.sender t.block.header.number ∈ derivations h :=
  List.mem_append_left _ (List.mem_map.mpr ⟨t, ht, rfl⟩)

theorem Turn.address_eq_iff (hfree : PrefixFree P (derivations h))
    (hnum : ∀ t ∈ h, t.block.header.number < 2 ^ 64) (hu : u ∈ h) (ht : t ∈ h) :
    u.address P = t.address P ↔
      u.stx.sender = t.stx.sender ∧ u.block.header.number = t.block.header.number := by
  constructor
  · intro heq
    exact derivation_inj (hnum u hu) (hnum t ht)
      (hfree _ (derivation_mem hu) _ (derivation_mem ht) heq)
  · rintro ⟨hs, hn⟩
    unfold Turn.address
    rw [hs, hn]

/-- A sender whose address belongs to its key does not stand at the address of a contract: a key has
32 bytes, a derivation 44. -/
theorem Turn.sender_ne_address (hfree : PrefixFree P (derivations h)) (hu : u ∈ h) (ht : t ∈ h)
    (hkey : u.stx.publicKey.toAddress P = u.stx.sender) : u.stx.sender ≠ t.address P := by
  rw [← hkey]
  intro heq
  have hbytes := hfree _ (List.mem_append_right _ (List.mem_map.mpr ⟨u, hu, rfl⟩)) _
    (derivation_mem ht) heq
  have hlen := congrArg List.length hbytes
  rw [length_derivation] at hlen
  simp [PublicKey.asBytes] at hlen

end

/-! ### Fresh addresses -/

section
variable (P : Primitives) {W : Wasmtime} (cfg : VmConfig)

/-- Every deployment creates its account at an address that had no account. -/
def AllFresh (h : List (Turn W)) : Prop :=
  ∀ t ∈ h, t.Deploys P cfg → t.address P ∉ t.loop.accounts

/-- A transaction leaves the address of a later deployment alone: it does not come from there, pays
nothing there, moves no balance there, and is no deployment of the same sender in the same block. -/
structure LeavesFree (u t : Turn W) : Prop where
  sender : u.stx.sender ≠ t.address P
  transfer : ¬ u.PaysTo (t.address P)
  balance : ¬ u.MovesBalanceOf P cfg (t.address P)
  deployment : u.Deploys P cfg → u.stx.sender = t.stx.sender →
    u.block.header.number ≠ t.block.header.number

end

section
variable {P : Primitives} {W : Wasmtime} {cfg : VmConfig}

theorem leavesFree_iff {h : List (Turn W)} {u t : Turn W} (hfree : PrefixFree P (derivations h))
    (hnum : ∀ t ∈ h, t.block.header.number < 2 ^ 64) (hu : u ∈ h) (ht : t ∈ h) :
    LeavesFree P cfg u t ↔ ¬ u.Touches P cfg (t.address P) := by
  have haddr := Turn.address_eq_iff hfree hnum hu ht
  unfold Turn.Touches
  rw [eq_comm (a := t.address P) (b := u.address P), haddr]
  constructor
  · rintro ⟨hs, hp, hb, hd⟩ (h | h | h | ⟨h, hsender, hnumber⟩)
    · exact hs h.symm
    · exact hp h
    · exact hb h
    · exact hd h hsender hnumber
  · intro hno
    exact ⟨fun h => hno (.inl h.symm), fun h => hno (.inr (.inl h)),
      fun h => hno (.inr (.inr (.inl h))),
      fun h hs hn => hno (.inr (.inr (.inr ⟨h, hs, hn⟩)))⟩

/-- Deployments in a tracked history meet no account exactly if the genesis file and all turns
before them leave their addresses alone. -/
theorem Traced.allFresh_iff {G : Address → Prop} {h : List (Turn W)} (htr : Traced P cfg G h) :
    AllFresh P cfg h ↔ (∀ t ∈ h, t.Deploys P cfg → ¬ G (t.address P)) ∧
      h.Pairwise fun u t => t.Deploys P cfg → ¬ u.Touches P cfg (t.address P) := by
  induction htr with
  | nil => simp [AllFresh]
  | @snoc h t _ hacc ih =>
    have hlast : t.address P ∉ t.loop.accounts ↔
        ¬ G (t.address P) ∧ ∀ u ∈ h, ¬ u.Touches P cfg (t.address P) := by
      rw [hacc, not_or, not_exists]
      simp only [not_and]
    have hsnoc : AllFresh P cfg (h ++ [t]) ↔
        AllFresh P cfg h ∧ (t.Deploys P cfg → t.address P ∉ t.loop.accounts) := by
      unfold AllFresh
      rw [List.forall_mem_append, List.forall_mem_singleton]
    rw [hsnoc, ih, hlast, List.forall_mem_append, List.forall_mem_singleton, List.pairwise_append]
    simp only [List.pairwise_singleton, List.forall_mem_singleton, true_and]
    constructor
    · rintro ⟨⟨hg, hp⟩, ht⟩
      exact ⟨⟨hg, fun hd => (ht hd).1⟩, hp, fun u hu hd => (ht hd).2 u hu⟩
    · rintro ⟨⟨hg, hgt⟩, hp, hpt⟩
      exact ⟨⟨hg, hp⟩, fun hd => ⟨hgt hd, fun u hu => hpt u hu hd⟩⟩

/-- **Fresh addresses**: in every run of a node, on whose derivations Blake3 has no collision in the
first 20 bytes, every deployment creates its account where there was none exactly if no genesis
account and no earlier transaction stands in the way, and then no two deployments share an address.
A verified sender never stands in the way; what does are genesis accounts, transfers, balance
changes of contracts, and deployments of the same sender in the same block. -/
theorem fresh_addresses_iff (P : Primitives) (W : Wasmtime) (cfg : VmConfig) {g : GenesisConfig}
    {s₀ s : ChainState Database} {ops : List (ChainOp W)} {h : List (Turn W)} (h0 : Started P g s₀)
    (hrun : Run (TracedStep P W cfg g) Free (s₀, []) ops (s, h))
    (hfree : PrefixFree P (derivations h)) :
    (AllFresh P cfg h ↔ (∀ t ∈ h, t.Deploys P cfg → ¬ InGenesis g (t.address P)) ∧
      h.Pairwise fun u t => t.Deploys P cfg → LeavesFree P cfg u t) ∧
    (AllFresh P cfg h →
      h.Pairwise fun u t => u.Deploys P cfg → t.Deploys P cfg → u.address P ≠ t.address P) ∧
    ∀ u ∈ h, u.stx.publicKey.toAddress P = u.stx.sender → ∀ t ∈ h, u.stx.sender ≠ t.address P := by
  have hinv := tracedInv_of_run h0 hrun
  have hiff := hinv.traced.allFresh_iff
  refine ⟨hiff.trans (and_congr_right fun _ => ?_), fun hall => ?_, ?_⟩
  · refine List.Pairwise.iff_of_mem fun {u t} hu ht => ?_
    rw [leavesFree_iff hfree hinv.numbered hu ht]
  · refine (hiff.mp hall).2.imp fun {u t} hno hu ht heq => ?_
    exact hno ht (.inr (.inr (.inr ⟨hu, heq.symm⟩)))
  · intro u hu hkey t ht
    exact Turn.sender_ne_address hfree hu ht hkey

end

namespace Small

def oneDeployment : Block := next genesisBlock [deployTx]

def twoDeployments : Block :=
  next genesisBlock [deployTx, tx 2 1 .contractDeploy none 7 Vm.Small.zeroCode]

def turnsOf (block : Block) : List (Turn .small) :=
  turnsBy .small .small .default start (.applyBlock (fun _ => .listed) ∅ block)

theorem run_turnsOf {block : Block} {a : Applied Small.Module Database}
    {rs : List TransactionReceipt} (ha : apply start block = some a) (hok : a.result = .ok rs) :
    Run (TracedStep .small .small .default genesis) Free (start, [])
      [.applyBlock (fun _ => .listed) ∅ block] (a.state, turnsOf block) :=
  .snoc .nil trivial ⟨⟨a, rs, ha, hok, rfl⟩, rfl⟩

end Small

/-- The one deployment of a chain meets no account. -/
theorem one_deployment_fresh : ∃ t, Small.turnsOf Small.oneDeployment = [t] ∧
    t.Deploys .small .default ∧ AllFresh .small .default (Small.turnsOf Small.oneDeployment) := by
  obtain ⟨a, rs, ha, hok, -⟩ := Small.apply_ok Small.start Small.oneDeployment
    (p := fun _ => True) (by decide +kernel)
  have hcheck : (Small.turnsOf Small.oneDeployment).length = 1 ∧
      ∀ t ∈ Small.turnsOf Small.oneDeployment, t.Deploys .small .default ∧
        t.address .small ∉ Small.genesis.initialAccounts.map (·.address) := by decide +kernel
  have hfree : PrefixFree .small (derivations (Small.turnsOf Small.oneDeployment)) := by
    unfold PrefixFree
    decide +kernel
  obtain ⟨t, ht⟩ := List.length_eq_one_iff.mp hcheck.1
  have hmem : t ∈ Small.turnsOf Small.oneDeployment := by simp [ht]
  refine ⟨t, ht, (hcheck.2 t hmem).1, ?_⟩
  refine (fresh_addresses_iff .small .small .default Small.started (Small.run_turnsOf ha hok)
    hfree).1.mpr ⟨fun u hu _ => (hcheck.2 u hu).2, ?_⟩
  rw [ht]
  exact List.pairwise_singleton ..

/-- Of two deployments of one sender in one block, the second takes the address of the first, and
the value that the first brought is gone. -/
theorem second_deployment_overwrites : ∃ s u t, Started .small Small.genesis Small.start ∧
    Run (TracedStep .small .small .default Small.genesis) Free (Small.start, [])
      [.applyBlock (fun _ => .listed) ∅ Small.twoDeployments] (s, [u, t]) ∧
    PrefixFree .small (derivations [u, t]) ∧ u.Deploys .small .default ∧
    t.Deploys .small .default ∧ u.address .small = t.address .small ∧
    (accountOf t.loop.accounts (t.address .small)).balance = 5 ∧
    (accountOf s.storage.accounts (t.address .small)).balance = 7 ∧
    ¬ AllFresh .small .default [u, t] := by
  obtain ⟨a, rs, ha, hok, hbalance⟩ := Small.apply_ok Small.start Small.twoDeployments
    (p := fun a => ∀ t ∈ Small.turnsOf Small.twoDeployments,
      (accountOf a.state.storage.accounts (t.address .small)).balance = 7) (by decide +kernel)
  have hcheck : (Small.turnsOf Small.twoDeployments).map
        (fun t => (accountOf t.loop.accounts (t.address .small)).balance) = [0, 5] ∧
      ∀ u ∈ Small.turnsOf Small.twoDeployments, u.Deploys .small .default ∧
        ∀ t ∈ Small.turnsOf Small.twoDeployments, u.address .small = t.address .small := by
    decide +kernel
  have hfree : PrefixFree .small (derivations (Small.turnsOf Small.twoDeployments)) := by
    unfold PrefixFree
    decide +kernel
  have hrun := Small.run_turnsOf ha hok
  obtain ⟨u, hs, hturns, -, hone⟩ := List.map_eq_cons_iff.mp hcheck.1
  obtain ⟨t, rfl, hfive⟩ := List.map_eq_singleton_iff.mp hone
  rw [hturns] at hbalance hfree hrun
  have hu : u ∈ Small.turnsOf Small.twoDeployments := by simp [hturns]
  have ht : t ∈ Small.turnsOf Small.twoDeployments := by simp [hturns]
  refine ⟨a.state, u, t, Small.started, hrun, hfree, (hcheck.2 u hu).1, (hcheck.2 t ht).1,
    (hcheck.2 u hu).2 t ht, hfive, hbalance t (by simp), fun hall => ?_⟩
  -- an address without an account has the balance 0
  have hnone := Finmap.lookup_eq_none.mpr (hall t (by simp) (hcheck.2 t ht).1)
  rw [accountOf, hnone] at hfive
  cases hfive

end Rustchain.Consensus

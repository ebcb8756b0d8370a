import Rustchain.Contracts.Sdk
import Rustchain.Lib.Checks
import Rustchain.Lib.Keys
import Rustchain.Lib.Runs

/-! # The token contract

The entry points of `contracts/token` on the SDK. Transfers conserve the supply, those to oneself
included, since the receiver's balance is read after the sender's was written. But `init` is
exported like the others: called again, it sets the balance of its caller to the initial supply. The
supply is conserved exactly in the runs in which whoever calls `init` again holds the whole of it
(`supplyConserved_iff`). -/

namespace Rustchain.Contracts.Token

open Rustchain.Core Lib.Machine Lib.Maps Lib.Keys Lib.Runs Lib.Checks
open Vm (addressOfBytes)
open ContractState

/-! ### Keys -/

/-- What the keys of the contract begin with. -/
inductive Word where
  | name
  | symbol
  | decimals
  | owner
  | totalSupply
  | balance
  | allowance
  deriving DecidableEq

namespace Word

def text : Word → String
  | name => "name"
  | symbol => "symbol"
  | decimals => "decimals"
  | owner => "owner"
  | totalSupply => "total_supply"
  | balance => "balance:"
  | allowance => "allowance:"

def all : List Word := [name, symbol, decimals, owner, totalSupply, balance, allowance]

theorem mem_all (w : Word) : w ∈ all := by
  cases w <;> decide

end Word

def words : Words Word UInt8 where
  word w := ascii w.text
  prefixFree := by
    have h : ∀ v ∈ Word.all, ∀ w ∈ Word.all, v ≠ w → ¬ ascii v.text <+: ascii w.text := by
      decide +kernel
    exact fun v w => h v (Word.mem_all v) w (Word.mem_all w)

def nameKey : Bytes := words.key .name []
def symbolKey : Bytes := words.key .symbol []
def decimalsKey : Bytes := words.key .decimals []
def ownerKey : Bytes := words.key .owner []
def totalSupplyKey : Bytes := words.key .totalSupply []

def balanceKey (addr : Address) : Bytes := words.key .balance addr.asBytes

def allowanceKey (owner spender : Address) : Bytes :=
  words.key .allowance (owner.asBytes ++ 58 :: spender.asBytes)

/-! ### Entry points -/

/-- The supply that `init` creates. -/
def initialSupply : ℕ := 1000000000

def init (env : CallEnv) (s : ContractState) : ContractState :=
  let s := s.storageWrite nameKey (ascii "RustChain Token")
  let s := s.storageWrite symbolKey (ascii "RCT")
  let s := s.storageWrite decimalsKey [18]
  let s := s.storageWrite ownerKey env.caller.asBytes
  let s := s.writeU64 totalSupplyKey initialSupply
  let s := s.writeU64 (balanceKey env.caller) initialSupply
  s.emitEvent "TokenInitialized"

/-- `balance_of`: the balance of the caller, whatever the argument. -/
def balanceOf (env : CallEnv) (args : Bytes) (s : ContractState) : ℤ :=
  if argsLen args ≠ 20 then wrapI 32 (s.readU64 (balanceKey env.caller))
  else wrapI 32 (s.readU64 (balanceKey env.caller))

/-- The arguments of `transfer_tokens` and `approve`: an address and an amount. -/
def parseArgs (args : Bytes) : Except Trap (Address × ℕ) := do
  let addr := addressOfBytes (← slice args 0 20)
  let amount := ofLeBytes (← slice args 20 28)
  return (addr, amount)

def debit (s : ContractState) (caller : Address) (amount : ℕ) : ContractState :=
  s.writeU64 (balanceKey caller) (s.readU64 (balanceKey caller) - amount)

def credited (s : ContractState) (toAddr : Address) (amount : ℕ) : Flagged ℕ :=
  addU 64 (s.readU64 (balanceKey toAddr)) amount

def credit (s : ContractState) (toAddr : Address) (amount : ℕ) : ContractState :=
  (s.writeU64 (balanceKey toAddr) (credited s toAddr amount).val).emitEvent "Transfer"

def transferTokens (env : CallEnv) (args : Bytes) (s : ContractState) : Outcome :=
  if argsLen args < 28 then
    return (-1, s.emitEvent "TransferFailed:InvalidArgs")
  else do
    let (toAddr, amount) ← parseArgs args
    if s.readU64 (balanceKey env.caller) < amount then
      return (-1, s.emitEvent "TransferFailed:InsufficientBalance")
    else
      return (0, credit (debit s env.caller amount) toAddr amount)

def approve (env : CallEnv) (args : Bytes) (s : ContractState) : Outcome :=
  if argsLen args < 28 then return (-1, s)
  else do
    let (spender, amount) ← parseArgs args
    return (0, (s.writeU64 (allowanceKey env.caller spender) amount).emitEvent "Approval")

/-- A call of an exported function, with its arguments. -/
inductive Entry where
  | init
  | balanceOf (args : Bytes)
  | transferTokens (args : Bytes)
  | approve (args : Bytes)
  | totalSupply
  deriving DecidableEq, Repr

/-- The exported functions by name. `total_supply` returns an `i32`. -/
def call (env : CallEnv) (s : ContractState) : Entry → Outcome
  | .init => .ok (0, init env s)
  | .balanceOf args => .ok (balanceOf env args s, s)
  | .transferTokens args => transferTokens env args s
  | .approve args => approve env args s
  | .totalSupply => .ok (wrapI 32 (s.readU64 totalSupplyKey), s)

abbrev Op := Contracts.Op Entry

def next (s : ContractState) (op : Op) : ContractState := step call s op

def after (s : ContractState) (ops : List Op) : ContractState := ops.foldl next s

/-! ### What a call has done -/

/-- **What a call that returns has done**, with what it has checked before. -/
inductive Effect (env : CallEnv) (s : ContractState) : Entry → ℤ → ContractState → Prop
  | refused {e s'} (h : Quiet s s') : Effect env s e (-1) s'
  | init : Effect env s .init 0 (init env s)
  | transferred {args toAddr amount} (hargs : parseArgs args = .ok (toAddr, amount))
      (hcovered : amount ≤ s.readU64 (balanceKey env.caller)) :
      Effect env s (.transferTokens args) 0 (credit (debit s env.caller amount) toAddr amount)
  | approved {args spender amount} : Effect env s (.approve args) 0
      ((s.writeU64 (allowanceKey env.caller spender) amount).emitEvent "Approval")
  | balanceOf {args} : Effect env s (.balanceOf args) (balanceOf env args s) s
  | totalSupply : Effect env s .totalSupply (wrapI 32 (s.readU64 totalSupplyKey)) s

theorem effect_call {env : CallEnv} {s s' : ContractState} {e : Entry} {code : ℤ}
    (h : call env s e = .ok (code, s')) : Effect env s e code s' := by
  cases e with
  | init =>
    cases h
    exact .init
  | balanceOf args =>
    obtain ⟨rfl, rfl⟩ := Prod.mk.inj (Except.ok.inj h)
    exact .balanceOf
  | totalSupply =>
    obtain ⟨rfl, rfl⟩ := Prod.mk.inj (Except.ok.inj h)
    exact .totalSupply
  | transferTokens args =>
    rw [call, transferTokens] at h
    split_ifs at h with hlen
    · cases h
      exact .refused (quiet_emitEvent s _)
    · obtain ⟨⟨toAddr, amount⟩, hargs, h⟩ := bind_eq_ok_iff.mp h
      dsimp only at h
      split_ifs at h with hlow
      · cases h
        exact .refused (quiet_emitEvent s _)
      · cases h
        exact .transferred hargs (Nat.not_lt.mp hlow)
  | approve args =>
    rw [call, approve] at h
    split_ifs at h with hlen
    · cases h
      exact .refused .rfl
    · obtain ⟨⟨spender, amount⟩, _, h⟩ := bind_eq_ok_iff.mp h
      cases h
      exact .approved

theorem call_cases (env : CallEnv) (s : ContractState) (e : Entry) :
    (∃ t, call env s e = .error t ∧ next s (.call env e) = s) ∨
      ∃ code s', call env s e = .ok (code, s') ∧ next s (.call env e) = s' ∧
        Effect env s e code s' := by
  cases h : call env s e with
  | error t => exact .inl ⟨t, rfl, step_of_error h⟩
  | ok r =>
    obtain ⟨code, s'⟩ := r
    exact .inr ⟨code, s', rfl, step_of_ok h, effect_call h⟩

/-! ### Balances -/

section
variable {s : ContractState} {a b : Address}

theorem balanceKey_inj : balanceKey a = balanceKey b ↔ a = b := by
  rw [balanceKey, balanceKey, Words.key_inj]
  exact ⟨fun h => Address.asBytes_injective h, fun h => congrArg _ h⟩

theorem balance_writeU64 (s : ContractState) (a b : Address) (n : ℕ) :
    (s.writeU64 (balanceKey a) n).readU64 (balanceKey b) =
      if b = a then n % 2 ^ 64 else s.readU64 (balanceKey b) := by
  split_ifs with h
  · rw [h]
    exact readU64_of_storageRead (storageRead_writeU64_self s _ n)
  · exact (reads_congr (storageRead_storageWrite_of_ne s
      (fun hk => h (balanceKey_inj.mp hk)) _)).1

theorem storageRead_storageWrite_key {v w : Word} (h : w ≠ v) (s : ContractState)
    (rest rest' value : Bytes) :
    (s.storageWrite (words.key v rest) value).storageRead (words.key w rest') =
      s.storageRead (words.key w rest') :=
  storageRead_storageWrite_of_ne s (Words.key_ne h rest' rest) value

theorem readU64_emitEvent (s : ContractState) (data : String) (key : Bytes) :
    (s.emitEvent data).readU64 key = s.readU64 key := rfl

theorem balance_init (env : CallEnv) (s : ContractState) (a : Address) :
    (init env s).readU64 (balanceKey a) =
      if a = env.caller then initialSupply else s.readU64 (balanceKey a) := by
  unfold init
  rw [readU64_emitEvent, balance_writeU64]
  split_ifs with h
  · rfl
  · refine (reads_congr ?_).1
    simp only [writeU64, nameKey, symbolKey, decimalsKey, ownerKey, totalSupplyKey, balanceKey,
      storageRead_storageWrite_key, ne_eq, reduceCtorEq, not_false_eq_true]

theorem totalSupply_init (env : CallEnv) (s : ContractState) :
    (init env s).readU64 totalSupplyKey = initialSupply := by
  unfold init
  rw [readU64_emitEvent]
  refine (reads_congr (storageRead_storageWrite_key (by decide) _ _ _ _)).1.trans ?_
  exact readU64_of_storageRead (storageRead_writeU64_self _ totalSupplyKey initialSupply)

theorem totalSupply_writeU64 (s : ContractState) (a : Address) (n : ℕ) :
    (s.writeU64 (balanceKey a) n).readU64 totalSupplyKey = s.readU64 totalSupplyKey :=
  (reads_congr (storageRead_storageWrite_key (by decide) s _ _ _)).1

noncomputable def balances (s : ContractState) : ℕ := ∑ a, s.readU64 (balanceKey a)

theorem le_balances (s : ContractState) (a : Address) : s.readU64 (balanceKey a) ≤ balances s :=
  Finset.single_le_sum (f := fun a => s.readU64 (balanceKey a)) (fun _ _ => Nat.zero_le _)
    (Finset.mem_univ a)

theorem balances_congr {s' : ContractState}
    (h : ∀ a, s'.readU64 (balanceKey a) = s.readU64 (balanceKey a)) : balances s' = balances s :=
  Finset.sum_congr rfl fun a _ => h a

theorem balances_writeU64 (s : ContractState) (a : Address) {n : ℕ} (h : n < 2 ^ 64) :
    balances (s.writeU64 (balanceKey a) n) + s.readU64 (balanceKey a) = balances s + n := by
  have hself : (s.writeU64 (balanceKey a) n).readU64 (balanceKey a) = n := by
    rw [balance_writeU64, if_pos rfl, Nat.mod_eq_of_lt h]
  have hsum := sum_add_of_eq_off (f := fun b => s.readU64 (balanceKey b))
    (g := fun b => (s.writeU64 (balanceKey a) n).readU64 (balanceKey b)) (i := a)
    fun b hb => by rw [balance_writeU64, if_neg hb]
  simp only [hself] at hsum
  exact hsum

theorem balances_debit {amount : ℕ} (h : amount ≤ s.readU64 (balanceKey a)) :
    balances (debit s a amount) + amount = balances s := by
  have hlt := readU64_lt s (balanceKey a)
  have hle := le_balances s a
  have hsum := balances_writeU64 s a (n := s.readU64 (balanceKey a) - amount) (by omega)
  have hdebit : balances (debit s a amount) =
      balances (s.writeU64 (balanceKey a) (s.readU64 (balanceKey a) - amount)) := rfl
  omega

theorem balances_credit {amount : ℕ} (h : balances s + amount < 2 ^ 64) :
    (credited s a amount).ovf = false ∧ balances (credit s a amount) = balances s + amount := by
  have hle := le_balances s a
  have hval : (credited s a amount).val = s.readU64 (balanceKey a) + amount :=
    Nat.mod_eq_of_lt (by omega)
  have hsum := balances_writeU64 s a (n := s.readU64 (balanceKey a) + amount) (by omega)
  have hcredit : balances (credit s a amount) =
      balances (s.writeU64 (balanceKey a) (s.readU64 (balanceKey a) + amount)) := by
    rw [credit, hval]
    rfl
  exact ⟨decide_eq_false (by omega), by omega⟩

theorem balances_init (env : CallEnv) (s : ContractState) :
    balances (init env s) + s.readU64 (balanceKey env.caller) = balances s + initialSupply := by
  have hsum := sum_add_of_eq_off (f := fun b => s.readU64 (balanceKey b))
    (g := fun b => (init env s).readU64 (balanceKey b)) (i := env.caller)
    fun b hb => by rw [balance_init, if_neg hb]
  simp only [balance_init env s env.caller, if_true] at hsum
  exact hsum

end

/-! ### Conservation -/

/-- The sum of all balances is the total supply. -/
def Conserved (s : ContractState) : Prop := balances s = s.readU64 totalSupplyKey

/-- What a call has to keep to: no credit overflows, and a call that returns `-1` has changed no
balance. -/
structure CallSound (env : CallEnv) (s : ContractState) (e : Entry) : Prop where
  credit : ∀ args toAddr amount, e = .transferTokens args →
    parseArgs args = .ok (toAddr, amount) → amount ≤ s.readU64 (balanceKey env.caller) →
    (credited (debit s env.caller amount) toAddr amount).ovf = false
  refused : ∀ s', call env s e = .ok (-1, s') →
    ∀ a, s'.readU64 (balanceKey a) = s.readU64 (balanceKey a)

/-- The same for a step; a deposit is no call. -/
def StepSound (s : ContractState) : Op → Prop
  | .deposit _ => True
  | .call env e => CallSound env s e

/-- Whoever calls `init` holds the whole supply. -/
def InitHarmless (s : ContractState) : Op → Prop
  | .call env .init => s.readU64 (balanceKey env.caller) = initialSupply
  | _ => True

/-- What holds as long as the supply is conserved. -/
structure Whole (s : ContractState) : Prop where
  balances : balances s = initialSupply
  totalSupply : s.readU64 totalSupplyKey = initialSupply

section
variable {env : CallEnv} {s s' : ContractState} {e : Entry} {code : ℤ}

theorem Effect.totalSupply_eq (h : Effect env s e code s')
    (hs : s.readU64 totalSupplyKey = initialSupply) :
    s'.readU64 totalSupplyKey = initialSupply := by
  cases h with
  | refused hq => rw [(reads_congr (hq.storageRead _)).1, hs]
  | init => exact totalSupply_init env s
  | transferred _ _ =>
    rw [credit, readU64_emitEvent, totalSupply_writeU64, debit, totalSupply_writeU64, hs]
  | approved =>
    rw [readU64_emitEvent]
    exact (reads_congr (storageRead_storageWrite_key (by decide) s _ _ _)).1.trans hs
  | balanceOf => exact hs
  | totalSupply => exact hs

theorem Effect.balances_eq (h : Effect env s e code s') (he : e ≠ .init) (hs : Whole s) :
    balances s' = initialSupply := by
  rw [← hs.balances]
  cases h with
  | refused hq => exact balances_congr fun a => (reads_congr (hq.storageRead _)).1
  | init => exact absurd rfl he
  | transferred _ hcovered =>
    have hdebit := balances_debit hcovered
    have hwhole := hs.balances
    rw [(balances_credit (by rw [hdebit, hwhole]; decide)).2, hdebit]
  | approved =>
    refine balances_congr fun a => ?_
    rw [readU64_emitEvent]
    exact (reads_congr (storageRead_storageWrite_key (by decide) s _ _ _)).1
  | balanceOf => rfl
  | totalSupply => rfl

theorem Whole.callSound (hs : Whole s) (env : CallEnv) (e : Entry) : CallSound env s e where
  credit args toAddr amount _ _ hcovered := by
    have hdebit := balances_debit hcovered
    have hwhole := hs.balances
    exact (balances_credit (by rw [hdebit, hwhole]; decide)).1
  refused s' hcall a := by
    generalize hcode : (-1 : ℤ) = code at hcall
    cases effect_call hcall with
    | refused hq => exact (reads_congr (hq.storageRead _)).1
    | init => exact absurd hcode (by decide)
    | transferred _ _ => exact absurd hcode (by decide)
    | approved => exact absurd hcode (by decide)
    | balanceOf => rfl
    | totalSupply => rfl

theorem totalSupply_next (op : Op) (hs : s.readU64 totalSupplyKey = initialSupply) :
    (next s op).readU64 totalSupplyKey = initialSupply := by
  cases op with
  | deposit amount => exact (reads_congr (storageRead_deposit s amount _)).1.trans hs
  | call env e =>
    rcases call_cases env s e with ⟨t, _, hnext⟩ | ⟨code, s', _, hnext, heff⟩
    · rw [hnext, hs]
    · rw [hnext, heff.totalSupply_eq hs]

theorem conserved_next_iff (hs : Whole s) (op : Op) :
    Conserved (next s op) ∧ StepSound s op ↔ InitHarmless s op := by
  unfold Conserved
  rw [totalSupply_next op hs.totalSupply]
  cases op with
  | deposit amount =>
    refine iff_of_true ⟨?_, trivial⟩ trivial
    rw [← hs.balances]
    exact balances_congr fun a => (reads_congr (storageRead_deposit s amount _)).1
  | call env e =>
    rw [and_iff_left (show StepSound s (.call env e) from hs.callSound env e)]
    by_cases he : e = .init
    · subst he
      have hnext : next s (.call env .init) = init env s := step_of_ok rfl
      have hsum := balances_init env s
      rw [hs.balances] at hsum
      have hharmless : InitHarmless s (.call env .init) ↔
          s.readU64 (balanceKey env.caller) = initialSupply := Iff.rfl
      rw [hnext, hharmless]
      omega
    · refine iff_of_true ?_ ?_
      · rcases call_cases env s e with ⟨t, _, hnext⟩ | ⟨code, s', _, hnext, heff⟩
        · rw [hnext, hs.balances]
        · rw [hnext, heff.balances_eq he hs]
      · cases e with
        | init => exact absurd rfl he
        | _ => trivial

end

/-! ### Runs -/

theorem whole_init (env : CallEnv) (address : Address) : Whole (init env (.new address)) := by
  refine ⟨?_, totalSupply_init env _⟩
  have hsum := balances_init env (.new address)
  have hzero : balances (.new address) = 0 := Finset.sum_eq_zero fun (a : Address) _ =>
    show (ContractState.new address).readU64 (balanceKey a) = 0 from rfl
  have hnone : (ContractState.new address).readU64 (balanceKey env.caller) = 0 := rfl
  omega

/-- **The supply is conserved**, no credit overflows and no refused call moves a balance, in
exactly the runs in which whoever calls `init` again holds the whole supply. -/
theorem supplyConserved_iff (env : CallEnv) (address : Address) (ops : List Op) :
    ((∀ p, p <+: ops → Conserved (after (init env (.new address)) p)) ∧
      ∀ p op, p ++ [op] <+: ops → StepSound (after (init env (.new address)) p) op) ↔
      ∀ p op, p ++ [op] <+: ops → InitHarmless (after (init env (.new address)) p) op := by
  have hstart := whole_init env address
  have hconserved : Conserved (init env (.new address)) :=
    hstart.balances.trans hstart.totalSupply.symm
  have hsteps := forall_step_iff (A := fun s op => Conserved (next s op) ∧ StepSound s op)
    hstart (fun s op hs hc => ⟨hc.1.trans (totalSupply_next op hs.totalSupply),
      totalSupply_next op hs.totalSupply⟩) (fun s op hs => conserved_next_iff hs op) ops
  unfold after
  rw [@forall_prefix_iff_step _ _ _ next Conserved, and_iff_right hconserved, ← hsteps]
  constructor
  · rintro ⟨hc, hsound⟩ p op hp
    exact ⟨hc p op hp, hsound p op hp⟩
  · intro h
    exact ⟨fun p op hp => (h p op hp).1, fun p op hp => (h p op hp).2⟩

/-- **Anybody can create tokens** by calling `init`. -/
theorem not_supplyConserved_second_init :
    ¬ ((∀ p, p <+: [Op.call ⟨addressOfBytes [2], 0⟩ .init] →
        Conserved (after (init ⟨addressOfBytes [1], 0⟩ (.new (addressOfBytes [9]))) p)) ∧
      ∀ p op, p ++ [op] <+: [Op.call ⟨addressOfBytes [2], 0⟩ .init] →
        StepSound (after (init ⟨addressOfBytes [1], 0⟩ (.new (addressOfBytes [9]))) p) op) := by
  intro h
  have hconserved := h.1 _ (List.prefix_refl _)
  have hsound := h.2 [] _ (List.prefix_refl _)
  have hbalance : (init ⟨addressOfBytes [1], 0⟩ (.new (addressOfBytes [9]))).readU64
      (balanceKey (addressOfBytes [2])) = initialSupply :=
    (conserved_next_iff (whole_init _ _) (.call ⟨addressOfBytes [2], 0⟩ .init)).mp
      ⟨hconserved, hsound⟩
  exact absurd hbalance (by decide +kernel)

end Rustchain.Contracts.Token

import Rustchain.Contracts.Arguments
import Rustchain.Contracts.WrappedSupply

/-! # The keys of the bridged tokens

The contract keeps the locked total, the wrapped supply and the wrapped balances of a token under
keys in which chain and token stand with a colon between them. Keys of different families never
meet, and the address at the end of a balance key is always told apart. But the colon may stand in
the names as well, and two tokens with the same text share all of their entries: two tokens are
apart exactly when their texts differ (`entries_apart_iff`), as they do when the names of the
chains, or those of the tokens, have no colon (`tokensApart_of_no_colon`). -/

namespace Rustchain.Contracts.Bridge

open Rustchain.Core Lib.Keys Lib.Parsing Lib.Checks
open Vm (addressOfBytes)
open ContractState

def tokenText (chain token : Bytes) : Bytes := chain ++ colon :: token

/-- The entries of a token are the same in two states. -/
structure SameEntries (chain token : Bytes) (s s' : ContractState) : Prop where
  balance : ∀ a, s'.readU128 (wrappedBalanceKey chain token a) =
    s.readU128 (wrappedBalanceKey chain token a)
  supply : s'.readU128 (wrappedSupplyKey chain token) = s.readU128 (wrappedSupplyKey chain token)
  locked : s'.readU128 (lockedKey chain token) = s.readU128 (lockedKey chain token)

def Entry.Moves (chain token : Bytes) : Entry → Prop
  | .bridgeLock args => value (lockArgs args) = .ok (chain, token)
  | .bridgeMint args => ∃ recipient amount, parseMint args = .ok (chain, token, recipient, amount)
  | .bridgeBurn args => ∃ amount, parseBurn args = .ok (chain, token, amount)
  | _ => False

/-- **Two tokens are apart**: their keys are different, and no lock, mint or burn of the first one
changes an entry of the second. -/
structure TokensApart (chain token chain' token' : Bytes) : Prop where
  balanceKeys : ∀ a b, wrappedBalanceKey chain token a ≠ wrappedBalanceKey chain' token' b
  supplyKeys : wrappedSupplyKey chain token ≠ wrappedSupplyKey chain' token'
  lockedKeys : lockedKey chain token ≠ lockedKey chain' token'
  calls : ∀ (env : CallEnv) (s : ContractState) (e : Entry), e.Moves chain token →
    SameEntries chain' token' s (next s (.call env e))

/-! ### One call -/

section
variable {chain token chain' token' : Bytes} {env : CallEnv} {s s' : ContractState}

theorem sameEntries_of_storageRead (h : ∀ key, s'.storageRead key = s.storageRead key) :
    SameEntries chain token s s' :=
  ⟨fun _ => (reads_congr (h _)).2.1, (reads_congr (h _)).2.1, (reads_congr (h _)).2.1⟩

theorem sameEntries_lockTokens (hne : tokenText chain' token' ≠ tokenText chain token)
    (s : ContractState) : SameEntries chain' token' s (lockTokens s chain token) where
  balance a := (reads_congr (storageRead_writeU128_key (by decide) s _ _ _)).2.1
  supply := (reads_congr (storageRead_writeU128_key (by decide) s _ _ _)).2.1
  locked := (reads_congr (storageRead_storageWrite_of_ne s
    (fun hk => hne (Words.key_inj.mp hk)) _)).2.1

theorem sameEntries_mintWrapped (hne : tokenText chain' token' ≠ tokenText chain token)
    (s : ContractState) (recipient : Address) (amount : ℕ) :
    SameEntries chain' token' s (mintWrapped s chain token recipient amount) where
  balance a := balanceOf_mintWrapped amount |>.trans (if_neg fun h => hne h.1)
  supply := supplyOf_mintWrapped amount |>.trans (if_neg hne)
  locked := by
    unfold mintWrapped
    rw [(reads_congr (storageRead_emitEvent _ _ _)).2.1]
    exact (reads_congr ((storageRead_writeU128_key (by decide) _ _ _ _).trans
      (storageRead_writeU128_key (by decide) s _ _ _))).2.1

theorem sameEntries_burnWrapped (hne : tokenText chain' token' ≠ tokenText chain token)
    (s : ContractState) (caller : Address) (amount : ℕ) :
    SameEntries chain' token' s (burnWrapped s chain token caller amount) where
  balance a := balanceOf_burnWrapped amount |>.trans (if_neg fun h => hne h.1)
  supply := supplyOf_burnWrapped amount |>.trans (if_neg hne)
  locked := by
    unfold burnWrapped
    rw [(reads_congr (storageRead_emitEvent _ _ _)).2.1]
    exact (reads_congr ((storageRead_writeU128_key (by decide) _ _ _ _).trans
      (storageRead_writeU128_key (by decide) s _ _ _))).2.1

theorem Entry.Moves.sameEntries {e : Entry} (he : e.Moves chain token)
    (hne : tokenText chain' token' ≠ tokenText chain token) :
    SameEntries chain' token' s (next s (.call env e)) := by
  rcases call_cases env s e with ⟨t, -, hnext⟩ | ⟨code, t, hcall, hnext, heff⟩
  · rw [hnext]
    exact sameEntries_of_storageRead fun _ => rfl
  rw [hnext]
  cases e with
  | bridgeLock args =>
    have hp : s.readBool pausedKey = false := requireNotPaused_eq_ok.mp (bind_eq_ok.mp hcall).1
    have hfinish : finishLock args s (.ok (chain, token)) = .ok (code, t) := by
      rw [← he, ← bridgeLock_eq env hp]
      exact hcall
    unfold finishLock at hfinish
    dsimp only at hfinish
    split_ifs at hfinish
    · obtain ⟨-, rfl⟩ := Prod.mk.inj (Except.ok.inj hfinish)
      exact sameEntries_of_storageRead fun _ => rfl
    · obtain ⟨-, rfl⟩ := Prod.mk.inj (Except.ok.inj hfinish)
      exact sameEntries_lockTokens hne s
  | bridgeMint args =>
    obtain ⟨recipient, amount, hargs⟩ := he
    cases heff with
    | refused hq => exact sameEntries_of_storageRead hq.storageRead
    | @minted _ c t r n _ _ hargs' =>
      obtain ⟨rfl, rfl, rfl, rfl⟩ : c = chain ∧ t = token ∧ r = recipient ∧ n = amount := by
        simpa using Except.ok.inj (hargs'.symm.trans hargs)
      exact sameEntries_mintWrapped hne s _ _
  | bridgeBurn args =>
    obtain ⟨amount, hargs⟩ := he
    cases heff with
    | refused hq => exact sameEntries_of_storageRead hq.storageRead
    | @burned _ c t n _ hargs' _ =>
      obtain ⟨rfl, rfl, rfl⟩ : c = chain ∧ t = token ∧ n = amount := by
        simpa using Except.ok.inj (hargs'.symm.trans hargs)
      exact sameEntries_burnWrapped hne s _ _
  | _ => exact he.elim

end

theorem tokensApart_iff_text {chain token chain' token' : Bytes} :
    TokensApart chain token chain' token' ↔ tokenText chain token ≠ tokenText chain' token' := by
  constructor
  · intro h heq
    exact h.lockedKeys (congrArg (words.key .locked) heq)
  · intro hne
    exact ⟨fun a b heq => hne (wrappedKey_inj.mp heq).1, fun heq => hne (Words.key_inj.mp heq),
      fun heq => hne (Words.key_inj.mp heq), fun env s e he => he.sameEntries hne.symm⟩

theorem tokensApart_of_no_colon {chain token chain' token' : Bytes}
    (h : colon ∉ chain ∧ colon ∉ chain' ∨ colon ∉ token ∧ colon ∉ token')
    (hne : (chain, token) ≠ (chain', token')) : TokensApart chain token chain' token' := by
  refine tokensApart_iff_text.mpr fun heq => hne ?_
  rcases h with ⟨h, h'⟩ | ⟨h, h'⟩
  · obtain ⟨rfl, rfl⟩ := cut_first h h' heq
    rfl
  · obtain ⟨rfl, rfl⟩ := cut_last h h' heq
    rfl

/-- **The entries of the bridge contract.** Keys of different families are different, and so are the
balance keys of different addresses for one token. Two tokens are apart if and only if their texts
are different. -/
theorem entries_apart_iff (chain token chain' token' : Bytes) :
    (∀ (v w : Word) (rest rest' : Bytes), v ≠ w → words.key v rest ≠ words.key w rest') ∧
    (∀ a b : Address, a ≠ b → wrappedBalanceKey chain token a ≠ wrappedBalanceKey chain token b) ∧
    (TokensApart chain token chain' token' ↔ tokenText chain token ≠ tokenText chain' token') :=
  ⟨fun _ _ rest rest' h => Words.key_ne h rest rest',
    fun _ _ hab heq => hab (wrappedKey_inj.mp heq).2, tokensApart_iff_text⟩

/-- The token `c` of the chain `a:b` and the token `b:c` of the chain `a` have one balance: a mint
of five of the first is a mint of five of the second. -/
theorem colons_share_entries :
    let s := init ⟨addressOfBytes [1], 0⟩ (.new (addressOfBytes [9]))
    let args :=
      field [97, 58, 98] ++ (field [99] ++ ((addressOfBytes [3]).asBytes ++ leBytes 128 5))
    parseMint args = .ok ([97, 58, 98], [99], addressOfBytes [3], 5) ∧
      s.readU128 (wrappedBalanceKey [97] [98, 58, 99] (addressOfBytes [3])) = 0 ∧
      (next s (.call ⟨addressOfBytes [1], 0⟩ (.bridgeMint args))).readU128
        (wrappedBalanceKey [97] [98, 58, 99] (addressOfBytes [3])) = 5 := by
  decide +kernel

end Rustchain.Contracts.Bridge

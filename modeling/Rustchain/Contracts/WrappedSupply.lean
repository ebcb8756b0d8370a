import Rustchain.Contracts.Bridge
import Rustchain.Lib.Runs

/-! # The supply of wrapped tokens

Balances and supplies of wrapped tokens are kept under keys that are put together from chain, token
and address. A chain and a token enter both keys only as one text with a colon between them, so
pairs with the same text share one supply and one set of balances. For each of these the supply is
the sum of the balances, as long as less than `2 ^ 128` was minted for it (`wrappedSupply_eq_sum`).
-/

namespace Rustchain.Contracts.Bridge

open Rustchain.Core Lib.Machine Lib.Maps Lib.Keys Lib.Runs
open Vm (addressOfBytes)
open ContractState

/-- The wrapped supply of a text made of chain and token. -/
def supplyOf (s : ContractState) (text : Bytes) : ℕ := s.readU128 (words.key .wrappedSupply text)

def balanceOf (s : ContractState) (text : Bytes) (a : Address) : ℕ :=
  s.readU128 (words.key .wrapped (text ++ colon :: a.asBytes))

theorem wrappedKey_inj {text text' : Bytes} {a b : Address} :
    words.key .wrapped (text ++ colon :: a.asBytes) =
      words.key .wrapped (text' ++ colon :: b.asBytes) ↔ text = text' ∧ a = b := by
  rw [Words.key_inj]
  constructor
  · intro h
    obtain ⟨htext, hrest⟩ := List.append_inj' h (by simp [Address.length_asBytes])
    exact ⟨htext, Address.asBytes_injective (List.cons.inj hrest).2⟩
  · rintro ⟨rfl, rfl⟩
    rfl

/-! ### Mints and burns -/

section
variable {s : ContractState} {chain token text : Bytes} {a b : Address} {data : String}

theorem supplyOf_writes (x y : ℕ) :
    supplyOf (((s.writeU128 (wrappedBalanceKey chain token a) x).writeU128
        (wrappedSupplyKey chain token) y).emitEvent data) text =
      if text = chain ++ colon :: token then y % 2 ^ 128 else supplyOf s text := by
  unfold supplyOf
  rw [(reads_congr (storageRead_emitEvent _ _ _)).2.1]
  split_ifs with h
  · subst h
    exact readU128_of_storageRead (storageRead_writeU128_self _ _ _)
  · refine (reads_congr ?_).2.1
    exact (storageRead_storageWrite_of_ne _ (fun hk => h (Words.key_inj.mp hk)) _).trans
      (storageRead_writeU128_key (by decide) s _ text x)

theorem balanceOf_writes (x y : ℕ) :
    balanceOf (((s.writeU128 (wrappedBalanceKey chain token a) x).writeU128
        (wrappedSupplyKey chain token) y).emitEvent data) text b =
      if text = chain ++ colon :: token ∧ b = a then x % 2 ^ 128 else balanceOf s text b := by
  have hsupply : ∀ t : ContractState, balanceOf ((t.writeU128 (wrappedSupplyKey chain token)
      y).emitEvent data) text b = balanceOf t text b := by
    intro t
    unfold balanceOf
    rw [(reads_congr (storageRead_emitEvent _ _ _)).2.1]
    exact (reads_congr (storageRead_writeU128_key (by decide) t _ _ y)).2.1
  rw [hsupply]
  unfold balanceOf
  split_ifs with h
  · obtain ⟨rfl, rfl⟩ := h
    exact readU128_of_storageRead (storageRead_writeU128_self _ _ _)
  · refine (reads_congr ?_).2.1
    exact storageRead_storageWrite_of_ne s (fun hk => h (wrappedKey_inj.mp hk)) _

theorem supplyOf_writeBalance (x : ℕ) :
    (s.writeU128 (wrappedBalanceKey chain token a) x).readU128 (wrappedSupplyKey chain token) =
      supplyOf s (chain ++ colon :: token) :=
  (reads_congr (storageRead_writeU128_key (by decide) s _ _ x)).2.1

theorem supplyOf_mintWrapped (amount : ℕ) : supplyOf (mintWrapped s chain token a amount) text =
    if text = chain ++ colon :: token then (supplyOf s text + amount) % 2 ^ 128
    else supplyOf s text := by
  unfold mintWrapped
  simp only [supplyOf_writeBalance, supplyOf_writes, addU]
  split_ifs with h
  · rw [h, Nat.mod_mod]
  · rfl

theorem balanceOf_mintWrapped (amount : ℕ) :
    balanceOf (mintWrapped s chain token a amount) text b =
      if text = chain ++ colon :: token ∧ b = a then (balanceOf s text b + amount) % 2 ^ 128
      else balanceOf s text b := by
  unfold mintWrapped
  simp only [balanceOf_writes, addU]
  split_ifs with h
  · rw [h.1, h.2, Nat.mod_mod]
    rfl
  · rfl

theorem supplyOf_burnWrapped (amount : ℕ) : supplyOf (burnWrapped s chain token a amount) text =
    if text = chain ++ colon :: token then supplyOf s text - amount else supplyOf s text := by
  unfold burnWrapped
  simp only [supplyOf_writeBalance, supplyOf_writes]
  split_ifs with h
  · have hlt : supplyOf s (chain ++ colon :: token) < 2 ^ 128 := readU128_lt s _
    rw [h]
    exact Nat.mod_eq_of_lt (by omega)
  · rfl

theorem balanceOf_burnWrapped (amount : ℕ) :
    balanceOf (burnWrapped s chain token a amount) text b =
      if text = chain ++ colon :: token ∧ b = a then balanceOf s text b - amount
      else balanceOf s text b := by
  unfold burnWrapped
  simp only [balanceOf_writes]
  split_ifs with h
  · have hlt := readU128_lt s (wrappedBalanceKey chain token a)
    rw [h.1, h.2]
    exact Nat.mod_eq_of_lt (by omega)
  · rfl

end

/-! ### What was minted -/

/-- What the arguments of a mint say for a supply key. -/
def mintAmount (key args : Bytes) : ℕ :=
  ((parseMint args).toOption.map fun m =>
    if wrappedSupplyKey m.1 m.2.1 = key then m.2.2.2 else 0).getD 0

def mintedBy (key : Bytes) (s : ContractState) : Op → ℕ
  | .call env (.bridgeMint args) =>
    if Succeeds env s (.bridgeMint args) then mintAmount key args else 0
  | _ => 0

def mintedTotal (key : Bytes) (s : ContractState) : List Op → ℕ
  | [] => 0
  | op :: ops => mintedBy key s op + mintedTotal key (next s op) ops

theorem mintedTotal_append (key : Bytes) (s : ContractState) (l l' : List Op) :
    mintedTotal key s (l ++ l') = mintedTotal key s l + mintedTotal key (after s l) l' := by
  induction l generalizing s with
  | nil => exact (Nat.zero_add _).symm
  | cons op l ih =>
    rw [List.cons_append, mintedTotal, mintedTotal, ih, Nat.add_assoc]
    rfl

/-! ### The invariant -/

/-- The supply is the sum of the balances, and at most what was minted. -/
structure Backed (text : Bytes) (s : ContractState) (minted : ℕ) : Prop where
  sum : supplyOf s text = ∑ a, balanceOf s text a
  le : supplyOf s text ≤ minted

section
variable {text : Bytes} {s : ContractState} {minted : ℕ}

theorem Backed.balance_le (h : Backed text s minted) (a : Address) :
    balanceOf s text a ≤ supplyOf s text := by
  rw [h.sum]
  exact Finset.single_le_sum (f := fun a => balanceOf s text a) (fun _ _ => Nat.zero_le _)
    (Finset.mem_univ a)

theorem Backed.congr (h : Backed text s minted) {s' : ContractState}
    (hsupply : supplyOf s' text = supplyOf s text)
    (hbalance : ∀ a, balanceOf s' text a = balanceOf s text a) : Backed text s' minted := by
  refine ⟨?_, hsupply ▸ h.le⟩
  rw [hsupply, h.sum]
  exact Finset.sum_congr rfl fun a _ => (hbalance a).symm

theorem Backed.mint (h : Backed text s minted) {chain token : Bytes} {a : Address} {amount : ℕ}
    (hlt : minted + (if chain ++ colon :: token = text then amount else 0) < 2 ^ 128) :
    Backed text (mintWrapped s chain token a amount)
      (minted + if chain ++ colon :: token = text then amount else 0) := by
  have hle := h.le
  by_cases ht : chain ++ colon :: token = text
  · rw [if_pos ht] at hlt ⊢
    have hsupply : supplyOf (mintWrapped s chain token a amount) text =
        supplyOf s text + amount := by
      rw [supplyOf_mintWrapped, if_pos ht.symm, Nat.mod_eq_of_lt (by omega)]
    have hself : balanceOf (mintWrapped s chain token a amount) text a =
        balanceOf s text a + amount := by
      have := h.balance_le a
      rw [balanceOf_mintWrapped, if_pos ⟨ht.symm, rfl⟩, Nat.mod_eq_of_lt (by omega)]
    have hsum := sum_add_of_eq_off (f := fun b => balanceOf s text b)
      (g := fun b => balanceOf (mintWrapped s chain token a amount) text b) (i := a)
      fun b hb => by rw [balanceOf_mintWrapped, if_neg fun hc => hb hc.2]
    have := h.sum
    exact ⟨by omega, by omega⟩
  · rw [if_neg ht]
    refine h.congr ?_ fun b => ?_
    · rw [supplyOf_mintWrapped, if_neg fun hc => ht hc.symm]
    · rw [balanceOf_mintWrapped, if_neg fun hc => ht hc.1.symm]

theorem Backed.burn (h : Backed text s minted) {chain token : Bytes} {a : Address} {amount : ℕ}
    (hle : amount ≤ s.readU128 (wrappedBalanceKey chain token a)) :
    Backed text (burnWrapped s chain token a amount) minted := by
  by_cases ht : chain ++ colon :: token = text
  · subst ht
    have hcovered : amount ≤ balanceOf s (chain ++ colon :: token) a := hle
    have hall := h.balance_le a
    have hsupply : supplyOf (burnWrapped s chain token a amount) (chain ++ colon :: token) =
        supplyOf s (chain ++ colon :: token) - amount := by
      rw [supplyOf_burnWrapped, if_pos rfl]
    have hself : balanceOf (burnWrapped s chain token a amount) (chain ++ colon :: token) a =
        balanceOf s (chain ++ colon :: token) a - amount := by
      rw [balanceOf_burnWrapped, if_pos ⟨rfl, rfl⟩]
    have hsum := sum_add_of_eq_off (f := fun b => balanceOf s (chain ++ colon :: token) b)
      (g := fun b => balanceOf (burnWrapped s chain token a amount) (chain ++ colon :: token) b)
      (i := a) fun b hb => by rw [balanceOf_burnWrapped, if_neg fun hc => hb hc.2]
    have := h.sum
    have := h.le
    exact ⟨by omega, by omega⟩
  · refine h.congr ?_ fun b => ?_
    · rw [supplyOf_burnWrapped, if_neg fun hc => ht hc.symm]
    · rw [balanceOf_burnWrapped, if_neg fun hc => ht hc.1.symm]

/-- **One step** keeps the supply backed, if what it mints does not exceed the range. -/
theorem Backed.next (h : Backed text s minted) (op : Op)
    (hlt : minted + mintedBy (words.key .wrappedSupply text) s op < 2 ^ 128) :
    Backed text (next s op) (minted + mintedBy (words.key .wrappedSupply text) s op) := by
  have hweak : Backed text s (minted + mintedBy (words.key .wrappedSupply text) s op) :=
    ⟨h.sum, h.le.trans (Nat.le_add_right _ _)⟩
  cases op with
  | deposit amount =>
    have hread := fun key => (reads_congr (storageRead_deposit s amount key)).2.1
    exact hweak.congr (hread _) fun a => hread _
  | call env e =>
    rcases call_cases env s e with ⟨t, _, hnext⟩ | ⟨code, s', hcall, hnext, heff⟩
    · rw [hnext]
      exact hweak
    · rw [hnext]
      by_cases hw : .wrapped ∈ e.touches
      · cases heff with
        | refused hq =>
          have hread := fun key => (reads_congr (hq.storageRead key)).2.1
          exact hweak.congr (hread _) fun a => hread _
        | @minted args chain token recipient amount _ _ hargs =>
          have hamount : mintedBy (words.key .wrappedSupply text) s (.call env (.bridgeMint args)) =
              if chain ++ colon :: token = text then amount else 0 := by
            rw [mintedBy, if_pos ((succeeds_iff hcall).mpr rfl), mintAmount, hargs]
            exact if_congr Words.key_inj rfl rfl
          rw [hamount] at hlt ⊢
          exact h.mint hlt
        | burned _ _ hcovered => exact hweak.burn hcovered
        | _ => exact absurd hw (by simp [Entry.touches])
      · have hw' : .wrappedSupply ∉ e.touches := by cases e <;> simp_all [Entry.touches]
        exact hweak.congr (reads_congr (heff.frame hw' _)).2.1
          fun a => (reads_congr (heff.frame hw _)).2.1

/-- **A whole run** keeps the supply backed by what it has minted. -/
theorem Backed.after (h : Backed text s 0) {ops : List Op}
    (hlt : mintedTotal (words.key .wrappedSupply text) s ops < 2 ^ 128) :
    Backed text (after s ops) (mintedTotal (words.key .wrappedSupply text) s ops) := by
  induction ops using List.reverseRecOn with
  | nil => exact h
  | append_singleton l op ih =>
    rw [mintedTotal_append] at hlt ⊢
    have hstep : mintedTotal (words.key .wrappedSupply text) (Bridge.after s l) [op] =
        mintedBy (words.key .wrappedSupply text) (Bridge.after s l) op := Nat.add_zero _
    rw [hstep] at hlt ⊢
    rw [Bridge.after, List.foldl_append]
    exact (ih (by omega)).next op hlt

theorem backed_init (text : Bytes) (env : CallEnv) (address : Address) :
    Backed text (init env (.new address)) 0 := by
  have hzero : Backed text (.new address) 0 :=
    ⟨(Finset.sum_eq_zero fun (a : Address) _ =>
      show balanceOf (.new address) text a = 0 from rfl).symm, le_refl 0⟩
  have heff : Effect env (.new address) .init 0 (init env (.new address)) := .init
  exact hzero.congr (reads_congr (heff.frame (by decide) _)).2.1
    fun a => (reads_congr (heff.frame (by decide) _)).2.1

end

/-! ### Runs -/

/-- What a burn has to keep to: if it returns `-1` no balance and no supply has changed, and if it
returns `0` the supply was at least the amount, so that the saturating subtraction loses nothing. -/
def BurnExact (chain token : Bytes) (s : ContractState) : Op → Prop
  | .call env (.bridgeBurn args) => ∀ code s', call env s (.bridgeBurn args) = .ok (code, s') →
      (code = -1 → ∀ c t, s'.readU128 (wrappedSupplyKey c t) = s.readU128 (wrappedSupplyKey c t) ∧
        ∀ a, s'.readU128 (wrappedBalanceKey c t a) = s.readU128 (wrappedBalanceKey c t a)) ∧
      (code = 0 → ∀ c t amount, parseBurn args = .ok (c, t, amount) →
        wrappedSupplyKey c t = wrappedSupplyKey chain token →
        amount ≤ s.readU128 (wrappedSupplyKey c t))
  | _ => True

theorem Backed.burnExact {chain token : Bytes} {s : ContractState} {minted : ℕ}
    (h : Backed (chain ++ colon :: token) s minted) (op : Op) : BurnExact chain token s op := by
  cases op with
  | deposit amount => trivial
  | call env e =>
    cases e with
    | bridgeBurn args =>
      intro code s' hcall
      cases effect_call hcall with
      | refused hq =>
        refine ⟨fun _ c t => ?_, fun hcode => absurd hcode (by decide)⟩
        exact ⟨(reads_congr (hq.storageRead _)).2.1, fun a => (reads_congr (hq.storageRead _)).2.1⟩
      | @burned _ chain' token' amount' _ hargs hcovered =>
        refine ⟨fun hcode => absurd hcode (by decide), fun _ c t amount hargs' hkey => ?_⟩
        obtain ⟨rfl, rfl, rfl⟩ : chain' = c ∧ token' = t ∧ amount' = amount := by
          simpa using Except.ok.inj (hargs.symm.trans hargs')
        have htext : chain' ++ colon :: token' = chain ++ colon :: token := Words.key_inj.mp hkey
        rw [← htext] at h
        exact hcovered.trans (h.balance_le env.caller)
    | _ => trivial

/-- **The wrapped supply is the sum of the wrapped balances**, for every chain and token for whose
key less than `2 ^ 128` is minted, and no burn loses anything. -/
theorem wrappedSupply_eq_sum (env : CallEnv) (address : Address) (ops : List Op)
    (chain token : Bytes)
    (h : mintedTotal (wrappedSupplyKey chain token) (init env (.new address)) ops < 2 ^ 128) :
    (∀ p, p <+: ops →
      (after (init env (.new address)) p).readU128 (wrappedSupplyKey chain token) =
        ∑ a, (after (init env (.new address)) p).readU128 (wrappedBalanceKey chain token a)) ∧
    ∀ p op, p ++ [op] <+: ops → BurnExact chain token (after (init env (.new address)) p) op := by
  have hbacked : ∀ p, p <+: ops → ∃ minted,
      Backed (chain ++ colon :: token) (after (init env (.new address)) p) minted := by
    rintro p ⟨q, rfl⟩
    rw [mintedTotal_append] at h
    exact ⟨_, (backed_init _ env address).after (Nat.lt_of_le_of_lt (Nat.le_add_right _ _) h)⟩
  refine ⟨fun p hp => ?_, fun p op hp => ?_⟩
  · obtain ⟨minted, hm⟩ := hbacked p hp
    exact hm.sum
  · obtain ⟨minted, hm⟩ := hbacked p ((List.prefix_append p [op]).trans hp)
    exact hm.burnExact op

/-- The owner mints five tokens, and two of them are burned. -/
def mintAndBurn : List Op :=
  let names : Bytes := leBytes 32 1 ++ [97] ++ leBytes 32 1 ++ [116]
  let holder := addressOfBytes [3]
  [.call ⟨addressOfBytes [1], 0⟩ (.bridgeMint (names ++ holder.asBytes ++ leBytes 128 5)),
    .call ⟨holder, 0⟩ (.bridgeBurn (names ++ leBytes 128 2 ++ leBytes 32 0))]

theorem wrappedSupply_mint_and_burn :
    mintedTotal (wrappedSupplyKey [97] [116])
        (init ⟨addressOfBytes [1], 0⟩ (.new (addressOfBytes [9]))) mintAndBurn < 2 ^ 128 ∧
      3 = ∑ a, (after (init ⟨addressOfBytes [1], 0⟩ (.new (addressOfBytes [9])))
        mintAndBurn).readU128 (wrappedBalanceKey [97] [116] a) := by
  have h : mintedTotal (wrappedSupplyKey [97] [116])
      (init ⟨addressOfBytes [1], 0⟩ (.new (addressOfBytes [9]))) mintAndBurn < 2 ^ 128 := by
    decide +kernel
  have hsupply : (after (init ⟨addressOfBytes [1], 0⟩ (.new (addressOfBytes [9])))
      mintAndBurn).readU128 (wrappedSupplyKey [97] [116]) = 3 := by
    decide +kernel
  refine ⟨h, ?_⟩
  rw [← hsupply]
  exact (wrappedSupply_eq_sum ⟨addressOfBytes [1], 0⟩ (addressOfBytes [9]) mintAndBurn [97] [116]
    h).1 mintAndBurn (List.prefix_refl _)

end Rustchain.Contracts.Bridge

import Rustchain.Contracts.Bridge
import Rustchain.Lib.Parsing

/-! # The arguments of the bridge contract

`bridge_lock`, `bridge_mint` and `bridge_burn` take their arguments apart with offsets that are sums
of announced lengths, in the 32 bits of a `usize`. Here the parsing of each is written with sums
that say when they wrap, and proved to be the parsing of the model (`bridgeLock_eq`,
`bridgeMint_eq`, `bridgeBurn_eq`). It is then compared with the documented layouts
(`parses_exactly_iff`): a lock is parsed exactly unless a sum wraps, but the other two functions
check only a least length, so that they panic on most malformed arguments, and `bridge_burn` never
looks at its last field. -/

namespace Rustchain.Contracts.Bridge

open Rustchain.Core Lib.Machine Lib.Parsing
open Vm (addressOfBytes)
open ContractState

/-! ### The parsers -/

def numberIn (args : Bytes) (lo hi : ℕ) : Parse ℕ := do
  return ofLeBytes (← part args lo hi)

/-- The parsing of `bridge_lock`. The recipient is not read. -/
def lockArgs (args : Bytes) : Parse (Bytes × Bytes) := do
  need (12 ≤ argsLen args)
  let chainLen ← numberIn args 0 4
  need ((← sum 32 [4, chainLen, 4]) ≤ args.length)
  let chain ← part args 4 (← sum 32 [4, chainLen])
  let offset ← sum 32 [4, chainLen]
  let tokenLen ← numberIn args offset (← sum 32 [offset, 4])
  need ((← sum 32 [offset, 4, tokenLen, 4]) ≤ args.length)
  let token ← part args (← sum 32 [offset, 4]) (← sum 32 [offset, 4, tokenLen])
  let offset2 ← sum 32 [offset, 4, tokenLen]
  let recipLen ← numberIn args offset2 (← sum 32 [offset2, 4])
  need ((← sum 32 [offset2, 4, recipLen]) ≤ args.length)
  return (chain, token)

/-- The chain and the token of `bridge_mint` and `bridge_burn`, and the offset of what follows. -/
def chainTokenArgs (args : Bytes) : Parse (Bytes × Bytes × ℕ) := do
  let chainLen ← numberIn args 0 4
  let chain ← part args 4 (← sum 32 [4, chainLen])
  let offset ← sum 32 [4, chainLen]
  let tokenLen ← numberIn args offset (← sum 32 [offset, 4])
  let token ← part args (← sum 32 [offset, 4]) (← sum 32 [offset, 4, tokenLen])
  let offset2 ← sum 32 [offset, 4, tokenLen]
  return (chain, token, offset2)

/-- The fields that `bridge_mint` reads. -/
def mintFields (args : Bytes) : Parse (Bytes × Bytes × Address × ℕ) := do
  let (chain, token, offset2) ← chainTokenArgs args
  let recipient := addressOfBytes (← part args offset2 (← sum 32 [offset2, 20]))
  let amount ← numberIn args (← sum 32 [offset2, 20]) (← sum 32 [offset2, 36])
  return (chain, token, recipient, amount)

/-- The parsing of `bridge_mint`. -/
def mintArgs (args : Bytes) : Parse (Bytes × Bytes × Address × ℕ) := do
  need (44 ≤ argsLen args)
  mintFields args

/-- The fields that `bridge_burn` reads. The external address is not one of them. -/
def burnFields (args : Bytes) : Parse (Bytes × Bytes × ℕ) := do
  let (chain, token, offset2) ← chainTokenArgs args
  let amount ← numberIn args offset2 (← sum 32 [offset2, 16])
  return (chain, token, amount)

/-- The parsing of `bridge_burn`. -/
def burnArgs (args : Bytes) : Parse (Bytes × Bytes × ℕ) := do
  need (28 ≤ argsLen args)
  burnFields args

/-! ### What the functions do with them -/

/-- `bridge_lock` after its parsing. -/
def finishLock (args : Bytes) (s : ContractState) : Except Stop (Bytes × Bytes) → Outcome
  | .error .refused =>
    .ok (-1, if argsLen args < 12 then s.emitEvent "BridgeLockFailed:InvalidArgs" else s)
  | .error .panicked => .error .panic
  | .ok (chain, token) =>
    if s.selfBalance = 0 then .ok (-1, s.emitEvent "BridgeLockFailed:ZeroAmount")
    else .ok (0, lockTokens s chain token)

/-- `bridge_mint` after its parsing. -/
def finishMint (s : ContractState) : Except Stop (Bytes × Bytes × Address × ℕ) → Outcome
  | .error .refused => .ok (-1, s)
  | .error .panicked => .error .panic
  | .ok (chain, token, recipient, amount) => .ok (0, mintWrapped s chain token recipient amount)

/-- `bridge_burn` after its parsing. -/
def finishBurn (env : CallEnv) (s : ContractState) : Except Stop (Bytes × Bytes × ℕ) → Outcome
  | .error .refused => .ok (-1, s)
  | .error .panicked => .error .panic
  | .ok (chain, token, amount) =>
    if s.readU128 (wrappedBalanceKey chain token env.caller) < amount then
      .ok (-1, s.emitEvent "BurnFailed:InsufficientBalance")
    else .ok (0, burnWrapped s chain token env.caller amount)

section
variable {env : CallEnv} {s : ContractState} {args : Bytes}

/-- The end of a parser that does not refuse, as an end of the contract. -/
def ofParse {α : Type} (x : Parse α) : Except Trap α := (value x).mapError fun _ => .panic

theorem ofParse_bind {α β : Type} (x : Parse α) (f : α → Parse β) :
    ofParse (x >>= f) = ofParse x >>= fun a => ofParse (f a) := by
  unfold ofParse
  rw [value_bind]
  cases value x with
  | error e => rfl
  | ok a => rfl

theorem ofParse_part (lo hi : ℕ) : ofParse (part args lo hi) = slice args lo hi := by
  unfold ofParse slice
  rw [value_part]
  split_ifs <;> rfl

theorem ofParse_sum_bind {α : Type} (l : List ℕ) (f : ℕ → Except Trap α) :
    ofParse (sum 32 l) >>= f = f (usize l.sum) := rfl

theorem parseChainToken_eq (args : Bytes) :
    parseChainToken args = ofParse (chainTokenArgs args) := by
  unfold parseChainToken chainTokenArgs numberIn
  simp only [bind_assoc, pure_bind, ofParse_bind, ofParse_part, ofParse_sum_bind, List.sum_cons,
    List.sum_nil, Nat.add_zero, ← Nat.add_assoc]
  rfl

theorem parseMint_eq (args : Bytes) : parseMint args = ofParse (mintFields args) := by
  unfold parseMint mintFields numberIn
  rw [parseChainToken_eq]
  simp only [bind_assoc, pure_bind, ofParse_bind, ofParse_part, ofParse_sum_bind, List.sum_cons,
    List.sum_nil, Nat.add_zero]
  rfl

theorem parseBurn_eq (args : Bytes) : parseBurn args = ofParse (burnFields args) := by
  unfold parseBurn burnFields numberIn
  rw [parseChainToken_eq]
  simp only [bind_assoc, pure_bind, ofParse_bind, ofParse_part, ofParse_sum_bind, List.sum_cons,
    List.sum_nil, Nat.add_zero]
  rfl

theorem numberIn_ne_refused (args : Bytes) (lo hi : ℕ) :
    value (numberIn args lo hi) ≠ .error .refused :=
  value_bind_ne_refused (value_part_ne_refused args lo hi) fun _ => nofun

theorem chainTokenArgs_ne_refused (args : Bytes) :
    value (chainTokenArgs args) ≠ .error .refused := by
  unfold chainTokenArgs
  refine value_bind_ne_refused (numberIn_ne_refused _ _ _) fun _ => ?_
  refine value_bind_ne_refused (value_sum_ne_refused _ _) fun _ => ?_
  refine value_bind_ne_refused (value_part_ne_refused _ _ _) fun _ => ?_
  refine value_bind_ne_refused (value_sum_ne_refused _ _) fun _ => ?_
  refine value_bind_ne_refused (value_sum_ne_refused _ _) fun _ => ?_
  refine value_bind_ne_refused (numberIn_ne_refused _ _ _) fun _ => ?_
  refine value_bind_ne_refused (value_sum_ne_refused _ _) fun _ => ?_
  refine value_bind_ne_refused (value_sum_ne_refused _ _) fun _ => ?_
  refine value_bind_ne_refused (value_part_ne_refused _ _ _) fun _ => ?_
  exact value_bind_ne_refused (value_sum_ne_refused _ _) fun _ => nofun

theorem mintFields_ne_refused (args : Bytes) : value (mintFields args) ≠ .error .refused := by
  unfold mintFields
  refine value_bind_ne_refused (chainTokenArgs_ne_refused args) fun _ => ?_
  refine value_bind_ne_refused (value_sum_ne_refused _ _) fun _ => ?_
  refine value_bind_ne_refused (value_part_ne_refused _ _ _) fun _ => ?_
  refine value_bind_ne_refused (value_sum_ne_refused _ _) fun _ => ?_
  refine value_bind_ne_refused (value_sum_ne_refused _ _) fun _ => ?_
  exact value_bind_ne_refused (numberIn_ne_refused _ _ _) fun _ => nofun

theorem burnFields_ne_refused (args : Bytes) : value (burnFields args) ≠ .error .refused := by
  unfold burnFields
  refine value_bind_ne_refused (chainTokenArgs_ne_refused args) fun _ => ?_
  refine value_bind_ne_refused (value_sum_ne_refused _ _) fun _ => ?_
  exact value_bind_ne_refused (numberIn_ne_refused _ _ _) fun _ => nofun

theorem value_cases {α : Type} {p : Parse α} (h : value p ≠ .error .refused) :
    value p = .error .panicked ∨ ∃ a, value p = .ok a := by
  cases hv : value p with
  | error e =>
    cases e with
    | refused => exact absurd hv h
    | panicked => exact .inl rfl
  | ok a => exact .inr ⟨a, rfl⟩

theorem bridgeMint_eq (ho : env.caller = s.readAddress ownerKey)
    (hp : s.readBool pausedKey = false) :
    bridgeMint env args s = finishMint s (value (mintArgs args)) := by
  unfold bridgeMint mintArgs
  rw [requireOwner_eq_ok.mpr ho, requireNotPaused_eq_ok.mpr hp, value_bind, value_need]
  by_cases h : argsLen args < 44
  · simp only [if_pos h, if_neg (not_le.mpr h)]
    rfl
  · simp only [if_neg h, if_pos (not_lt.mp h), parseMint_eq, ofParse]
    show _ = finishMint s (value (mintFields args))
    rcases value_cases (mintFields_ne_refused args) with hv | ⟨m, hv⟩ <;> rw [hv] <;> rfl

theorem bridgeBurn_eq (hp : s.readBool pausedKey = false) :
    bridgeBurn env args s = finishBurn env s (value (burnArgs args)) := by
  unfold bridgeBurn burnArgs
  rw [requireNotPaused_eq_ok.mpr hp, value_bind, value_need]
  by_cases h : argsLen args < 28
  · simp only [if_pos h, if_neg (not_le.mpr h)]
    rfl
  · simp only [if_neg h, if_pos (not_lt.mp h), parseBurn_eq, ofParse]
    show _ = finishBurn env s (value (burnFields args))
    rcases value_cases (burnFields_ne_refused args) with hv | ⟨m, hv⟩ <;> rw [hv] <;> rfl

theorem finishLock_part {lo hi : ℕ} {g : Bytes → Outcome} {f : Bytes → Except Stop (Bytes × Bytes)}
    (h : ∀ a, g a = finishLock args s (f a)) :
    slice args lo hi >>= g = finishLock args s (value (part args lo hi) >>= f) := by
  unfold slice
  rw [value_part]
  split_ifs
  · exact h _
  · rfl

theorem finishLock_need {n : ℕ} {k : Outcome} {f : Unit → Except Stop (Bytes × Bytes)}
    (h12 : ¬ argsLen args < 12) (h : k = finishLock args s (f ())) :
    (if args.length < n then pure (-1, s) else k) =
      finishLock args s (value (need (n ≤ args.length)) >>= f) := by
  rw [value_need]
  by_cases hn : args.length < n
  · rw [if_pos hn, if_neg (not_le.mpr hn)]
    show _ = Except.ok (-1, if argsLen args < 12 then _ else s)
    rw [if_neg h12]
    rfl
  · rw [if_neg hn, if_pos (not_lt.mp hn)]
    exact h

theorem value_sum_bind {α : Type} (l : List ℕ) (f : ℕ → Except Stop α) :
    value (sum 32 l) >>= f = f (usize l.sum) := rfl

theorem bridgeLock_eq (env : CallEnv) (hp : s.readBool pausedKey = false) :
    bridgeLock env args s = finishLock args s (value (lockArgs args)) := by
  unfold bridgeLock lockArgs numberIn
  rw [requireNotPaused_eq_ok.mpr hp]
  simp only [bind_assoc, pure_bind, value_bind, value_sum_bind, List.sum_cons, List.sum_nil,
    Nat.add_zero, ← Nat.add_assoc]
  by_cases h12 : argsLen args < 12
  · rw [if_pos h12, value_need, if_neg (not_le.mpr h12)]
    show _ = Except.ok (-1, if argsLen args < 12 then _ else s)
    rw [if_pos h12]
    rfl
  · rw [if_neg h12, value_need, if_pos (not_lt.mp h12)]
    refine finishLock_part fun c => finishLock_need h12 (finishLock_part fun chain =>
      finishLock_part fun t => finishLock_need h12 (finishLock_part fun token =>
        finishLock_part fun r => finishLock_need h12 ?_))
    rfl

end

/-! ### The documented layouts -/

/-- A field of any length: the length in four bytes, and the field. -/
def field (x : Bytes) : Bytes := leBytes 32 x.length ++ x

/-- Chain, token and the recipient on the other chain, and whatever follows. -/
def LockLayout (args : Bytes) : Bytes × Bytes → Prop
  | (chain, token) => ∃ recipient rest,
    args = field chain ++ (field token ++ (field recipient ++ rest))

/-- Chain, token, recipient and amount, and whatever follows. -/
def MintLayout (args : Bytes) : Bytes × Bytes × Address × ℕ → Prop
  | (chain, token, recipient, amount) => amount < 2 ^ 128 ∧ ∃ rest,
    args = field chain ++ (field token ++ (recipient.asBytes ++ (leBytes 128 amount ++ rest)))

/-- Chain, token, amount and the address on the other chain, and whatever follows. -/
def BurnLayout (args : Bytes) : Bytes × Bytes × ℕ → Prop
  | (chain, token, amount) => amount < 2 ^ 128 ∧ ∃ externalAddr rest,
    args = field chain ++ (field token ++ (leBytes 128 amount ++ (field externalAddr ++ rest)))

theorem length_field (x : Bytes) : (field x).length = 4 + x.length := by
  rw [field, List.length_append, length_leBytes]

def lengthAt (args : Bytes) (offset : ℕ) : ℕ := ofLeBytes ((args.drop offset).take 4)

theorem lengthAt_drop (args : Bytes) (i j : ℕ) :
    lengthAt (args.drop i) j = lengthAt args (i + j) := by
  rw [lengthAt, lengthAt, List.drop_drop]

theorem eq_field_append_iff {l x rest : Bytes} (hl : l.length < 2 ^ 32) :
    l = field x ++ rest ↔ 4 + lengthAt l 0 ≤ l.length ∧ x = (l.drop 4).take (lengthAt l 0) ∧
      rest = l.drop (4 + lengthAt l 0) := by
  constructor
  · rintro rfl
    have hfour : (leBytes 32 x.length).length = 4 := length_leBytes 32 _
    rw [List.length_append, length_field] at hl
    have hx : lengthAt (field x ++ rest) 0 = x.length := by
      rw [lengthAt, List.drop_zero, field, List.append_assoc, List.take_left' hfour,
        ofLeBytes_leBytes]
      exact Nat.mod_eq_of_lt (by omega)
    rw [hx, List.length_append, length_field]
    refine ⟨by omega, ?_, ?_⟩
    · rw [field, List.append_assoc, List.drop_left' hfour, List.take_left]
    · rw [List.drop_left' (length_field x)]
  · rintro ⟨hle, rfl, rfl⟩
    have hfour : (l.take 4).length = 4 := List.length_take_of_le (by omega)
    have hx : ((l.drop 4).take (lengthAt l 0)).length = lengthAt l 0 :=
      List.length_take_of_le (by rw [List.length_drop]; omega)
    have hbytes : leBytes 32 (lengthAt l 0) = l.take 4 :=
      leBytes_ofLeBytes hfour
    rw [field, hx, hbytes, List.append_assoc, ← List.drop_drop, List.take_append_drop,
      List.take_append_drop]

/-! ### The parsers on what they are given -/

theorem sum_two {a b : ℕ} (h : a + b < 2 ^ 32) : sum 32 [a, b] = pure (a + b) := sum_of_lt h

theorem sum_three {a b c : ℕ} (h : a + b + c < 2 ^ 32) : sum 32 [a, b, c] = pure (a + b + c) := by
  have hsum : [a, b, c].sum = a + b + c := (Nat.add_assoc a b c).symm
  rw [← hsum] at h ⊢
  exact sum_of_lt h

section
variable {args : Bytes}

theorem part_add {lo k : ℕ} (h : lo + k ≤ args.length) :
    part args lo (lo + k) = pure ((args.drop lo).take k) := by
  rw [part_of_le (Nat.le_add_right lo k) h, List.drop_take, Nat.add_sub_cancel_left]

theorem numberIn_add {lo k : ℕ} (h : lo + k ≤ args.length) :
    numberIn args lo (lo + k) = pure (ofLeBytes ((args.drop lo).take k)) := by
  rw [numberIn, part_add h, pure_bind]

theorem lengthIn_four {lo : ℕ} (h : lo + 4 ≤ args.length) :
    numberIn args lo (lo + 4) = pure (lengthAt args lo) := numberIn_add h

/-- The length of what a lock announces: three lengths and three fields. -/
def announced (args : Bytes) : ℕ :=
  let chainLen := lengthAt args 0
  let tokenLen := lengthAt args (4 + chainLen)
  12 + chainLen + tokenLen + lengthAt args (8 + chainLen + tokenLen)

/-- No announced length takes a sum of `bridge_lock` out of 32 bits. The sums with the length of the
token and of the recipient are made only if the arguments go as far as that. -/
def LockSumsFit (args : Bytes) : Prop :=
  let chainLen := lengthAt args 0
  let tokenLen := lengthAt args (4 + chainLen)
  8 + chainLen < 2 ^ 32 ∧ (8 + chainLen ≤ args.length →
    12 + chainLen + tokenLen < 2 ^ 32 ∧ (12 + chainLen + tokenLen ≤ args.length →
      announced args < 2 ^ 32))

instance (args : Bytes) : Decidable (LockSumsFit args) := by
  unfold LockSumsFit
  infer_instance

def frontFields (args : Bytes) : Bytes × Bytes :=
  let chainLen := lengthAt args 0
  ((args.drop 4).take chainLen,
    (args.drop (8 + chainLen)).take (lengthAt args (4 + chainLen)))

/-- **The parsing of a lock**: a sum wraps, or the arguments are refused when they are shorter than
what they announce, or the fields are read. -/
theorem lockArgs_checked (hlen : args.length < 2 ^ 31) (h12 : ¬ argsLen args < 12) :
    Checked (LockSumsFit args) (announced args ≤ args.length) (frontFields args)
      (lockArgs args) := by
  have h12' : 12 ≤ args.length := le_length_of_argsLen h12
  have hannounced : 12 + lengthAt args 0 + lengthAt args (4 + lengthAt args 0) ≤ announced args :=
    Nat.le_add_right _ _
  unfold lockArgs
  rw [need_of (not_lt.mp h12), pure_bind, lengthIn_four (show 0 + 4 ≤ args.length by omega),
    pure_bind]
  -- the length of the chain
  refine .sum_need (e := 8 + lengthAt args 0) (by simp; omega) (fun h hfit => ?_)
    (fun hc h => ⟨⟨hc, fun hle => ?_⟩, by omega⟩) fun hc hc' => ?_
  · exact absurd hfit.1 (not_lt.mpr h)
  · exact absurd hle (not_le.mpr h)
  rw [sum_two (by omega), pure_bind, part_add (by omega), pure_bind, pure_bind,
    sum_two (by omega), pure_bind, lengthIn_four (by omega), pure_bind]
  -- the length of the token
  refine .sum_need (e := 12 + lengthAt args 0 + lengthAt args (4 + lengthAt args 0))
    (by simp; omega) (fun h hfit => ?_)
    (fun ht h => ⟨⟨hc, fun _ => ⟨ht, fun hle => ?_⟩⟩, by omega⟩) fun ht ht' => ?_
  · exact absurd (hfit.2 hc').1 (not_lt.mpr h)
  · exact absurd hle (not_le.mpr h)
  rw [pure_bind, sum_three (by omega), pure_bind, part_add (by omega), pure_bind, pure_bind,
    sum_two (by omega), pure_bind, lengthIn_four (by omega), pure_bind,
    show 4 + lengthAt args 0 + 4 = 8 + lengthAt args 0 by omega]
  -- the length of the recipient
  refine .sum_need (e := announced args) ?_ (fun h hfit => ?_)
    (fun hr h => ⟨⟨hc, fun _ => ⟨ht, fun _ => hr⟩⟩, not_le.mpr h⟩) fun hr hr' => ?_
  · dsimp only [announced]
    simp only [List.sum_cons, List.sum_nil]
    omega
  · exact absurd ((hfit.2 hc').2 ht') (not_lt.mpr h)
  · exact .inr (.inr ⟨⟨hc, fun _ => ⟨ht, fun _ => hr⟩⟩, hr', rfl⟩)

/-- The offset of what follows the two fields at the front. -/
def tailOffset (args : Bytes) : ℕ :=
  let chainLen := lengthAt args 0
  8 + chainLen + lengthAt args (4 + chainLen)

theorem eq_fields_append_iff (hlen : args.length < 2 ^ 31) {chain token tail : Bytes} :
    args = field chain ++ (field token ++ tail) ↔ tailOffset args ≤ args.length ∧
      (chain, token) = frontFields args ∧ tail = args.drop (tailOffset args) := by
  have hdrop : (args.drop (4 + lengthAt args 0)).length < 2 ^ 32 := by
    rw [List.length_drop]
    omega
  rw [eq_field_append_iff (by omega), eq_comm (b := args.drop (4 + lengthAt args 0)),
    eq_field_append_iff hdrop, lengthAt_drop, List.drop_drop, List.drop_drop, List.length_drop,
    Nat.add_zero, frontFields, tailOffset, Prod.mk.injEq,
    show 4 + lengthAt args 0 + 4 = 8 + lengthAt args 0 by omega,
    show 4 + lengthAt args 0 + (4 + lengthAt args (4 + lengthAt args 0)) =
      8 + lengthAt args 0 + lengthAt args (4 + lengthAt args 0) by omega]
  constructor
  · rintro ⟨hle, hchain, hle', htoken, htail⟩
    exact ⟨by omega, ⟨hchain, htoken⟩, htail⟩
  · rintro ⟨hle, ⟨hchain, htoken⟩, htail⟩
    exact ⟨by omega, hchain, by omega, htoken, htail⟩

theorem lockLayout_iff (hlen : args.length < 2 ^ 31) (m : Bytes × Bytes) :
    LockLayout args m ↔ announced args ≤ args.length ∧ m = frontFields args := by
  obtain ⟨chain, token⟩ := m
  have hannounced : announced args = tailOffset args + (4 + lengthAt args (tailOffset args)) := by
    dsimp only [announced, tailOffset]
    omega
  have hdrop : (args.drop (tailOffset args)).length < 2 ^ 32 := by
    rw [List.length_drop]
    omega
  unfold LockLayout
  simp only [eq_fields_append_iff hlen, eq_comm (b := args.drop (tailOffset args)),
    eq_field_append_iff hdrop, lengthAt_drop, Nat.add_zero, List.length_drop]
  constructor
  · rintro ⟨recipient, rest, hle, hfields, hle', -⟩
    exact ⟨by omega, hfields⟩
  · rintro ⟨hle, hfields⟩
    exact ⟨_, _, by omega, hfields, by omega, rfl, rfl⟩

theorem chainTokenArgs_of_le (hlen : args.length < 2 ^ 31) (h : tailOffset args ≤ args.length) :
    chainTokenArgs args =
      pure ((frontFields args).1, (frontFields args).2, tailOffset args) := by
  dsimp only [tailOffset] at h
  unfold chainTokenArgs
  rw [lengthIn_four (show 0 + 4 ≤ args.length by omega), pure_bind, sum_two (by omega), pure_bind,
    part_add (by omega), pure_bind, pure_bind, sum_two (by omega), pure_bind,
    lengthIn_four (by omega), pure_bind, pure_bind, sum_three (by omega), pure_bind,
    part_add (by omega), pure_bind, pure_bind,
    show 4 + lengthAt args 0 + 4 = 8 + lengthAt args 0 by omega]
  rfl

theorem drop_tail {x y : Bytes} {lo : ℕ} (h : args.drop lo = x ++ y) :
    (args.drop lo).take x.length = x ∧ args.drop (lo + x.length) = y := by
  rw [h, ← List.drop_drop, h]
  exact ⟨List.take_left, List.drop_left⟩

theorem ofLeBytes_amount {amount : ℕ} (h : amount < 2 ^ 128) :
    ofLeBytes (leBytes 128 amount) = amount := by
  rw [ofLeBytes_leBytes]
  exact Nat.mod_eq_of_lt h

theorem eight_le_tailOffset (args : Bytes) : 8 ≤ tailOffset args := by
  dsimp only [tailOffset]
  omega

theorem mintFields_of_layout (hlen : args.length < 2 ^ 31) {m : Bytes × Bytes × Address × ℕ}
    (h : MintLayout args m) : 44 ≤ args.length ∧ mintFields args = pure m := by
  obtain ⟨chain, token, recipient, amount⟩ := m
  obtain ⟨hamount, rest, hargs⟩ := h
  obtain ⟨hle, hfields, htail⟩ := (eq_fields_append_iff hlen).mp hargs
  have hrecipient := drop_tail htail.symm
  have hamountAt := drop_tail hrecipient.2
  have hlength := congrArg List.length htail
  rw [Address.length_asBytes] at hrecipient hamountAt
  rw [length_leBytes] at hamountAt
  rw [List.length_append, List.length_append, List.length_drop, Address.length_asBytes,
    length_leBytes] at hlength
  have htail8 := eight_le_tailOffset args
  refine ⟨by omega, ?_⟩
  unfold mintFields
  rw [chainTokenArgs_of_le hlen hle, pure_bind, ← hfields]
  dsimp only
  rw [sum_two (by omega), pure_bind, part_add (by omega), pure_bind, pure_bind,
    sum_two (by omega), pure_bind,
    numberIn_add (show tailOffset args + 20 + 16 ≤ args.length by omega), pure_bind, hrecipient.1,
      hamountAt.1, ContractState.addressOfBytes_asBytes, ofLeBytes_amount hamount]

theorem burnFields_of_layout (hlen : args.length < 2 ^ 31) {m : Bytes × Bytes × ℕ}
    (h : BurnLayout args m) : 28 ≤ args.length ∧ burnFields args = pure m := by
  obtain ⟨chain, token, amount⟩ := m
  obtain ⟨hamount, externalAddr, rest, hargs⟩ := h
  obtain ⟨hle, hfields, htail⟩ := (eq_fields_append_iff hlen).mp hargs
  have hamountAt := drop_tail htail.symm
  have hlength := congrArg List.length htail
  rw [length_leBytes] at hamountAt
  rw [List.length_append, List.length_append, List.length_drop, length_field,
    length_leBytes] at hlength
  have htail8 := eight_le_tailOffset args
  refine ⟨by omega, ?_⟩
  unfold burnFields
  rw [chainTokenArgs_of_le hlen hle, pure_bind, ← hfields]
  dsimp only
  rw [sum_two (by omega), pure_bind,
    numberIn_add (show tailOffset args + 16 ≤ args.length by omega), pure_bind, hamountAt.1,
    ofLeBytes_amount hamount]

end

/-! ### Exact parsing -/

/-- **A function parses its arguments exactly**: it takes no part outside them, no sum wraps, it
gets past its parsing with the fields of the layout and only with them, and otherwise returns `-1`
and leaves the storage alone. -/
structure ParsesExactly {α : Type} (x : Parse α) (layout : α → Prop) (s : ContractState)
    (result : Outcome) : Prop where
  inside : value x ≠ .error .panicked
  noWrap : wraps x = false
  past : ∀ m, value x = .ok m ↔ layout m
  refused : (¬ ∃ m, layout m) → ∃ s', result = .ok (-1, s') ∧ s'.storage = s.storage

section
variable {α : Type} {x : Parse α} {layout : α → Prop} {s : ContractState} {result : Outcome}

theorem parsesExactly_of_refused (hx : x = throw .refused) (hno : ¬ ∃ m, layout m)
    (hresult : ∃ s', result = .ok (-1, s') ∧ s'.storage = s.storage) :
    ParsesExactly x layout s result := by
  subst hx
  exact ⟨nofun, rfl, fun m => iff_of_false nofun fun h => hno ⟨m, h⟩, fun _ => hresult⟩

theorem parsesExactly_of_pure {m : α} (hx : x = pure m) (hm : ∀ m', layout m' ↔ m' = m) :
    ParsesExactly x layout s result := by
  subst hx
  refine ⟨nofun, rfl, fun m' => ?_, fun hno => absurd ⟨m, (hm m).mpr rfl⟩ hno⟩
  rw [hm, value_pure, Except.ok.injEq, eq_comm]

theorem ParsesExactly.exists_layout (h : ParsesExactly x layout s result)
    (hne : value x ≠ .error .refused) : ∃ m, layout m := by
  cases hx : value x with
  | error e =>
    cases e with
    | refused => exact absurd hx hne
    | panicked => exact absurd hx h.inside
  | ok m => exact ⟨m, (h.past m).mp hx⟩

end

section
variable {env : CallEnv} {s : ContractState} {args : Bytes}

theorem lock_parsesExactly_iff (hlen : args.length < 2 ^ 31)
    (hpaused : s.readBool pausedKey = false) :
    ParsesExactly (lockArgs args) (LockLayout args) s (call env s (.bridgeLock args)) ↔
      args.length < 12 ∨ LockSumsFit args := by
  have hshort : argsLen args < 12 ↔ args.length < 12 := by
    rw [argsLen_of_lt hlen]
    omega
  have hresult : lockArgs args = throw .refused →
      ∃ s', call env s (.bridgeLock args) = .ok (-1, s') ∧ s'.storage = s.storage := by
    intro hx
    have hcall : call env s (.bridgeLock args) = finishLock args s (.error .refused) :=
      (bridgeLock_eq env hpaused).trans (congrArg (finishLock args s) (congrArg value hx))
    refine ⟨_, hcall, ?_⟩
    split_ifs <;> rfl
  have hno : args.length < announced args → ¬ ∃ m, LockLayout args m := by
    rintro hlt ⟨m, hm⟩
    exact absurd ((lockLayout_iff hlen m).mp hm).1 (not_le.mpr hlt)
  by_cases h12 : argsLen args < 12
  · have hx : lockArgs args = throw .refused := by
      unfold lockArgs
      rw [need_of_not (not_le.mpr h12), throw_bind]
    have hlt : args.length < announced args := by
      have := hshort.mp h12
      dsimp only [announced]
      omega
    exact iff_of_true (parsesExactly_of_refused hx (hno hlt) (hresult hx)) (.inl (hshort.mp h12))
  · rcases lockArgs_checked hlen h12 with ⟨hfit, hwraps⟩ | ⟨hfit, hlt, hx⟩ | ⟨hfit, hle, hx⟩
    · refine iff_of_false (fun h => ?_) (not_or.mpr ⟨mt hshort.mpr h12, hfit⟩)
      rw [h.noWrap] at hwraps
      cases hwraps
    · exact iff_of_true (parsesExactly_of_refused hx (hno (not_le.mp hlt)) (hresult hx))
        (.inr hfit)
    · refine iff_of_true (parsesExactly_of_pure hx fun m => ?_) (.inr hfit)
      rw [lockLayout_iff hlen, and_iff_right hle]

theorem parsesExactly_need_iff {α : Type} {layout : α → Prop} {result : Outcome} {n : ℕ}
    {fields : Parse α} (hlen : args.length < 2 ^ 31) (hne : value fields ≠ .error .refused)
    (hfields : ∀ m, layout m → n ≤ args.length ∧ fields = pure m)
    (hresult : argsLen args < n → result = .ok (-1, s)) :
    ParsesExactly (do need (n ≤ argsLen args); fields) layout s result ↔
      args.length < n ∨ ∃ m, layout m := by
  have hshort : argsLen args < n ↔ args.length < n := by
    rw [argsLen_of_lt hlen]
    omega
  by_cases h : argsLen args < n
  · refine iff_of_true (parsesExactly_of_refused ?_ ?_ ⟨s, hresult h, rfl⟩) (.inl (hshort.mp h))
    · rw [need_of_not (not_le.mpr h), throw_bind]
    · rintro ⟨m, hm⟩
      exact absurd (hfields m hm).1 (not_le.mpr (hshort.mp h))
  · rw [need_of (not_lt.mp h), pure_bind, or_iff_right (mt hshort.mpr h)]
    refine ⟨fun hexact => hexact.exists_layout hne, fun ⟨m, hm⟩ => ?_⟩
    have hpure := (hfields m hm).2
    refine parsesExactly_of_pure hpure fun m' => ⟨fun hm' => ?_, fun heq => heq ▸ hm⟩
    have hvalue := congrArg value ((hfields m' hm').2.symm.trans hpure)
    exact Except.ok.inj hvalue

theorem mint_parsesExactly_iff (hlen : args.length < 2 ^ 31)
    (howner : env.caller = s.readAddress ownerKey) (hpaused : s.readBool pausedKey = false) :
    ParsesExactly (mintArgs args) (MintLayout args) s (call env s (.bridgeMint args)) ↔
      args.length < 44 ∨ ∃ m, MintLayout args m := by
  refine parsesExactly_need_iff (n := 44) hlen (mintFields_ne_refused args)
    (fun m hm => mintFields_of_layout hlen hm) fun (h : argsLen args < 44) => ?_
  have hx : mintArgs args = throw .refused := by
    unfold mintArgs
    rw [need_of_not (not_le.mpr h), throw_bind]
  exact (bridgeMint_eq howner hpaused).trans (congrArg (finishMint s) (congrArg value hx))

theorem burn_parsesExactly_iff (hlen : args.length < 2 ^ 31)
    (hpaused : s.readBool pausedKey = false) :
    ParsesExactly (burnArgs args) (BurnLayout args) s (call env s (.bridgeBurn args)) ↔
      args.length < 28 ∨ ∃ m, BurnLayout args m := by
  refine parsesExactly_need_iff (n := 28) hlen (burnFields_ne_refused args)
    (fun m hm => burnFields_of_layout hlen hm) fun (h : argsLen args < 28) => ?_
  have hx : burnArgs args = throw .refused := by
    unfold burnArgs
    rw [need_of_not (not_le.mpr h), throw_bind]
  exact (bridgeBurn_eq hpaused).trans (congrArg (finishBurn env s) (congrArg value hx))

end

/-- **The arguments of the bridge contract.** `bridge_lock` parses them exactly if and only if no
announced length takes a sum out of 32 bits. `bridge_mint` and `bridge_burn` do so only for
arguments that are shorter than any layout or have the layout. -/
theorem parses_exactly_iff {args : Bytes} (hlen : args.length < 2 ^ 31) {env : CallEnv}
    {s : ContractState} (hpaused : s.readBool pausedKey = false) :
    (ParsesExactly (lockArgs args) (LockLayout args) s (call env s (.bridgeLock args)) ↔
      args.length < 12 ∨ LockSumsFit args) ∧
    (env.caller = s.readAddress ownerKey →
      (ParsesExactly (mintArgs args) (MintLayout args) s (call env s (.bridgeMint args)) ↔
        args.length < 44 ∨ ∃ m, MintLayout args m)) ∧
    (ParsesExactly (burnArgs args) (BurnLayout args) s (call env s (.bridgeBurn args)) ↔
      args.length < 28 ∨ ∃ m, BurnLayout args m) :=
  ⟨lock_parsesExactly_iff hlen hpaused, fun howner => mint_parsesExactly_iff hlen howner hpaused,
    burn_parsesExactly_iff hlen hpaused⟩

/-- A bridge with some balance, that belongs to the first address. -/
def ownedBridge : ContractState :=
  (init ⟨addressOfBytes [1], 0⟩ (.new (addressOfBytes [9]))).deposit 100

/-- The arguments of a lock with a recipient of three bytes. -/
def lockInput : Bytes := field [97] ++ (field [116] ++ (field [1, 2, 3] ++ []))

def mintInput : Bytes :=
  field [97] ++ (field [116] ++ ((addressOfBytes [3]).asBytes ++ (leBytes 128 5 ++ [])))

/-- Both are parsed exactly. -/
theorem complete_arguments_parsed :
    ParsesExactly (lockArgs lockInput) (LockLayout lockInput) ownedBridge
      (call ⟨addressOfBytes [3], 0⟩ ownedBridge (.bridgeLock lockInput)) ∧
    ParsesExactly (mintArgs mintInput) (MintLayout mintInput) ownedBridge
      (call ⟨addressOfBytes [1], 0⟩ ownedBridge (.bridgeMint mintInput)) := by
  refine ⟨(parses_exactly_iff (by decide) (by decide +kernel)).1.mpr (.inr (by decide +kernel)),
    ((parses_exactly_iff (by decide) (by decide +kernel)).2.1 (by decide +kernel)).mpr (.inr ?_)⟩
  exact ⟨([97], [116], addressOfBytes [3], 5), by decide, [], rfl⟩

/-- The arguments of a lock whose recipient is announced with `2 ^ 32 - 1` bytes and has none. -/
def wrappingLock : Bytes := field [] ++ (field [] ++ leBytes 32 (2 ^ 32 - 1))

/-- The arguments of a mint whose chain is announced with that many bytes. -/
def overlongMint : Bytes := leBytes 32 (2 ^ 32 - 1) ++ List.replicate 40 0

/-- The arguments of a burn without an external address. -/
def truncatedBurn : Bytes := field [] ++ (field [1, 2, 3, 4] ++ leBytes 128 0)

/-- **Malformed arguments.** The lock goes through, because a sum wraps, the mint panics, and the
burn goes through like a complete one. -/
theorem malformed_arguments_accepted :
    ((¬ ∃ m, LockLayout wrappingLock m) ∧ wraps (lockArgs wrappingLock) = true ∧
      Succeeds ⟨addressOfBytes [3], 0⟩ ownedBridge (.bridgeLock wrappingLock)) ∧
    ((¬ ∃ m, MintLayout overlongMint m) ∧
      call ⟨addressOfBytes [1], 0⟩ ownedBridge (.bridgeMint overlongMint) = .error .panic) ∧
    (¬ ∃ m, BurnLayout truncatedBurn m) ∧
      Succeeds ⟨addressOfBytes [3], 0⟩ ownedBridge (.bridgeBurn truncatedBurn) := by
  refine ⟨⟨?_, by decide +kernel, by decide +kernel⟩, ⟨?_, ?_⟩, ?_, by decide +kernel⟩
  · rintro ⟨m, hm⟩
    exact absurd ((lockLayout_iff (by decide) m).mp hm).1 (by decide +kernel)
  · rintro ⟨m, hm⟩
    have hvalue := congrArg value (mintFields_of_layout (by decide) hm).2
    have hpanic : value (mintFields overlongMint) = .error .panicked := by decide +kernel
    rw [hpanic] at hvalue
    cases hvalue
  · have hpanic : value (mintArgs overlongMint) = .error .panicked := by decide +kernel
    exact (bridgeMint_eq (by decide +kernel) (by decide +kernel)).trans
      (congrArg (finishMint ownedBridge) hpanic)
  · rintro ⟨⟨chain, token, amount⟩, hm⟩
    have hvalue := congrArg value (burnFields_of_layout (by decide) hm).2
    have hread : value (burnFields truncatedBurn) = .ok ([], [1, 2, 3, 4], 0) := by decide +kernel
    obtain ⟨rfl, rfl, rfl⟩ : [] = chain ∧ [1, 2, 3, 4] = token ∧ 0 = amount := by
      simpa using Except.ok.inj (hread.symm.trans hvalue)
    obtain ⟨-, externalAddr, rest, hargs⟩ := hm
    -- four more bytes would be needed for the length of the external address
    have hlength := congrArg List.length hargs
    simp only [truncatedBurn, List.length_append, length_field, length_leBytes] at hlength
    omega

end Rustchain.Contracts.Bridge

import Rustchain.Api.Wallet
import Rustchain.Consensus.ChainStore

/-! # The block pages

`GET /blocks` lists the blocks from the newest to the oldest in pages. A page starts at the height
less the blocks on the pages before it, and never below zero, so that the pages up to the one with
the genesis block divide the chain (`pages_partition_iff`), and every page after that one starts at
the genesis block again instead of being empty. -/

namespace Rustchain.Api

open Rustchain.Core Storage Consensus Lib.Machine

/-! ### The route -/

structure ApiResponse (α : Type) where
  success : Bool
  data : Option α
  error : Option String

def ApiResponse.ok {α : Type} (data : α) : ApiResponse α := ⟨true, some data, none⟩

/-- The `Debug` text of a transaction type. -/
def txTypeName : TxType → String
  | .transfer => "Transfer"
  | .contractDeploy => "ContractDeploy"
  | .contractCall => "ContractCall"
  | .stake => "Stake"
  | .unstake => "Unstake"

structure TransactionDto where
  hash : String
  sender : String
  toAddr : Option String
  value : String
  nonce : ℕ
  txType : String
  gasLimit : ℕ
  gasPrice : ℕ
  dataSize : ℕ
  timestamp : ℕ
  chainId : ℕ

/-- `TransactionDto::from`. -/
def TransactionDto.ofSigned (signed : SignedTransaction) : TransactionDto :=
  let tx := signed.transaction
  { hash := signed.hash.display
    sender := tx.sender.toHex
    toAddr := tx.toAddr.map Address.toHex
    value := toString tx.value
    nonce := tx.nonce
    txType := txTypeName tx.txType
    gasLimit := tx.gasLimit
    gasPrice := tx.gasPrice
    dataSize := tx.data.length
    timestamp := tx.timestamp
    chainId := tx.chainId }

structure BlockDto where
  number : ℕ
  hash : String
  parentHash : String
  timestamp : ℕ
  validator : String
  epoch : ℕ
  gasUsed : ℕ
  gasLimit : ℕ
  txCount : ℕ
  stateRoot : String
  transactionsRoot : String
  transactions : List TransactionDto

/-- `BlockDto::from`. -/
def BlockDto.ofBlock (P : Primitives) (block : Block) : BlockDto :=
  let h := block.header
  { number := h.number
    hash := (block.hash P).display
    parentHash := h.parentHash.display
    timestamp := h.timestamp
    validator := h.validator.toHex
    epoch := h.epoch
    gasUsed := h.gasUsed
    gasLimit := h.gasLimit
    txCount := block.transactions.length
    stateRoot := h.stateRoot.display
    transactionsRoot := h.transactionsRoot.display
    transactions := block.transactions.map TransactionDto.ofSigned }

/-- The query of the route, with its defaults. -/
structure PaginationParams where
  page : ℕ := 1
  perPage : ℕ := 20

/-- `per_page.clamp(1, 100)`. -/
def pageSize (perPage : ℕ) : ℕ := min (max perPage 1) 100

section
variable {σ : Type} [Backend σ]

/-- The loop of `list_blocks` over its remaining indices. -/
def listFrom (P : Primitives) (start : ℕ) :
    List ℕ → List BlockDto → σ → Except ApiError (List BlockDto) × σ
  | [], blocks, s => (.ok blocks, s)
  | i :: is, blocks, s =>
    if start < i then (.ok blocks, s)
    else
      match getBlockByNumber (start - i) s with
      | (.error err, s) => (.error (.internal s!"Storage error: {err.display}"), s)
      | (.ok none, s) => listFrom P start is blocks s
      | (.ok (some block), s) => listFrom P start is (blocks ++ [BlockDto.ofBlock P block]) s

/-- **`list_blocks`**, on the height and the storage of the chain. -/
def listBlocks (P : Primitives) (params : PaginationParams) (s : ChainState σ) :
    Flagged (Except ApiError (ApiResponse (List BlockDto)) × σ) := do
  let perPage := pageSize params.perPage
  let page := max params.page 1
  let skipped ← mulU 64 (page - 1) perPage
  let start := s.height - skipped
  let r := listFrom P start (List.range perPage) [] s.storage
  return (r.1.map .ok, r.2)

end

/-! ### What a page lists -/

def pageNumbers (P : Primitives) (s : ChainState Database) (params : PaginationParams) : List ℕ :=
  match (listBlocks P params s).val.1 with
  | .ok r => (r.data.getD []).map (·.number)
  | .error _ => []

/-- The blocks up to the height are there, each under its number. -/
def AllStored (s : ChainState Database) : Prop :=
  ∀ i ≤ s.height, ∃ b, s.storage.blocks.lookup i = some b ∧ b.header.number = i

theorem allStored_of_storedChain {P : Primitives} {s : ChainState Database}
    (h : StoredChain P s) : AllStored s := by
  intro i hi
  obtain ⟨b, hb, hn, -⟩ := h.block i hi
  exact ⟨b, Except.ok.inj hb, hn⟩

/-- The numbers from `h` down to zero. -/
def descending (h : ℕ) : List ℕ := (List.range (h + 1)).map (h - ·)

theorem length_descending (h : ℕ) : (descending h).length = h + 1 := by
  rw [descending, List.length_map, List.length_range]

theorem drop_descending {h k : ℕ} (hk : k ≤ h) : (descending h).drop k = descending (h - k) := by
  refine List.ext_getElem ?_ fun i _ _ => ?_
  · rw [List.length_drop, length_descending, length_descending]
    omega
  · simp only [descending, List.getElem_drop, List.getElem_map, List.getElem_range]
    omega

theorem flatMap_windows {α : Type} (l : List α) (p n : ℕ) :
    (List.range n).flatMap (fun k => (l.drop (k * p)).take p) = l.take (n * p) := by
  induction n with
  | zero => simp
  | succ n ih =>
    rw [List.range_succ, List.flatMap_append, ih, List.flatMap_singleton, Nat.succ_mul,
      List.take_add]

theorem pageSize_pos (perPage : ℕ) : 0 < pageSize perPage := by
  unfold pageSize
  omega

section
variable {P : Primitives} {s : ChainState Database}

theorem listFrom_range' (hs : AllStored s) {start : ℕ} (hstart : start ≤ s.height) (i n : ℕ)
    (blocks : List BlockDto) :
    ∃ l, listFrom P start (List.range' i n) blocks s.storage = (.ok l, s.storage) ∧
      l.map (·.number) =
        blocks.map (·.number) ++ ((List.range' i n).filter (· ≤ start)).map (start - ·) := by
  induction n generalizing i blocks with
  | zero => exact ⟨blocks, rfl, (List.append_nil _).symm⟩
  | succ n ih =>
    rw [List.range'_succ, listFrom]
    split_ifs with hi
    · -- all later indices are above the start as well
      have hnone : (i :: List.range' (i + 1) n).filter (· ≤ start) = [] := by
        rw [← List.range'_succ, List.filter_eq_nil_iff]
        intro j hj
        rw [List.mem_range'_1] at hj
        simp only [decide_eq_true_eq]
        omega
      refine ⟨blocks, rfl, ?_⟩
      rw [hnone, List.map_nil, List.append_nil]
    · obtain ⟨b, hb, hn⟩ := hs (start - i) ((Nat.sub_le _ _).trans hstart)
      have hread : getBlockByNumber (start - i) s.storage = (.ok (some b), s.storage) :=
        congrArg (fun o => (Except.ok o, s.storage)) hb
      obtain ⟨l, hl, hnumbers⟩ := ih (i + 1) (blocks ++ [BlockDto.ofBlock P b])
      refine ⟨l, by rw [hread]; exact hl, ?_⟩
      have hnumber : (BlockDto.ofBlock P b).number = start - i := hn
      rw [hnumbers, List.filter_cons_of_pos (by simpa using hi), List.map_append,
        List.map_singleton, hnumber, List.map_cons, List.append_assoc, List.singleton_append]

theorem filter_range_le (n m : ℕ) : (List.range n).filter (· ≤ m) = List.range (min n (m + 1)) := by
  induction n with
  | zero => simp
  | succ n ih =>
    rw [List.range_succ, List.filter_append, ih]
    by_cases h : n ≤ m
    · rw [List.filter_cons_of_pos (by simpa using h), List.filter_nil, min_eq_left (by omega),
        min_eq_left (by omega), List.range_succ]
    · rw [List.filter_cons_of_neg (by simpa using h), List.filter_nil, List.append_nil,
        min_eq_right (by omega), min_eq_right (by omega)]

theorem pageNumbers_eq (hs : AllStored s) (params : PaginationParams) :
    pageNumbers P s params =
      (descending (s.height - (max params.page 1 - 1) * pageSize params.perPage % 2 ^ 64)).take
        (pageSize params.perPage) := by
  obtain ⟨l, hl, hnumbers⟩ := listFrom_range' (P := P) hs (Nat.sub_le s.height
    ((max params.page 1 - 1) * pageSize params.perPage % 2 ^ 64)) 0 (pageSize params.perPage) []
  have hok : (listBlocks P params s).val.1 = .ok (.ok l) := by
    unfold listBlocks
    simp only [val_bind, val_pure, mulU, List.range_eq_range', hl]
    rfl
  unfold pageNumbers
  rw [hok]
  show l.map (·.number) = _
  rw [hnumbers, List.map_nil, List.nil_append, ← List.range_eq_range', filter_range_le, descending,
    ← List.map_take, List.take_range]

theorem pageNumbers_ne_nil (hs : AllStored s) (params : PaginationParams) :
    pageNumbers P s params ≠ [] := by
  intro h
  have hlen := congrArg List.length h
  rw [pageNumbers_eq hs, List.length_take, length_descending, List.length_nil] at hlen
  have hpos := pageSize_pos params.perPage
  omega

end

/-- **Block pages partition the chain** up to the page with the genesis block: the pages up to it
list every block once, from the height down, and a page lists its part of the chain if and only if
it is not after that one. -/
theorem pages_partition_iff (P : Primitives) {s : ChainState Database} (hs : AllStored s)
    (hheight : s.height < 2 ^ 64) (perPage : ℕ) :
    (List.range (s.height / pageSize perPage + 1)).flatMap
        (fun k => pageNumbers P s ⟨k + 1, perPage⟩) = descending s.height ∧
    ∀ page, 1 ≤ page →
      (pageNumbers P s ⟨page, perPage⟩ =
          ((descending s.height).drop ((page - 1) * pageSize perPage)).take (pageSize perPage) ↔
        page ≤ s.height / pageSize perPage + 1) := by
  have hpos := pageSize_pos perPage
  have window : ∀ k, k * pageSize perPage ≤ s.height → pageNumbers P s ⟨k + 1, perPage⟩ =
      ((descending s.height).drop (k * pageSize perPage)).take (pageSize perPage) := by
    intro k hk
    rw [pageNumbers_eq hs, drop_descending hk]
    show (descending (s.height - (max (k + 1) 1 - 1) * pageSize perPage % 2 ^ 64)).take _ = _
    rw [show max (k + 1) 1 - 1 = k by omega, Nat.mod_eq_of_lt (by omega)]
  constructor
  · have hall : ∀ k ∈ List.range (s.height / pageSize perPage + 1),
        pageNumbers P s ⟨k + 1, perPage⟩ =
          ((descending s.height).drop (k * pageSize perPage)).take (pageSize perPage) := by
      intro k hk
      refine window k ((Nat.le_div_iff_mul_le hpos).mp ?_)
      exact Nat.lt_succ_iff.mp (List.mem_range.mp hk)
    rw [List.flatMap_congr hall, flatMap_windows, List.take_of_length_le]
    rw [length_descending]
    exact Nat.lt_mul_of_div_lt (Nat.lt_succ_self _) hpos
  · intro page hpage
    obtain ⟨k, rfl⟩ : ∃ k, page = k + 1 := ⟨page - 1, by omega⟩
    rw [Nat.add_sub_cancel, Nat.add_le_add_iff_right, Nat.le_div_iff_mul_le hpos]
    refine ⟨fun h => ?_, window k⟩
    -- after the page with the genesis block nothing is left, but the page is not empty
    by_contra hk
    rw [List.drop_eq_nil_of_le (by rw [length_descending]; omega), List.take_nil] at h
    exact pageNumbers_ne_nil hs _ h

namespace Small

def threeBlocks : ChainState Database :=
  let blockAt (i : ℕ) : Block :=
    { Consensus.Small.genesisBlock with
      header := { Consensus.Small.genesisBlock.header with number := i } }
  { Consensus.Small.start with
    head := blockAt 2
    height := 2
    storage := { Consensus.Small.start.storage with
      blocks := ((Consensus.Small.start.storage.blocks.insert 0 (blockAt 0)).insert 1
        (blockAt 1)).insert 2 (blockAt 2) } }

theorem threeBlocks_stored : AllStored threeBlocks := by
  intro i hi
  have hi' : i ≤ 2 := hi
  obtain rfl | rfl | rfl : i = 0 ∨ i = 1 ∨ i = 2 := by omega
  all_goals exact ⟨_, rfl, rfl⟩

end Small

/-- Three blocks in pages of two: the two pages are the chain. -/
theorem three_blocks_paged :
    pageNumbers .small Small.threeBlocks ⟨1, 2⟩ ++ pageNumbers .small Small.threeBlocks ⟨2, 2⟩ =
      [2, 1, 0] :=
  (pages_partition_iff .small Small.threeBlocks_stored (by decide) 2).1

/-- The pages after them list the genesis block again; with a large page number the product of page
and size wraps around, and the page is the first one. -/
theorem later_pages_not_empty :
    pageNumbers .small Small.threeBlocks ⟨3, 2⟩ = [0] ∧
    pageNumbers .small Small.threeBlocks ⟨4, 2⟩ = [0] ∧
    pageNumbers .small Small.threeBlocks ⟨2 ^ 63 + 1, 2⟩ = [2, 1] := by
  decide +kernel

end Rustchain.Api

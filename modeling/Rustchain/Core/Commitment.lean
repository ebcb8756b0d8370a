import Rustchain.Core.Chain
import Rustchain.Lib.MerkleTree

/-! # What a header says of the body

A header has the Merkle root of the transaction hashes that are stored with the transactions. The
body of a valid block is not determined by it:

* nothing compares a stored hash with the transaction it is stored with, so a transaction can stand
  in for another one under its hash (`validateBasic_of_hashes`);
* a layer of odd length is padded with its last hash, so the last transaction can be repeated
  (`validateBasic_repeat_last`).

Without a collision of Blake3 these are the only ways. -/

namespace Rustchain.Core

open Lib.MerkleTree Lib.Checks

variable {P : Primitives}

/-! ### The tree of the source -/

def joinHashes (P : Primitives) (a b : Blake3Hash) : Blake3Hash :=
  hashMultiple P [a.asBytes, b.asBytes]

theorem hashPairs_eq_map : ∀ {l : List Blake3Hash}, l.length % 2 = 0 →
    hashPairs P l = up (joinHashes P) l
  | [], _ => by simp [hashPairs, up, pairs]
  | [_], h => absurd h (by simp)
  | a :: b :: rest, h => by
    have hrest : rest.length % 2 = 0 := by
      simp only [List.length_cons] at h
      omega
    rw [hashPairs, hashPairs_eq_map hrest]
    simp [up, pairs, joinHashes]

theorem hashPairs_padEven (l : List Blake3Hash) :
    hashPairs P (padEven l) = up (joinHashes P) l := by
  unfold padEven
  split_ifs with h
  · exact hashPairs_eq_map h
  · rcases List.eq_nil_or_concat' l with rfl | ⟨l, a, rfl⟩
    · exact absurd rfl h
    · have heven : l.length % 2 = 0 := by
        simp only [List.length_append, List.length_singleton] at h
        omega
      have hpad : l ++ [a] ++ (l ++ [a]).getLast?.toList = l ++ [a, a] := by simp
      rw [hpad, hashPairs_eq_map (by simpa using heven)]
      unfold up
      rw [pairs_concat_last heven]

theorem merkleLayers_eq_layers : ∀ (fuel : ℕ) (l : List Blake3Hash),
    merkleLayers P fuel l = layers (joinHashes P) fuel l
  | 0, _ => rfl
  | fuel + 1, l => by
    unfold merkleLayers layers
    rw [hashPairs_padEven, merkleLayers_eq_layers fuel]

theorem top_eq_root {l : List Blake3Hash} (h : l ≠ []) :
    top (joinHashes P) l.length l = [(MerkleTree.new P l).root] := by
  have hlen : (top (joinHashes P) l.length l).length = 1 := length_top h (Nat.le_succ l.length)
  obtain ⟨r, hr⟩ := List.length_eq_one_iff.mp hlen
  have hempty : l.isEmpty = false := by simpa using h
  have hnew : (MerkleTree.new P l).layers = l :: layers (joinHashes P) l.length l := by
    unfold MerkleTree.new
    rw [if_neg (by simp [hempty]), merkleLayers_eq_layers]
  unfold MerkleTree.root
  rw [hnew, getLast_layers, hr]
  rfl

theorem eq_of_root_eq {s : Set (Blake3Hash × Blake3Hash)} (hs : Injective (joinHashes P) s)
    {l l' : List Blake3Hash} (hlen : l.length = l'.length)
    (hl : ∀ p ∈ joined (joinHashes P) l.length l, p ∈ s)
    (hl' : ∀ p ∈ joined (joinHashes P) l'.length l', p ∈ s)
    (hroot : (MerkleTree.new P l).root = (MerkleTree.new P l').root) : l = l' := by
  by_cases hne : l = []
  · rw [hne] at hlen ⊢
    exact (List.length_eq_zero_iff.mp hlen.symm).symm
  · have hne' : l' ≠ [] := by
      rw [← List.length_pos_iff, ← hlen, List.length_pos_iff]
      exact hne
    have htop : top (joinHashes P) l.length l = top (joinHashes P) l.length l' := by
      rw [top_eq_root hne, hlen, top_eq_root hne', hroot]
    rw [← hlen] at hl'
    exact eq_of_top_eq_of_length hs hlen hl hl' htop

theorem root_concat_last {l : List Blake3Hash} {a : Blake3Hash} (hne : l ≠ [])
    (heven : l.length % 2 = 0) :
    (MerkleTree.new P (l ++ [a, a])).root = (MerkleTree.new P (l ++ [a])).root := by
  have htop : top (joinHashes P) (l.length + 1) (l ++ [a]) =
      top (joinHashes P) (l.length + 1 + 1) (l ++ [a, a]) :=
    top_concat_last hne heven le_rfl le_rfl
  have hroot := top_eq_root (P := P) (l := l ++ [a]) (by simp)
  have hroot' := top_eq_root (P := P) (l := l ++ [a, a]) (by simp)
  simp only [List.length_append, List.length_cons, List.length_nil] at hroot hroot'
  rw [htop, hroot'] at hroot
  exact (List.cons.inj hroot).1

/-! ### The body of a block -/

/-- What the hash of a signed transaction is taken of: the public key is not in it. -/
def SignedTransaction.hashInput (P : Primitives) (t : SignedTransaction) : Bytes :=
  P.serializeTransaction t.transaction ++ t.signature.bytes.toList

/-- The stored hash is the hash of the transaction, as `SignedTransaction::new` stores it. -/
def SignedTransaction.Sealed (P : Primitives) (t : SignedTransaction) : Prop :=
  t.txHash = P.blake3 (t.hashInput P)

instance (t : SignedTransaction) : Decidable (t.Sealed P) :=
  inferInstanceAs (Decidable (t.txHash = _))

namespace Block

section
variable (P : Primitives)

def leaves (b : Block) : List Blake3Hash := b.transactions.map fun t => P.blake3 t.hash.asBytes

/-- The pairs of hashes that the Merkle tree joins. -/
def joinedHashes (b : Block) : List (Blake3Hash × Blake3Hash) :=
  joined (joinHashes P) (b.leaves P).length (b.leaves P)

/-- Everything that Blake3 is applied to for the root. -/
def merkleInputs (b : Block) : List Bytes :=
  (b.transactions.map fun t => t.hash.asBytes) ++
    (b.joinedHashes P).map fun p => hashMultipleInput [p.1.asBytes, p.2.asBytes]

/-- Blake3 has no collision among the headers, in the Merkle trees and among the transactions of two
blocks. -/
structure CollisionFree (b₁ b₂ : Block) : Prop where
  headers : BlockHeader.CollisionFree P {b₁.header, b₂.header}
  merkle : ∀ x ∈ b₁.merkleInputs P ++ b₂.merkleInputs P,
    ∀ y ∈ b₁.merkleInputs P ++ b₂.merkleInputs P, P.blake3 x = P.blake3 y → x = y
  contents : ∀ t ∈ b₁.transactions ++ b₂.transactions, ∀ u ∈ b₁.transactions ++ b₂.transactions,
    P.blake3 (t.hashInput P) = P.blake3 (u.hashInput P) →
      t.transaction = u.transaction ∧ t.signature = u.signature

/-- At every place where the bodies differ, both have the hash of what is there, and the same public
key. -/
def SealedWhereDifferent (b₁ b₂ : Block) : Prop :=
  ∀ (i : ℕ) (t u : SignedTransaction), b₁.transactions[i]? = some t →
    b₂.transactions[i]? = some u → t ≠ u → t.Sealed P ∧ u.Sealed P ∧ t.publicKey = u.publicKey

end

variable {b b₁ b₂ : Block}

theorem computeTransactionsRoot_eq (h : b.transactions ≠ []) :
    b.computeTransactionsRoot P = (MerkleTree.new P (b.leaves P)).root := by
  unfold computeTransactionsRoot computeMerkleRoot leaves
  rw [if_neg (by simpa using h), List.map_map]
  rfl

theorem leaves_ne_nil (h : b.transactions ≠ []) : b.leaves P ≠ [] := by
  simpa [leaves] using h

theorem length_leaves (b : Block) : (b.leaves P).length = b.transactions.length :=
  List.length_map _

/-! ### Bodies under one header -/

theorem computeTransactionsRoot_of_hashes {h₁ h₂ : BlockHeader} {l₁ l₂ : List SignedTransaction}
    (h : l₁.map (·.txHash) = l₂.map (·.txHash)) :
    computeTransactionsRoot P ⟨h₁, l₁⟩ = computeTransactionsRoot P ⟨h₂, l₂⟩ := by
  have hbytes : l₁.map (fun t => t.hash.asBytes) = l₂.map (fun t => t.hash.asBytes) := by
    have hmap := congrArg (List.map Blake3Hash.asBytes) h
    rw [List.map_map, List.map_map] at hmap
    exact hmap
  have hempty : l₁.isEmpty = l₂.isEmpty := by
    have hlen := congrArg List.length h
    rw [List.length_map, List.length_map] at hlen
    cases l₁ <;> cases l₂ <;> simp at hlen ⊢
  unfold computeTransactionsRoot
  dsimp only
  rw [hempty, hbytes]

theorem validateBasic_of_hashes {l : List SignedTransaction} (hb : b.validateBasic P = .ok ())
    (hhash : l.map (·.txHash) = b.transactions.map (·.txHash))
    (hl : ∀ t ∈ l, t.verify P = .ok ()) : Block.validateBasic P ⟨b.header, l⟩ = .ok () := by
  obtain ⟨hheader, hmax, hroot, -⟩ := (validateBasic_ok P).mp hb
  have hlen := congrArg List.length hhash
  rw [List.length_map, List.length_map] at hlen
  refine (validateBasic_ok P).mpr ⟨hheader, ?_, ?_, hl⟩
  · exact hlen.le.trans hmax
  · exact (computeTransactionsRoot_of_hashes hhash).trans hroot

theorem validateBasic_replace {t u : SignedTransaction} {before after : List SignedTransaction}
    (hb : b.validateBasic P = .ok ()) (hbody : b.transactions = before ++ t :: after)
    (hu : u.verify P = .ok ()) :
    Block.validateBasic P ⟨b.header, before ++ { u with txHash := t.txHash } :: after⟩ =
      .ok () := by
  refine validateBasic_of_hashes hb (by simp [hbody]) fun v hv => ?_
  have hall := ((validateBasic_ok P).mp hb).2.2.2
  rw [hbody] at hall
  rcases List.mem_append.mp hv with hv | hv
  · exact hall v (List.mem_append_left _ hv)
  rcases List.mem_cons.mp hv with rfl | hv
  · exact hu
  · exact hall v (List.mem_append_right _ (List.mem_cons_of_mem _ hv))

/-- **The last of an odd number of transactions**, at least three, can be repeated. -/
theorem validateBasic_repeat_last {l : List SignedTransaction} {t : SignedTransaction}
    (hb : b.validateBasic P = .ok ()) (hbody : b.transactions = l ++ [t]) (hne : l ≠ [])
    (heven : l.length % 2 = 0) (hmax : l.length + 2 ≤ maxBlockTransactions) :
    Block.validateBasic P ⟨b.header, l ++ [t, t]⟩ = .ok () := by
  obtain ⟨hheader, -, hroot, hall⟩ := (validateBasic_ok P).mp hb
  rw [hbody] at hall
  refine (validateBasic_ok P).mpr ⟨hheader, by simpa using hmax, ?_, fun u hu => ?_⟩
  · have hlast := root_concat_last (P := P) (l := l.map fun t => P.blake3 t.hash.asBytes)
      (a := P.blake3 t.hash.asBytes) (by simpa using hne) (by simpa using heven)
    rw [← hroot, computeTransactionsRoot_eq (by simp), computeTransactionsRoot_eq (by simp [hbody])]
    unfold leaves
    rw [hbody, List.map_append, List.map_append]
    exact hlast
  · refine hall u ?_
    simp only [List.mem_append, List.mem_cons, List.not_mem_nil, or_false, or_self] at hu ⊢
    exact hu

/-! ### Bodies without collisions -/

theorem hashMultipleInput_pair_inj {a b c d : Blake3Hash}
    (h : hashMultipleInput [a.asBytes, b.asBytes] = hashMultipleInput [c.asBytes, d.asBytes]) :
    a = c ∧ b = d := by
  have hlen : ∀ x : Blake3Hash, x.asBytes.length < 2 ^ 64 := fun x => by simp [x.length_asBytes]
  obtain ⟨hac, hrest⟩ := framed_append_inj (hlen a) (hlen c) h
  obtain ⟨hbd, -⟩ := framed_append_inj (hlen b) (hlen d) hrest
  exact ⟨Blake3Hash.asBytes_injective hac, Blake3Hash.asBytes_injective hbd⟩

theorem length_hashMultipleInput_pair (a b : Blake3Hash) :
    (hashMultipleInput [a.asBytes, b.asBytes]).length = 80 := by
  simp [hashMultipleInput, length_leBytes, Blake3Hash.length_asBytes]

def joinedIn (P : Primitives) (b₁ b₂ : Block) : Set (Blake3Hash × Blake3Hash) :=
  {p | p ∈ b₁.joinedHashes P ∨ p ∈ b₂.joinedHashes P}

theorem mem_inputs_of_joinedIn {p : Blake3Hash × Blake3Hash} (hp : p ∈ joinedIn P b₁ b₂) :
    hashMultipleInput [p.1.asBytes, p.2.asBytes] ∈ b₁.merkleInputs P ++ b₂.merkleInputs P := by
  rcases hp with hp | hp
  · exact List.mem_append_left _ (List.mem_append_right _ (List.mem_map_of_mem hp))
  · exact List.mem_append_right _ (List.mem_append_right _ (List.mem_map_of_mem hp))

theorem mem_inputs_of_mem {t : SignedTransaction} (ht : t ∈ b₁.transactions ++ b₂.transactions) :
    t.hash.asBytes ∈ b₁.merkleInputs P ++ b₂.merkleInputs P := by
  rcases List.mem_append.mp ht with ht | ht
  · exact List.mem_append_left _ (List.mem_append_left _ (List.mem_map.mpr ⟨t, ht, rfl⟩))
  · exact List.mem_append_right _ (List.mem_append_left _ (List.mem_map.mpr ⟨t, ht, rfl⟩))

theorem top_leaves_eq (hroot : b₁.computeTransactionsRoot P = b₂.computeTransactionsRoot P)
    (hne₁ : b₁.transactions ≠ []) (hne₂ : b₂.transactions ≠ []) :
    top (joinHashes P) (b₁.leaves P).length (b₁.leaves P) =
      top (joinHashes P) (b₂.leaves P).length (b₂.leaves P) := by
  rw [top_eq_root (leaves_ne_nil hne₁), top_eq_root (leaves_ne_nil hne₂),
    ← computeTransactionsRoot_eq hne₁, ← computeTransactionsRoot_eq hne₂, hroot]

section
variable (hcf : CollisionFree P b₁ b₂)
include hcf

theorem CollisionFree.joinHashes_injective : Injective (joinHashes P) (joinedIn P b₁ b₂) := by
  intro p hp q hq h
  have hinput := hcf.merkle _ (mem_inputs_of_joinedIn hp) _ (mem_inputs_of_joinedIn hq) h
  obtain ⟨h1, h2⟩ := hashMultipleInput_pair_inj hinput
  exact Prod.ext h1 h2

theorem CollisionFree.joinHashes_ne_leaf {p : Blake3Hash × Blake3Hash} (hp : p ∈ joinedIn P b₁ b₂)
    {t : SignedTransaction} (ht : t ∈ b₁.transactions ++ b₂.transactions) :
    joinHashes P p.1 p.2 ≠ P.blake3 t.hash.asBytes := by
  intro h
  have hinput := hcf.merkle _ (mem_inputs_of_joinedIn hp) _ (mem_inputs_of_mem ht) h
  have hlen := congrArg List.length hinput
  rw [length_hashMultipleInput_pair, Blake3Hash.length_asBytes] at hlen
  omega

theorem CollisionFree.txHash_eq {t u : SignedTransaction}
    (ht : t ∈ b₁.transactions ++ b₂.transactions) (hu : u ∈ b₁.transactions ++ b₂.transactions)
    (h : P.blake3 t.hash.asBytes = P.blake3 u.hash.asBytes) : t.txHash = u.txHash :=
  Blake3Hash.asBytes_injective
    (hcf.merkle _ (mem_inputs_of_mem ht) _ (mem_inputs_of_mem hu) h)

theorem CollisionFree.txHash_eq_of_leaves (h : b₁.leaves P = b₂.leaves P) {i : ℕ}
    {t u : SignedTransaction} (ht : b₁.transactions[i]? = some t)
    (hu : b₂.transactions[i]? = some u) : t.txHash = u.txHash := by
  refine hcf.txHash_eq (List.mem_append_left _ (List.mem_of_getElem? ht))
    (List.mem_append_right _ (List.mem_of_getElem? hu)) ?_
  have hi := congrArg (fun l : List Blake3Hash => l[i]?) h
  simp only [leaves, List.getElem?_map, ht, hu, Option.map_some] at hi
  exact Option.some.inj hi

theorem CollisionFree.contents_eq {t u : SignedTransaction}
    (ht : t ∈ b₁.transactions ++ b₂.transactions) (hu : u ∈ b₁.transactions ++ b₂.transactions)
    (hst : t.Sealed P) (hsu : u.Sealed P) (h : t.txHash = u.txHash) :
    t.transaction = u.transaction ∧ t.signature = u.signature :=
  hcf.contents t ht u hu (hst.symm.trans (h.trans hsu))

theorem CollisionFree.transactions_eq_of_leaves (h : b₁.leaves P = b₂.leaves P)
    (hsealed : SealedWhereDifferent P b₁ b₂) : b₁.transactions = b₂.transactions := by
  have hlen : b₁.transactions.length = b₂.transactions.length := by
    rw [← length_leaves (P := P), ← length_leaves (P := P), h]
  refine List.ext_getElem hlen fun i h₁ h₂ => ?_
  have ht := List.getElem?_eq_getElem h₁
  have hu := List.getElem?_eq_getElem h₂
  generalize b₁.transactions[i] = t at ht ⊢
  generalize b₂.transactions[i] = u at hu ⊢
  by_contra hne
  obtain ⟨hst, hsu, hkey⟩ := hsealed i t u ht hu hne
  have hhash := hcf.txHash_eq_of_leaves h ht hu
  obtain ⟨htx, hsig⟩ := hcf.contents_eq (List.mem_append_left _ (List.mem_of_getElem? ht))
    (List.mem_append_right _ (List.mem_of_getElem? hu)) hst hsu hhash
  refine hne ?_
  cases t
  cases u
  simp_all

theorem CollisionFree.root_eq (h₁ : b₁.validateBasic P = .ok ()) (h₂ : b₂.validateBasic P = .ok ())
    (hhash : b₁.hash P = b₂.hash P) :
    b₁.computeTransactionsRoot P = b₂.computeTransactionsRoot P := by
  have hun := hcf.headers b₁.header (.inl rfl) b₂.header (.inr rfl) hhash
  have hroot := congrArg BlockHeader.transactionsRoot hun
  change b₁.header.transactionsRoot = b₂.header.transactionsRoot at hroot
  rw [((validateBasic_ok P).mp h₁).2.2.1, ((validateBasic_ok P).mp h₂).2.2.1, hroot]

theorem CollisionFree.leaves_eq_of_length
    (hroot : b₁.computeTransactionsRoot P = b₂.computeTransactionsRoot P)
    (hlen : b₁.transactions.length = b₂.transactions.length) : b₁.leaves P = b₂.leaves P := by
  by_cases hne₁ : b₁.transactions = []
  · have hne₂ : b₂.transactions = [] := by
      rw [← List.length_eq_zero_iff, ← hlen, hne₁]
      rfl
    unfold leaves
    rw [hne₁, hne₂]
  · have hne₂ : b₂.transactions ≠ [] := by
      rw [← List.length_pos_iff, ← hlen, List.length_pos_iff]
      exact hne₁
    rw [computeTransactionsRoot_eq hne₁, computeTransactionsRoot_eq hne₂] at hroot
    have hlen' : (b₁.leaves P).length = (b₂.leaves P).length := by
      rw [length_leaves, length_leaves, hlen]
    exact eq_of_root_eq hcf.joinHashes_injective hlen' (fun p hp => .inl hp)
      (fun p hp => .inr hp) hroot

theorem CollisionFree.leaves_eq_of_nodup
    (hroot : b₁.computeTransactionsRoot P = b₂.computeTransactionsRoot P)
    (hne₁ : b₁.transactions ≠ []) (hne₂ : b₂.transactions ≠ [])
    (hn₁ : (b₁.transactions.map (·.txHash)).Nodup) (hn₂ : (b₂.transactions.map (·.txHash)).Nodup) :
    b₁.leaves P = b₂.leaves P := by
  have hnodup : ∀ {b : Block}, (∀ t ∈ b.transactions, t ∈ b₁.transactions ++ b₂.transactions) →
      (b.transactions.map (·.txHash)).Nodup → (b.leaves P).Nodup := by
    intro b hsub hn
    refine List.Nodup.map_on (fun t ht u hu h => ?_) (List.Nodup.of_map _ hn)
    exact List.inj_on_of_nodup_map hn ht hu (hcf.txHash_eq (hsub t ht) (hsub u hu) h)
  have hsub₁ : ∀ t ∈ b₁.transactions, t ∈ b₁.transactions ++ b₂.transactions := fun t ht =>
    List.mem_append_left _ ht
  have hsub₂ : ∀ t ∈ b₂.transactions, t ∈ b₁.transactions ++ b₂.transactions := fun t ht =>
    List.mem_append_right _ ht
  -- a leaf is the hash of a stored hash of one of the two bodies
  refine eq_of_top_eq_of_nodup hcf.joinHashes_injective
    (L := fun h => ∃ t ∈ b₁.transactions ++ b₂.transactions, P.blake3 t.hash.asBytes = h)
    ?_ (leaves_ne_nil hne₁) (leaves_ne_nil hne₂) ?_ ?_ (hnodup hsub₁ hn₁) (hnodup hsub₂ hn₂)
    (fun p hp => .inl hp) (fun p hp => .inr hp) (top_leaves_eq hroot hne₁ hne₂)
  · rintro p hp ⟨t, ht, h⟩
    exact hcf.joinHashes_ne_leaf hp ht h.symm
  · intro h hh
    obtain ⟨t, ht, rfl⟩ := List.mem_map.mp hh
    exact ⟨t, hsub₁ t ht, rfl⟩
  · intro h hh
    obtain ⟨t, ht, rfl⟩ := List.mem_map.mp hh
    exact ⟨t, hsub₂ t ht, rfl⟩

end

/-- Bodies as honest nodes make them: every transaction is stored with its hash and there is no
hash twice in a body. Of Blake3, no hash of the tree is zero and no address is the one of two keys.
-/
structure Proper (P : Primitives) (b₁ b₂ : Block) : Prop where
  contents : ∀ t ∈ b₁.transactions ++ b₂.transactions, t.Sealed P
  nodup₁ : (b₁.transactions.map (·.txHash)).Nodup
  nodup₂ : (b₂.transactions.map (·.txHash)).Nodup
  nonzero : ∀ x ∈ b₁.merkleInputs P ++ b₂.merkleInputs P, P.blake3 x ≠ .zero
  keys : ∀ t ∈ b₁.transactions ++ b₂.transactions, ∀ u ∈ b₁.transactions ++ b₂.transactions,
    t.publicKey.toAddress P = u.publicKey.toAddress P → t.publicKey = u.publicKey

theorem computeTransactionsRoot_mem (hne : b.transactions ≠ []) :
    ∃ x ∈ b.merkleInputs P, P.blake3 x = b.computeTransactionsRoot P := by
  have hroot : b.computeTransactionsRoot P ∈
      top (joinHashes P) (b.leaves P).length (b.leaves P) := by
    rw [top_eq_root (leaves_ne_nil hne), computeTransactionsRoot_eq hne]
    exact List.mem_singleton_self _
  rcases mem_top hroot with h | ⟨p, hp, h⟩
  · obtain ⟨t, ht, h⟩ := List.mem_map.mp h
    exact ⟨_, List.mem_append_left _ (List.mem_map.mpr ⟨t, ht, rfl⟩), h⟩
  · exact ⟨_, List.mem_append_right _ (List.mem_map_of_mem hp), h⟩

theorem Proper.nil_iff (hp : Proper P b₁ b₂)
    (hroot : b₁.computeTransactionsRoot P = b₂.computeTransactionsRoot P) :
    b₁.transactions = [] ↔ b₂.transactions = [] := by
  have hzero : ∀ {b : Block}, b.transactions = [] → b.computeTransactionsRoot P = .zero := by
    intro b hb
    unfold computeTransactionsRoot
    rw [hb]
    rfl
  constructor
  · intro h
    by_contra hne
    obtain ⟨x, hx, hx0⟩ := computeTransactionsRoot_mem (P := P) hne
    exact hp.nonzero x (List.mem_append_right _ hx) (by rw [hx0, ← hroot, hzero h])
  · intro h
    by_contra hne
    obtain ⟨x, hx, hx0⟩ := computeTransactionsRoot_mem (P := P) hne
    exact hp.nonzero x (List.mem_append_left _ hx) (by rw [hx0, hroot, hzero h])

theorem Proper.transactions_eq (hp : Proper P b₁ b₂) (hcf : CollisionFree P b₁ b₂)
    (h₁ : b₁.validateBasic P = .ok ()) (h₂ : b₂.validateBasic P = .ok ())
    (hroot : b₁.computeTransactionsRoot P = b₂.computeTransactionsRoot P) :
    b₁.transactions = b₂.transactions := by
  by_cases hne₁ : b₁.transactions = []
  · rw [hne₁, (hp.nil_iff hroot).mp hne₁]
  · have hne₂ : b₂.transactions ≠ [] := fun h => hne₁ ((hp.nil_iff hroot).mpr h)
    have hleaves := hcf.leaves_eq_of_nodup hroot hne₁ hne₂ hp.nodup₁ hp.nodup₂
    refine hcf.transactions_eq_of_leaves hleaves fun i t u ht hu _ => ?_
    have hmt := List.mem_of_getElem? ht
    have hmu := List.mem_of_getElem? hu
    have ht' := List.mem_append_left b₂.transactions hmt
    have hu' := List.mem_append_right b₁.transactions hmu
    have hst := hp.contents t ht'
    have hsu := hp.contents u hu'
    refine ⟨hst, hsu, hp.keys t ht' u hu' ?_⟩
    -- the sender is in the content, and the keys verify for the sender
    have hcontent := hcf.contents_eq ht' hu' hst hsu (hcf.txHash_eq_of_leaves hleaves ht hu)
    have hvt := (SignedTransaction.verify_ok P (((validateBasic_ok P).mp h₁).2.2.2 t hmt)).2.2
    have hvu := (SignedTransaction.verify_ok P (((validateBasic_ok P).mp h₂).2.2.2 u hmu)).2.2
    rw [hvt, hvu, hcontent.1]

/-- **The header and the body**: two valid blocks with one header hash, without a collision, have
equal bodies exactly if the bodies are of one length and have the right hashes stored wherever they
differ. Proper bodies are equal. -/
theorem header_commits_iff (P : Primitives) {b₁ b₂ : Block} (h₁ : b₁.validateBasic P = .ok ())
    (h₂ : b₂.validateBasic P = .ok ()) (hcf : CollisionFree P b₁ b₂)
    (hhash : b₁.hash P = b₂.hash P) :
    (b₁.transactions = b₂.transactions ↔
      b₁.transactions.length = b₂.transactions.length ∧ SealedWhereDifferent P b₁ b₂) ∧
    (Proper P b₁ b₂ → b₁.transactions = b₂.transactions) := by
  have hroot := hcf.root_eq h₁ h₂ hhash
  refine ⟨⟨fun h => ?_, fun h => ?_⟩, fun hp => hp.transactions_eq hcf h₁ h₂ hroot⟩
  · refine ⟨congrArg List.length h, fun i t u ht hu hne => ?_⟩
    rw [h, hu] at ht
    exact absurd (Option.some.inj ht).symm hne
  · exact hcf.transactions_eq_of_leaves (hcf.leaves_eq_of_length hroot h.1) h.2

end Block

/-! ### Two bodies under one header -/

namespace Small

def payment (value : ℕ) : SignedTransaction :=
  .new .small ⟨1, 0, (KeyPair.small 1).address .small, some ((KeyPair.small 2).address .small),
    value, .transfer, 21000, 1, [], 0⟩ (KeyPair.small 1)

def onePayment : Block :=
  let first := Block.genesis 1 0 ((KeyPair.small 1).address .small)
    ((KeyPair.small 1).publicKey .small) 100 []
  { header := { first.header with
      transactionsRoot := Block.computeTransactionsRoot .small ⟨first.header, [payment 1]⟩ }
    transactions := [payment 1] }

def signedPayment : Block :=
  { onePayment with header := onePayment.header.sign .small (KeyPair.small 1) }

def replacedPayment : Block :=
  { onePayment with transactions := [{ payment 2 with txHash := (payment 1).txHash }] }

def threePayments : Block :=
  let body := [payment 1, payment 2] ++ [payment 3]
  { header := { onePayment.header with
      transactionsRoot := Block.computeTransactionsRoot .small ⟨onePayment.header, body⟩ }
    transactions := body }

theorem onePayment_valid : onePayment.validateBasic .small = .ok () := by decide +kernel

end Small

namespace Block

/-- A block and the same block with a signature have one header hash, and the same body. -/
theorem signed_body_committed : Small.onePayment.hash .small = Small.signedPayment.hash .small ∧
    Small.onePayment.transactions = Small.signedPayment.transactions :=
  ⟨rfl, (header_commits_iff .small Small.onePayment_valid Small.onePayment_valid
    ⟨BlockHeader.collisionFree_of_unsigned _ rfl, by decide +kernel, by decide +kernel⟩ rfl).2
    ⟨by decide +kernel, List.nodup_singleton _, List.nodup_singleton _, by decide +kernel,
      by decide +kernel⟩⟩

/-- Another body under the header of one payment, which pays something else. -/
theorem other_body_under_header :
    Small.onePayment.validateBasic .small = .ok () ∧
    Small.replacedPayment.validateBasic .small = .ok () ∧
    CollisionFree .small Small.onePayment Small.replacedPayment ∧
    Small.onePayment.hash .small = Small.replacedPayment.hash .small ∧
    Small.onePayment.transactions.map (·.transaction.value) = [1] ∧
    Small.replacedPayment.transactions.map (·.transaction.value) = [2] := by
  refine ⟨Small.onePayment_valid, ?_, ⟨BlockHeader.collisionFree_of_unsigned _ rfl,
    by decide +kernel, by decide +kernel⟩, rfl, rfl, rfl⟩
  have hbody : Small.onePayment.transactions = [] ++ Small.payment 1 :: [] := rfl
  have hverify : (Small.payment 2).verify .small = .ok () := by decide +kernel
  have hvalid := validateBasic_replace Small.onePayment_valid hbody hverify
  exact hvalid

/-- The third of three payments stands once more under the header of the three. -/
theorem third_payment_repeated : validateBasic .small Small.threePayments = .ok () ∧
    validateBasic .small ⟨Small.threePayments.header, [Small.payment 1, Small.payment 2] ++
      [Small.payment 3, Small.payment 3]⟩ = .ok () := by
  have hvalid : validateBasic .small Small.threePayments = .ok () := by decide +kernel
  exact ⟨hvalid, validateBasic_repeat_last hvalid rfl (by simp) rfl (by decide)⟩

end Block

end Rustchain.Core

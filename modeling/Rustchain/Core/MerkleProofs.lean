import Rustchain.Core.Commitment

/-! # Merkle proofs

`MerkleTree::proof` and `MerkleTree::verify_proof`. The layers are stored as they were before their
padding, and the proof is built with an index that is cut to the layer. Every proof that is built
verifies (`proof_complete`).

The other way round a proof says less: it has no length to agree with, so that a hash inside of the
tree passes for a leaf, and the root of the empty tree passes for a leaf of it. A verified proof is
about a leaf exactly if neither is the case (`proof_sound_iff`).

Among the lists of one length the root belongs to one only (`root_binds`). -/

namespace Rustchain.Core

open Lib.MerkleTree

inductive Position where
  | left
  | right
  deriving DecidableEq, Repr

structure MerkleProof where
  leaf : Blake3Hash
  siblings : List (Blake3Hash × Position)
  deriving DecidableEq

namespace MerkleTree

/-- The loop of `proof` over the layers below the last one; `none` is an index out of bounds. -/
def siblingsFrom : ℕ → List (List Blake3Hash) → Option (List (Blake3Hash × Position))
  | _, [] => some []
  | idx, layer :: rest => do
    let siblingIdx := if idx % 2 = 0 then idx + 1 else idx - 1
    -- on an empty layer `layer.len() - 1` or the access after it fails
    let siblingIdx := min siblingIdx (layer.length - 1)
    let position := if idx % 2 = 0 then Position.right else Position.left
    let sibling ← layer[siblingIdx]?
    let siblings ← siblingsFrom (idx / 2) rest
    return (sibling, position) :: siblings

/-- **`MerkleTree::proof`**; the outer `none` is an index out of bounds. -/
def proof (t : MerkleTree) (index : ℕ) : Option (Option MerkleProof) :=
  if t.leaves.length ≤ index then some none
  else do
    let below ← if t.layers.length = 0 then none else some t.layers.dropLast
    let siblings ← siblingsFrom index below
    let leaf ← t.leaves[index]?
    return some ⟨leaf, siblings⟩

section
variable (P : Primitives)

/-- **`MerkleTree::verify_proof`.** -/
def verifyProof (root : Blake3Hash) (proof : MerkleProof) : Bool :=
  let current := proof.siblings.foldl (fun current step =>
    match step.2 with
    | .left => hashMultiple P [step.1.asBytes, current.asBytes]
    | .right => hashMultiple P [current.asBytes, step.1.asBytes]) proof.leaf
  decide (current = root)

end

/-! ### The way up -/

/-- The two hashes that are joined in a step of `verify_proof`. -/
def placed (current : Blake3Hash) (step : Blake3Hash × Position) : Blake3Hash × Blake3Hash :=
  match step.2 with
  | .left => (step.1, current)
  | .right => (current, step.1)

theorem placed_eq (current : Blake3Hash) (step : Blake3Hash × Position) :
    (placed current step).1 = current ∨ (placed current step).2 = current := by
  unfold placed
  cases step.2 with
  | left => exact .inr rfl
  | right => exact .inl rfl

variable {P : Primitives}

theorem verifyProof_iff {root : Blake3Hash} {p : MerkleProof} : verifyProof P root p = true ↔
    climb (joinHashes P) placed p.leaf p.siblings = root := by
  have hstep : (fun (current : Blake3Hash) (step : Blake3Hash × Position) =>
      match step.2 with
      | .left => hashMultiple P [step.1.asBytes, current.asBytes]
      | .right => hashMultiple P [current.asBytes, step.1.asBytes]) =
      fun current step => joinHashes P (placed current step).1 (placed current step).2 := by
    funext current step
    unfold placed
    cases step.2 with
    | left => rfl
    | right => rfl
  unfold verifyProof climb
  rw [hstep]
  exact decide_eq_true_iff

/-! ### Completeness -/

theorem siblingsFrom_layers : ∀ {fuel idx : ℕ} {l : List Blake3Hash} {a : Blake3Hash},
    l.length ≤ fuel + 1 → l[idx]? = some a →
      ∃ siblings, siblingsFrom idx (l :: Lib.MerkleTree.layers (joinHashes P) fuel l).dropLast =
          some siblings ∧
        top (joinHashes P) fuel l = [climb (joinHashes P) placed a siblings]
  | fuel, idx, l, a, hlen, ha => by
    obtain ⟨hidx, -⟩ := List.getElem?_eq_some_iff.mp ha
    by_cases h1 : l.length ≤ 1
    · -- a layer of one hash is the last one
      obtain ⟨b, rfl⟩ := List.length_eq_one_iff.mp (show l.length = 1 by omega)
      obtain rfl : idx = 0 := by simpa using hidx
      obtain rfl : b = a := by simpa using ha
      cases fuel with
      | zero => exact ⟨[], rfl, rfl⟩
      | succ fuel => exact ⟨[], by simp [Lib.MerkleTree.layers, siblingsFrom], by simp [top, climb]⟩
    · obtain ⟨fuel, rfl⟩ : ∃ n, fuel = n + 1 := ⟨fuel - 1, by omega⟩
      have hup : (up (joinHashes P) l).length ≤ fuel + 1 := by
        rw [length_up]
        omega
      have hlayers : (l :: Lib.MerkleTree.layers (joinHashes P) (fuel + 1) l).dropLast =
          l :: (up (joinHashes P) l ::
            Lib.MerkleTree.layers (joinHashes P) fuel (up (joinHashes P) l)).dropLast := by
        rw [Lib.MerkleTree.layers, if_neg h1, List.dropLast_cons_cons]
      rw [hlayers, top, if_neg h1]
      -- the neighbour at the cut index is the other half of the pair
      by_cases heven : idx % 2 = 0
      · obtain ⟨b, hb, hp⟩ := getElem?_pairs_even ha heven
        have hnode : (up (joinHashes P) l)[idx / 2]? = some (joinHashes P a b) := by
          rw [up, List.getElem?_map, hp]
          rfl
        obtain ⟨siblings, hs, htop⟩ := siblingsFrom_layers hup hnode
        refine ⟨(b, .right) :: siblings, ?_, htop⟩
        rw [siblingsFrom, if_pos heven, if_pos heven, hb, hs]
        rfl
      · obtain ⟨b, hb, hp⟩ := getElem?_pairs_odd ha (by omega)
        have hnode : (up (joinHashes P) l)[idx / 2]? = some (joinHashes P b a) := by
          rw [up, List.getElem?_map, hp]
          rfl
        obtain ⟨siblings, hs, htop⟩ := siblingsFrom_layers hup hnode
        refine ⟨(b, .left) :: siblings, ?_, htop⟩
        rw [siblingsFrom, if_neg heven, if_neg heven, hb, hs]
        rfl

/-- **Merkle proofs are complete.** Over every list of leaves and for every index, `proof` accesses
no layer out of bounds; it returns no proof exactly for an index that is out of range, and otherwise
a proof for the leaf there, which verifies against the root. -/
theorem proof_complete (P : Primitives) (leaves : List Blake3Hash) (index : ℕ) :
    ∃ r, (MerkleTree.new P leaves).proof index = some r ∧
      (r = none ↔ leaves.length ≤ index) ∧
      ∀ p, r = some p → leaves[index]? = some p.leaf ∧
        verifyProof P (MerkleTree.new P leaves).root p = true := by
  have hleaves : (MerkleTree.new P leaves).leaves = leaves := by
    unfold MerkleTree.new
    split_ifs with hempty
    · exact (List.isEmpty_iff.mp hempty).symm
    · rfl
  unfold proof
  rw [hleaves]
  by_cases hout : leaves.length ≤ index
  · rw [if_pos hout]
    exact ⟨none, rfl, iff_of_true rfl hout, nofun⟩
  · have hne : leaves ≠ [] := by
      rintro rfl
      exact hout (Nat.zero_le index)
    obtain ⟨leaf, hleaf⟩ : ∃ leaf, leaves[index]? = some leaf :=
      ⟨_, List.getElem?_eq_getElem (Nat.lt_of_not_le hout)⟩
    have hlayers : (MerkleTree.new P leaves).layers =
        leaves :: Lib.MerkleTree.layers (joinHashes P) leaves.length leaves := by
      unfold MerkleTree.new
      rw [if_neg (by simpa using hne), merkleLayers_eq_layers]
    obtain ⟨siblings, hs, htop⟩ := siblingsFrom_layers (P := P) (Nat.le_succ leaves.length) hleaf
    rw [top_eq_root hne] at htop
    rw [if_neg hout, hlayers, if_neg (by simp), hleaf]
    refine ⟨some ⟨leaf, siblings⟩, ?_, iff_of_false nofun hout, ?_⟩
    · show (siblingsFrom index _).bind _ = _
      rw [hs]
      rfl
    · rintro p ⟨⟩
      exact ⟨rfl, verifyProof_iff.mpr (List.cons.inj htop).1.symm⟩

/-! ### Soundness -/

section
variable (P : Primitives)

/-- The pairs of hashes that are joined in the tree over some leaves. -/
def treePairs (leaves : List Blake3Hash) : List (Blake3Hash × Blake3Hash) :=
  joined (joinHashes P) leaves.length leaves

/-- The pairs of hashes that are joined in the verification of a proof. -/
def proofPairs (p : MerkleProof) : List (Blake3Hash × Blake3Hash) :=
  climbed (joinHashes P) placed p.leaf p.siblings

/-- What is assumed of `hash_multiple`, on the pairs that it is applied to: it has no collision, and
no leaf is an output of it. -/
structure HashesApart (leaves : List Blake3Hash) (p : MerkleProof) : Prop where
  collisionFree : ∀ q ∈ treePairs P leaves ++ proofPairs P p,
    ∀ q' ∈ treePairs P leaves ++ proofPairs P p, joinHashes P q.1 q.2 = joinHashes P q'.1 q'.2 →
      q = q'
  leaves : ∀ q ∈ treePairs P leaves ++ proofPairs P p, joinHashes P q.1 q.2 ∉ leaves

end

/-- **Merkle proofs are sound for leaves.** A proof that verifies is about one of the leaves exactly
if there is a leaf and what the proof is about is not a hash inside of the tree. -/
theorem proof_sound_iff (P : Primitives) {leaves : List Blake3Hash} {p : MerkleProof}
    (h : HashesApart P leaves p)
    (hv : verifyProof P (MerkleTree.new P leaves).root p = true) :
    p.leaf ∈ leaves ↔
      leaves ≠ [] ∧ ∀ q ∈ treePairs P leaves, joinHashes P q.1 q.2 ≠ p.leaf := by
  constructor
  · intro hmem
    refine ⟨List.ne_nil_of_mem hmem, fun q hq he => ?_⟩
    exact h.leaves q (List.mem_append_left _ hq) (he ▸ hmem)
  · rintro ⟨hne, hinner⟩
    have hs : Injective (joinHashes P) {q | q ∈ treePairs P leaves ++ proofPairs P p} :=
      fun q hq q' hq' he => h.collisionFree q hq q' hq' he
    have harrives : climb (joinHashes P) placed p.leaf p.siblings ∈
        top (joinHashes P) leaves.length leaves := by
      rw [verifyProof_iff.mp hv, top_eq_root hne]
      exact List.mem_singleton_self _
    refine (mem_or_joined_of_climb hs h.leaves placed_eq
      (fun q hq => List.mem_append_left _ hq) (fun q hq => List.mem_append_right _ hq)
      harrives).resolve_right ?_
    rintro ⟨q, hq, he⟩
    exact hinner q hq he

/-! ### Binding -/

/-- What is assumed of `hash_multiple`: no collision on the pairs that are joined over two lists of
leaves. -/
def JoinsApart (P : Primitives) (l l' : List Blake3Hash) : Prop :=
  ∀ q ∈ treePairs P l ++ treePairs P l', ∀ q' ∈ treePairs P l ++ treePairs P l',
    joinHashes P q.1 q.2 = joinHashes P q'.1 q'.2 → q = q'

theorem JoinsApart.eq_of_root_eq {P : Primitives} {l l' : List Blake3Hash} (h : JoinsApart P l l')
    (hlen : l.length = l'.length)
    (hroot : (MerkleTree.new P l).root = (MerkleTree.new P l').root) : l = l' := by
  have hs : Injective (joinHashes P) {q | q ∈ treePairs P l ++ treePairs P l'} :=
    fun q hq q' hq' he => h q hq q' hq' he
  exact Core.eq_of_root_eq hs hlen (fun q hq => List.mem_append_left _ hq)
    (fun q hq => List.mem_append_right _ hq) hroot

/-- **The root binds lists of one length**: equal roots are roots of equal lists, and another hash
in the place of one leaf gives another root. -/
theorem root_binds (P : Primitives) :
    (∀ l l' : List Blake3Hash, JoinsApart P l l' → l.length = l'.length →
      (MerkleTree.new P l).root = (MerkleTree.new P l').root → l = l') ∧
    ∀ (l : List Blake3Hash) (i : ℕ) (h : i < l.length) (leaf : Blake3Hash), leaf ≠ l[i] →
      JoinsApart P l (l.set i leaf) →
      (MerkleTree.new P (l.set i leaf)).root ≠ (MerkleTree.new P l).root := by
  refine ⟨fun l l' h hlen hroot => h.eq_of_root_eq hlen hroot, ?_⟩
  intro l i hi leaf hne h hroot
  have hsame := h.eq_of_root_eq List.length_set.symm hroot.symm
  have hat : (l.set i leaf)[i]? = some leaf := List.getElem?_set_self hi
  rw [← hsame, List.getElem?_eq_getElem hi] at hat
  exact hne (Option.some.inj hat).symm

end MerkleTree

namespace Small

def leaves : List Blake3Hash := [hash [1], hash [2], hash [3]]

def lastProof : MerkleProof :=
  ⟨hash [3], [(hash [3], .right),
    (hashMultiple .small [(hash [1]).asBytes, (hash [2]).asBytes], .left)]⟩

def rootProof : MerkleProof := ⟨(MerkleTree.new .small leaves).root, []⟩

end Small

namespace MerkleTree

theorem proof_sound_last :
    (MerkleTree.new .small Small.leaves).proof 2 = some (some Small.lastProof) ∧
      Small.lastProof.leaf ∈ Small.leaves := by
  refine ⟨by decide +kernel, ?_⟩
  have happart : HashesApart .small Small.leaves Small.lastProof := by
    constructor <;> decide +kernel
  exact (proof_sound_iff .small happart (by decide +kernel)).mpr
    ⟨by decide +kernel, by decide +kernel⟩

/-- **A hash inside of the tree, the root for instance, passes for a leaf**, and so does the root of
the empty tree. -/
theorem not_sound_root_and_empty :
    (HashesApart .small Small.leaves Small.rootProof ∧
      verifyProof .small (MerkleTree.new .small Small.leaves).root Small.rootProof = true ∧
      Small.rootProof.leaf ∉ Small.leaves) ∧
    HashesApart .small [] ⟨.zero, []⟩ ∧
      verifyProof .small (MerkleTree.new .small []).root ⟨.zero, []⟩ = true ∧
      Blake3Hash.zero ∉ ([] : List Blake3Hash) := by
  refine ⟨⟨⟨?_, ?_⟩, ?_, ?_⟩, ⟨?_, ?_⟩, ?_, ?_⟩ <;> decide +kernel

/-- Another last leaf changes the root of the tree over three leaves, where it is joined twice. -/
theorem root_binds_three : Small.leaves.set 2 (Small.hash [4]) ≠ Small.leaves ∧
    (MerkleTree.new .small (Small.leaves.set 2 (Small.hash [4]))).root ≠
      (MerkleTree.new .small Small.leaves).root := by
  have happart : JoinsApart .small Small.leaves (Small.leaves.set 2 (Small.hash [4])) := by
    unfold JoinsApart
    decide +kernel
  refine ⟨by decide +kernel, ?_⟩
  exact (root_binds .small).2 Small.leaves 2 (by decide) (Small.hash [4]) (by decide +kernel)
    happart

end MerkleTree

end Rustchain.Core

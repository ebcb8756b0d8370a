import Rustchain.Consensus.Proposers
import Rustchain.Lib.Lottery

/-! # The odds of the proposer lottery

`select_proposer` draws a number below the total stake and walks over the validators. Each of them
has exactly as many of the numbers as it has stake, and the walk always ends at a validator, so that
the fallback after the loop is never taken (`lottery_exact`). -/

namespace Rustchain.Consensus

open Rustchain.Core Lib.Machine Lib.Lottery

namespace ProposerSelection

/-- The loop of `select_proposer`; `none` if it ends without a return. -/
def loop (target : ℕ) : ℕ → List ValidatorInfo → Flagged (Option Address)
  | _, [] => pure none
  | cumulative, v :: rest => do
    let cumulative ← addU 128 cumulative v.stake
    if target < cumulative then return some v.address
    loop target cumulative rest

theorem walk_of_loop {target : ℕ} {a : Address} : ∀ {vs : List ValidatorInfo} {last : Address}
    {c : ℕ}, (loop target c vs).val = some a → (walk target last c vs).val = a
  | [], _, _, h => by cases h
  | v :: rest, last, c, h => by
    unfold loop at h
    unfold walk
    rw [val_bind] at h ⊢
    split_ifs at h ⊢
    · exact Option.some.inj h
    · exact walk_of_loop h

theorem loop_eq_draw (target : ℕ) : ∀ {vs : List ValidatorInfo} {c : ℕ},
    c + (vs.map (·.stake)).sum < 2 ^ 128 →
      loop target c vs = ⟨(draw (·.stake) target c vs).map (·.address), false⟩
  | [], _, _ => rfl
  | v :: rest, c, h => by
    rw [List.map_cons, List.sum_cons] at h
    have hadd : addU 128 c v.stake = ⟨c + v.stake, false⟩ := by
      unfold addU
      rw [Nat.mod_eq_of_lt (by omega), decide_eq_false (by omega)]
    have ih := @loop_eq_draw target rest (c + v.stake) (by omega)
    unfold loop draw
    rw [hadd]
    ext1
    · rw [val_bind]
      split_ifs
      · rfl
      · rw [ih]
    · rw [ovf_bind]
      split_ifs
      · rfl
      · rw [ih]
        rfl

theorem sum_filter_address {vs : List ValidatorInfo} (hd : (vs.map (·.address)).Nodup)
    {v : ValidatorInfo} (hv : v ∈ vs) :
    ((vs.filter fun w => decide (w.address = v.address)).map (·.stake)).sum = v.stake := by
  have hfilter : vs.filter (fun w => decide (w.address = v.address)) = [v] := by
    induction vs with
    | nil => cases hv
    | cons w rest ih =>
      rw [List.map_cons, List.nodup_cons] at hd
      rcases List.mem_cons.mp hv with rfl | hv
      · rw [List.filter_cons_of_pos (by simp), List.filter_eq_nil_iff.mpr fun u hu => ?_]
        have hne : u.address ≠ v.address := fun he => hd.1 (he ▸ List.mem_map_of_mem hu)
        simpa using hne
      · have hne : w.address ≠ v.address := fun he => hd.1 (he ▸ List.mem_map_of_mem hv)
        rw [List.filter_cons_of_neg (by simpa using hne)]
        exact ih hd.2 hv
  rw [hfilter]
  exact List.sum_singleton

section
variable {vs : List ValidatorInfo}

theorem exists_loop (hlt : (vs.map (·.stake)).sum < 2 ^ 128) {target : ℕ}
    (ht : target < (vs.map (·.stake)).sum) :
    ∃ v ∈ vs, loop target 0 vs = ⟨some v.address, false⟩ ∧ 0 < v.stake := by
  obtain ⟨v, hv, hdraw, hpos⟩ := exists_draw (fun v : ValidatorInfo => v.stake) (l := vs)
    (Nat.zero_le target) (by omega)
  refine ⟨v, hv, ?_, hpos⟩
  rw [loop_eq_draw target (by omega), hdraw]
  rfl

theorem countP_loop (hd : (vs.map (·.address)).Nodup) (hlt : (vs.map (·.stake)).sum < 2 ^ 128)
    {v : ValidatorInfo} (hv : v ∈ vs) :
    (List.range (vs.map (·.stake)).sum).countP
      (fun target => decide ((loop target 0 vs).val = some v.address)) = v.stake := by
  have hcount := countP_draw (fun v : ValidatorInfo => v.stake)
    (fun w => decide (w.address = v.address)) vs 0
  rw [sum_filter_address hd hv, ← List.range_eq_range'] at hcount
  rw [← hcount]
  refine List.countP_congr fun target _ => ?_
  rw [loop_eq_draw target (by omega)]
  cases draw (fun v : ValidatorInfo => v.stake) target 0 vs with
  | none => simp
  | some w => simp

theorem selectProposer_eq_loop (P : Primitives) (hlen : 2 ≤ vs.length)
    (hpos : 0 < (vs.map (·.stake)).sum) (hlt : (vs.map (·.stake)).sum < 2 ^ 128)
    (parentHash : Blake3Hash) (n : ℕ) {a : Address}
    (h : (loop (P.genRange (seed P parentHash n) (vs.map (·.stake)).sum) 0 vs).val = some a) :
    (selectProposer P vs parentHash n).val = .ok a := by
  have htotal : (sumU 128 (vs.map (·.stake))).val = (vs.map (·.stake)).sum := Nat.mod_eq_of_lt hlt
  rw [← htotal] at h hpos
  unfold selectProposer
  split
  · exact absurd hlen (by decide)
  · exact absurd hlen (by simp)
  · rw [val_bind, if_neg (by omega), val_bind, walk_of_loop h]
    rfl

end

/-- **The lottery is exact.** For two validators or more with distinct addresses and a sum of stakes
that is positive and fits into `u128`: the proposer is what the loop returns for the number drawn;
for every number below the sum the loop returns, without an overflow; each validator is returned for
as many numbers as it has stake, and for none if it has no stake. For a single validator with stake
the early return is what the loop would return. -/
theorem lottery_exact (P : Primitives) :
    (∀ vs : List ValidatorInfo, 2 ≤ vs.length → (vs.map (·.address)).Nodup →
      0 < (vs.map (·.stake)).sum → (vs.map (·.stake)).sum < 2 ^ 128 →
      (∀ parentHash n a,
        (loop (P.genRange (seed P parentHash n) (vs.map (·.stake)).sum) 0 vs).val = some a →
        (selectProposer P vs parentHash n).val = .ok a) ∧
      (∀ target < (vs.map (·.stake)).sum, ∃ v ∈ vs,
        loop target 0 vs = ⟨some v.address, false⟩) ∧
      (∀ v ∈ vs, (List.range (vs.map (·.stake)).sum).countP
        (fun target => decide ((loop target 0 vs).val = some v.address)) = v.stake) ∧
      ∀ v ∈ vs, v.stake = 0 → ∀ target < (vs.map (·.stake)).sum,
        (loop target 0 vs).val ≠ some v.address) ∧
    ∀ v : ValidatorInfo, 0 < v.stake → v.stake < 2 ^ 128 → ∀ parentHash n, ∀ target < v.stake,
      (selectProposer P [v] parentHash n).val = .ok v.address ∧
        loop target 0 [v] = ⟨some v.address, false⟩ := by
  refine ⟨fun vs hlen hd hpos hlt => ⟨fun parentHash n a h => ?_, fun target ht => ?_,
    fun v hv => countP_loop hd hlt hv, fun v hv hzero target ht h => ?_⟩,
    fun v _ hlt parentHash n target ht => ⟨rfl, ?_⟩⟩
  · exact selectProposer_eq_loop P hlen hpos hlt parentHash n h
  · obtain ⟨v, hv, hloop, -⟩ := exists_loop hlt ht
    exact ⟨v, hv, hloop⟩
  · obtain ⟨w, hw, hloop, hstake⟩ := exists_loop hlt ht
    rw [hloop] at h
    obtain rfl := List.inj_on_of_nodup_map hd hw hv (Option.some.inj h)
    omega
  · have hsum : ([v].map (·.stake)).sum = v.stake := List.sum_singleton
    obtain ⟨w, hw, hloop, -⟩ := exists_loop (hsum ▸ hlt) (hsum ▸ ht)
    rwa [List.mem_singleton.mp hw] at hloop

end ProposerSelection

namespace Small

def staked (b : UInt8) (stake : ℕ) : ValidatorInfo :=
  .new ((KeyPair.small b).address .small) ((KeyPair.small b).publicKey .small) stake

end Small

/-- Of the four numbers below the stake of two validators, one belongs to the first and three to the
second; a validator between them without a stake has none. -/
theorem lottery_one_to_three :
    (List.range 4).countP (fun target => decide ((ProposerSelection.loop target 0
      [Small.staked 1 1, Small.staked 2 0, Small.staked 3 3]).val =
        some (Small.staked 3 3).address)) = 3 ∧
    (ProposerSelection.selectProposer .small [Small.staked 1 1] .zero 1).val =
      .ok (Small.staked 1 1).address := by
  refine ⟨((ProposerSelection.lottery_exact .small).1
    [Small.staked 1 1, Small.staked 2 0, Small.staked 3 3] (by decide) (by decide +kernel)
    (by decide) (by decide)).2.2.1 _ (by simp), ?_⟩
  exact ((ProposerSelection.lottery_exact .small).2 (Small.staked 1 1) (by decide) (by decide)
    .zero 1 0 (by decide)).1

end Rustchain.Consensus

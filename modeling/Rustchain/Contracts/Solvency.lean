import Rustchain.Contracts.Bridge
import Rustchain.Lib.Runs

/-! # Solvency of the bridge contract

What the contract owes is the sum of the active HTLCs and of the locked totals (`committed`). An
HTLC and a lock take the whole balance of the contract as their amount, and not the value of the
call. So the contract stays solvent, and its HTLCs payable, exactly as long as every HTLC and every
lock is made when what it takes is not owed already (`solvent_iff`). Settlements keep it solvent in
any order. -/

namespace Rustchain.Contracts.Bridge

open Rustchain.Core Lib.Machine Lib.Maps Lib.Keys Lib.Runs
open Vm (addressOfBytes)
open ContractState

/-! ### What the contract owes -/

/-- What the record of an HTLC binds: its amount while it is active. -/
def activeAmount (data : Bytes) : ℕ :=
  ((decodeHtlc data).map fun htlc => if htlc.status = 0 then htlc.amount else 0).getD 0

def lockedAmount (data : Bytes) : ℕ := if data.length = 16 then ofLeBytes data else 0

/-- What an entry of the storage binds. -/
def commitment (key data : Bytes) : ℕ :=
  if words.word .htlc <+: key then activeAmount data
  else if words.word .locked <+: key then lockedAmount data
  else 0

/-- The sum of the amounts of all active HTLCs and of all locked totals. -/
def committed (s : ContractState) : ℕ := totalBy commitment s.storage

def Solvent (s : ContractState) : Prop := committed s ≤ s.balance

instance (s : ContractState) : Decidable (Solvent s) := inferInstanceAs (Decidable (_ ≤ _))

/-- There is an active HTLC with this record. -/
def Active (s : ContractState) (htlc : HtlcData) : Prop :=
  htlc.status = 0 ∧ ∃ hex data, s.storageRead (htlcKey hex) = some data ∧
    decodeHtlc data = some htlc

/-- Every active HTLC can be paid out, to whom ever it goes. -/
def Payable (s : ContractState) : Prop :=
  ∀ htlc, Active s htlc → ∀ target,
    s.transfer target (htlc.amount % 2 ^ 64) = (true, s.send target htlc.amount)

variable (s : ContractState) (key : Bytes)

@[simp] theorem commitment_nil : commitment key [] = 0 := by
  have h1 : activeAmount [] = 0 := rfl
  have h2 : lockedAmount [] = 0 := rfl
  unfold commitment
  rw [h1, h2, ite_self, ite_self]

theorem commitment_htlcKey (hex data : Bytes) : commitment (htlcKey hex) data = activeAmount data :=
  if_pos (Words.word_prefix_key_iff.mpr rfl)

theorem commitment_lockedKey (chain token data : Bytes) :
    commitment (lockedKey chain token) data = lockedAmount data := by
  have hne : ¬ words.word .htlc <+: lockedKey chain token := fun h =>
    absurd (Words.word_prefix_key_iff.mp h) (by decide)
  have heq : words.word .locked <+: lockedKey chain token := Words.word_prefix_key_iff.mpr rfl
  unfold commitment
  rw [if_neg hne, if_pos heq]

theorem weightAt_commitment :
    weightAt (commitment key) s.storage key =
      ((s.storageRead key).map (commitment key)).getD 0 := by
  unfold weightAt storageRead
  cases s.storage.lookup key with
  | none => rfl
  | some v =>
    cases v with
    | nil => exact commitment_nil key
    | cons b v => rfl

theorem committed_storageWrite (key value : Bytes) :
    committed (s.storageWrite key value) + ((s.storageRead key).map (commitment key)).getD 0 =
      committed s + commitment key value := by
  rw [← weightAt_commitment]
  exact totalBy_insert commitment s.storage key value

theorem committed_congr {s s' : ContractState}
    (hhtlc : ∀ rest, s'.storageRead (words.key .htlc rest) = s.storageRead (words.key .htlc rest))
    (hlocked : ∀ rest,
      s'.storageRead (words.key .locked rest) = s.storageRead (words.key .locked rest)) :
    committed s' = committed s := by
  refine totalBy_congr commitment fun key => ?_
  rw [weightAt_commitment, weightAt_commitment]
  by_cases h1 : words.word .htlc <+: key
  · obtain ⟨rest, rfl⟩ := h1
    have hread := hhtlc rest
    rw [Words.key] at hread
    rw [hread]
  · by_cases h2 : words.word .locked <+: key
    · obtain ⟨rest, rfl⟩ := h2
      have hread := hlocked rest
      rw [Words.key] at hread
      rw [hread]
    · have h0 : commitment key = fun _ => 0 := by
        funext data
        rw [commitment, if_neg h1, if_neg h2]
      rw [h0]
      cases s'.storageRead key <;> cases s.storageRead key <;> rfl

theorem activeAmount_encodeHtlc (sender recipient : Address) (amount timelock : ℕ)
    (status : UInt8) :
    activeAmount (encodeHtlc sender recipient amount timelock status) =
      if status = 0 then amount % 2 ^ 128 else 0 := by
  unfold activeAmount
  rw [decodeHtlc_encodeHtlc]
  rfl

theorem lockedAmount_leBytes (n : ℕ) : lockedAmount (leBytes 128 n) = n % 2 ^ 128 := by
  unfold lockedAmount
  rw [if_pos (length_leBytes 128 n), ofLeBytes_leBytes, show 256 ^ (128 / 8) = 2 ^ 128 by decide]

theorem readU128_lockedKey (chain token : Bytes) :
    ((s.storageRead (lockedKey chain token)).map (commitment (lockedKey chain token))).getD 0 =
      s.readU128 (lockedKey chain token) := by
  unfold readU128
  cases s.storageRead (lockedKey chain token) with
  | none => rfl
  | some v =>
    rw [Option.map_some, Option.getD_some, commitment_lockedKey, Option.bind_some, lockedAmount]
    split_ifs <;> rfl

theorem weight_le_committed : ((s.storageRead key).map (commitment key)).getD 0 ≤ committed s := by
  rw [← weightAt_commitment, committed, totalBy_eq_erase commitment s.storage key]
  exact Nat.le_add_right _ _

theorem activeAmount_of_decode {data : Bytes} {htlc : HtlcData}
    (hdec : decodeHtlc data = some htlc) (h : htlc.status = 0) :
    activeAmount data = htlc.amount := by
  unfold activeAmount
  rw [hdec, Option.map_some, Option.getD_some, if_pos h]

theorem Active.le_committed {s : ContractState} {htlc : HtlcData} (h : Active s htlc) :
    htlc.amount ≤ committed s := by
  obtain ⟨hactive, hex, data, hdata, hdec⟩ := h
  have hle := weight_le_committed s (htlcKey hex)
  rwa [hdata, Option.map_some, Option.getD_some, commitment_htlcKey,
    activeAmount_of_decode hdec hactive] at hle

theorem sound_iff :
    Solvent s ∧ Payable s ↔ Solvent s ∧ ∀ htlc, Active s htlc → htlc.amount < 2 ^ 63 := by
  refine and_congr_right fun hsolvent => ?_
  constructor
  · intro h htlc hactive
    exact ((transfer_mod_eq_iff s htlc.amount s.address).mp (h htlc hactive s.address)).1
  · intro h htlc hactive target
    refine (transfer_mod_eq_iff s htlc.amount target).mpr ⟨h htlc hactive, ?_⟩
    exact hactive.le_committed.trans hsolvent

/-! ### One step -/

/-- **What an HTLC or a lock takes is not owed already**, and an HTLC takes less than `2 ^ 63`. -/
def Covered (s : ContractState) : Op → Prop
  | .call env (.createHtlc args) => Succeeds env s (.createHtlc args) →
      committed s + s.selfBalance ≤ s.balance ∧ s.selfBalance < 2 ^ 63
  | .call env (.bridgeLock args) => Succeeds env s (.bridgeLock args) →
      committed s + netAmount s ≤ s.balance
  | _ => True

section
variable {s : ContractState}

theorem selfBalance_lt (s : ContractState) : s.selfBalance < 2 ^ 64 :=
  Nat.mod_lt _ (Nat.two_pow_pos 64)

theorem committed_storeHtlc {hex : Bytes} (hnew : s.storageRead (htlcKey hex) = none)
    (sender recipient : Address) {amount : ℕ} (hamount : amount < 2 ^ 64) (timelock : ℕ) :
    committed (storeHtlc s (htlcKey hex) (encodeHtlc sender recipient amount timelock 0)) =
      committed s + amount := by
  have hwrite := committed_storageWrite s (htlcKey hex)
    (encodeHtlc sender recipient amount timelock 0)
  rw [hnew, commitment_htlcKey, activeAmount_encodeHtlc, if_pos rfl,
    Nat.mod_eq_of_lt (by omega)] at hwrite
  refine Eq.trans ?_ hwrite
  exact committed_congr (fun rest => storageRead_writeU64_key (by decide) _ _ rest _)
    fun rest => storageRead_writeU64_key (by decide) _ _ rest _

theorem committed_settleHtlc (k : Settlement) (hk : k.status ≠ 0) {hex data : Bytes}
    {htlc : HtlcData} (hdata : s.storageRead (htlcKey hex) = some data)
    (hdec : decodeHtlc data = some htlc) (hactive : htlc.status = 0) :
    committed (settleHtlc k s (htlcKey hex) htlc) + htlc.amount = committed s := by
  have hwrite := committed_storageWrite (s.transfer (k.party htlc) (htlc.amount % 2 ^ 64)).2
    (htlcKey hex) (encodeHtlc htlc.sender htlc.recipient htlc.amount htlc.timelock k.status)
  have hsame : committed (s.transfer (k.party htlc) (htlc.amount % 2 ^ 64)).2 = committed s :=
    committed_congr (fun rest => storageRead_transfer s _ _ _)
      fun rest => storageRead_transfer s _ _ _
  rw [storageRead_transfer, hdata, Option.map_some, Option.getD_some, commitment_htlcKey,
    commitment_htlcKey, activeAmount_of_decode hdec hactive, activeAmount_encodeHtlc, if_neg hk,
    hsame] at hwrite
  exact hwrite

theorem committed_lockTokens {chain token : Bytes}
    (h : s.readU128 (lockedKey chain token) + netAmount s < 2 ^ 128) :
    committed (lockTokens s chain token) = committed s + netAmount s := by
  have hwrite := committed_storageWrite s (lockedKey chain token)
    (leBytes 128 (addU 128 (s.readU128 (lockedKey chain token)) (netAmount s)).val)
  rw [readU128_lockedKey, commitment_lockedKey, lockedAmount_leBytes] at hwrite
  have hsum : (addU 128 (s.readU128 (lockedKey chain token)) (netAmount s)).val =
      s.readU128 (lockedKey chain token) + netAmount s := Nat.mod_eq_of_lt h
  rw [hsum, Nat.mod_eq_of_lt h] at hwrite
  have hcommitted : committed (lockTokens s chain token) = committed (s.storageWrite
    (lockedKey chain token) (leBytes 128 (s.readU128 (lockedKey chain token) + netAmount s))) := by
    rw [← hsum]
    rfl
  omega

theorem netAmount_le (hfee : s.readU64 feeBpsKey ≤ 10000) : netAmount s ≤ s.selfBalance := by
  have hlt := selfBalance_lt s
  have hmul : s.selfBalance * s.readU64 feeBpsKey ≤ s.selfBalance * 10000 :=
    Nat.mul_le_mul_left _ hfee
  have hval : (mulU 128 s.selfBalance (s.readU64 feeBpsKey)).val =
      s.selfBalance * s.readU64 feeBpsKey := Nat.mod_eq_of_lt (by omega)
  have hle : s.selfBalance * s.readU64 feeBpsKey / 10000 ≤ s.selfBalance := by omega
  unfold netAmount
  simp only [hval]
  rw [subU_of_le hle]
  exact Nat.sub_le _ _

theorem active_congr {s' : ContractState} {htlc : HtlcData}
    (h : ∀ rest, s'.storageRead (words.key .htlc rest) = s.storageRead (words.key .htlc rest)) :
    Active s' htlc ↔ Active s htlc := by
  unfold Active htlcKey
  simp only [h]

theorem active_storeHtlc_iff {hex : Bytes} (hnew : s.storageRead (htlcKey hex) = none)
    {sender recipient : Address} {amount timelock : ℕ} (hamount : amount < 2 ^ 64)
    (htime : timelock < 2 ^ 64) (htlc : HtlcData) :
    Active (storeHtlc s (htlcKey hex) (encodeHtlc sender recipient amount timelock 0)) htlc ↔
      Active s htlc ∨ htlc = ⟨sender, recipient, amount, timelock, 0⟩ := by
  have hdec : decodeHtlc (encodeHtlc sender recipient amount timelock 0) =
      some ⟨sender, recipient, amount, timelock, 0⟩ := by
    rw [decodeHtlc_encodeHtlc, Nat.mod_eq_of_lt (by omega), Nat.mod_eq_of_lt htime]
  unfold Active
  simp only [storageRead_storeHtlc s hex _ (encodeHtlc_ne_nil _ _ _ _ _)]
  constructor
  · rintro ⟨hactive, hex', data, hdata, hdata'⟩
    split_ifs at hdata with he
    · rw [← Option.some.inj hdata, hdec] at hdata'
      exact .inr (Option.some.inj hdata').symm
    · exact .inl ⟨hactive, hex', data, hdata, hdata'⟩
  · rintro (⟨hactive, hex', data, hdata, hdata'⟩ | rfl)
    · refine ⟨hactive, hex', data, ?_, hdata'⟩
      rw [if_neg, hdata]
      rintro rfl
      rw [hnew] at hdata
      cases hdata
    · exact ⟨rfl, hex, _, if_pos rfl, hdec⟩

theorem Active.of_settleHtlc {k : Settlement} (hk : k.status ≠ 0) {hex : Bytes}
    {settled htlc : HtlcData} (h : Active (settleHtlc k s (htlcKey hex) settled) htlc) :
    Active s htlc := by
  obtain ⟨hactive, hex', data, hdata, hdec⟩ := h
  rw [storageRead_settleHtlc] at hdata
  split_ifs at hdata with he
  · rw [← Option.some.inj hdata, decodeHtlc_encodeHtlc] at hdec
    rw [← Option.some.inj hdec] at hactive
    exact absurd hactive hk
  · exact ⟨hactive, hex', data, hdata, hdec⟩

theorem sound_of_frame {s' : ContractState} (h : Solvent s ∧ Payable s)
    (hhtlc : ∀ rest, s'.storageRead (words.key .htlc rest) = s.storageRead (words.key .htlc rest))
    (hlocked : ∀ rest,
      s'.storageRead (words.key .locked rest) = s.storageRead (words.key .locked rest))
    (hbalance : s.balance ≤ s'.balance) : Solvent s' ∧ Payable s' := by
  rw [sound_iff] at h ⊢
  refine ⟨?_, fun htlc hactive => h.2 htlc ((active_congr hhtlc).mp hactive)⟩
  have hsolvent : committed s ≤ s.balance := h.1
  have hsame := committed_congr hhtlc hlocked
  unfold Solvent
  omega

theorem sound_deposit (h : Solvent s ∧ Payable s) (amount : ℕ) :
    Solvent (s.deposit amount) ∧ Payable (s.deposit amount) := by
  refine sound_of_frame h (fun rest => storageRead_deposit s amount _)
    (fun rest => storageRead_deposit s amount _) ?_
  unfold deposit
  split_ifs
  · exact Nat.le_add_right _ _
  · exact le_rfl

theorem sound_settleHtlc {k : Settlement} (hk : k.status ≠ 0) (h : Solvent s ∧ Payable s)
    {hex data : Bytes} {htlc : HtlcData} (hdata : s.storageRead (htlcKey hex) = some data)
    (hdec : decodeHtlc data = some htlc) (hactive : htlc.status = 0) :
    Solvent (settleHtlc k s (htlcKey hex) htlc) ∧ Payable (settleHtlc k s (htlcKey hex) htlc) := by
  rw [sound_iff] at h ⊢
  have hsolvent : committed s ≤ s.balance := h.1
  have hsum := committed_settleHtlc k hk hdata hdec hactive
  have hpaid : s.balance - htlc.amount ≤ (settleHtlc k s (htlcKey hex) htlc).balance :=
    balance_transfer_mod_ge s htlc.amount (k.party htlc)
  refine ⟨?_, fun htlc' hactive' => h.2 htlc' (hactive'.of_settleHtlc hk)⟩
  unfold Solvent
  omega

theorem sound_storeHtlc_iff (h : Solvent s ∧ Payable s) {hex : Bytes}
    (hnew : s.storageRead (htlcKey hex) = none) (sender recipient : Address) {timelock : ℕ}
    (htime : timelock < 2 ^ 64) :
    (Solvent (storeHtlc s (htlcKey hex)
        (encodeHtlc sender recipient s.selfBalance timelock 0)) ∧
      Payable (storeHtlc s (htlcKey hex)
        (encodeHtlc sender recipient s.selfBalance timelock 0))) ↔
      committed s + s.selfBalance ≤ s.balance ∧ s.selfBalance < 2 ^ 63 := by
  rw [sound_iff] at h ⊢
  have hbalance : (storeHtlc s (htlcKey hex)
      (encodeHtlc sender recipient s.selfBalance timelock 0)).balance = s.balance := rfl
  simp only [active_storeHtlc_iff hnew (selfBalance_lt s) htime]
  rw [Solvent, committed_storeHtlc hnew sender recipient (selfBalance_lt s), hbalance]
  refine and_congr_right fun _ => ⟨fun hall => hall _ (.inr rfl), fun hlt htlc hactive => ?_⟩
  rcases hactive with hactive | rfl
  · exact h.2 htlc hactive
  · exact hlt

theorem sound_lockTokens_iff (hfee : s.readU64 feeBpsKey ≤ 10000) (h : Solvent s ∧ Payable s)
    (chain token : Bytes) :
    (Solvent (lockTokens s chain token) ∧ Payable (lockTokens s chain token)) ↔
      committed s + netAmount s ≤ s.balance := by
  have hsolvent : committed s ≤ s.balance := h.1
  have hlt := s.balance_lt
  have hself := selfBalance_lt s
  have hnet := netAmount_le hfee
  have hold := weight_le_committed s (lockedKey chain token)
  rw [readU128_lockedKey] at hold
  have hhtlc : ∀ rest, (lockTokens s chain token).storageRead (words.key .htlc rest) =
      s.storageRead (words.key .htlc rest) :=
    fun rest => storageRead_writeU128_key (by decide) s _ rest _
  have hbalance : (lockTokens s chain token).balance = s.balance := rfl
  rw [sound_iff] at h ⊢
  rw [Solvent, committed_lockTokens (by omega), hbalance]
  exact ⟨fun hs => hs.1, fun hs => ⟨hs, fun htlc hactive => h.2 htlc
    ((active_congr hhtlc).mp hactive)⟩⟩

end

/-! ### Runs -/

theorem covered_of_not_succeeds {env : CallEnv} {s : ContractState} {e : Entry}
    (h : ¬ Succeeds env s e) : Covered s (.call env e) := by
  cases e with
  | createHtlc args => exact fun hs => absurd hs h
  | bridgeLock args => exact fun hs => absurd hs h
  | _ => trivial

theorem feeBps_next {s : ContractState} (h : s.readU64 feeBpsKey ≤ 10) (op : Op) :
    (next s op).readU64 feeBpsKey ≤ 10 := by
  cases op with
  | deposit amount => exact (reads_congr (storageRead_deposit s amount feeBpsKey)).1 ▸ h
  | call env e =>
    rcases call_cases env s e with ⟨t, _, hnext⟩ | ⟨code, s', _, hnext, heff⟩
    · rw [hnext]
      exact h
    · rw [hnext]
      by_cases hw : Word.feeBps ∈ e.touches
      · cases e with
        | init =>
          cases heff with
          | refused hq => exact (reads_congr (hq.storageRead feeBpsKey)).1 ▸ h
          | init => exact (reads_init env s).2.2.2.2.2.le
        | _ => exact absurd hw (by simp [Entry.touches])
      · exact (reads_congr (heff.frame hw [])).1 ▸ h

theorem sound_next_iff {s : ContractState} (hfee : s.readU64 feeBpsKey ≤ 10)
    (h : Solvent s ∧ Payable s) (op : Op) :
    (Solvent (next s op) ∧ Payable (next s op)) ↔ Covered s op := by
  cases op with
  | deposit amount => exact iff_of_true (sound_deposit h amount) trivial
  | call env e =>
    rcases call_cases env s e with ⟨t, hcall, hnext⟩ | ⟨code, s', hcall, hnext, heff⟩
    · rw [hnext]
      exact iff_of_true h (covered_of_not_succeeds (not_succeeds_of_error hcall))
    · rw [hnext]
      have hfails : ∀ {e : Entry}, call env s e = .ok (-1, s') → Covered s (.call env e) :=
        fun hcall => covered_of_not_succeeds fun hs =>
          absurd ((succeeds_iff hcall).mp hs) (by decide)
      have hrefused : Quiet s s' → Solvent s' ∧ Payable s' := fun hq =>
        sound_of_frame h (fun rest => hq.storageRead _) (fun rest => hq.storageRead _)
          hq.balance.ge
      -- Only four entry points touch a record or a locked total; the frame covers the others.
      cases e with
      | createHtlc args =>
        cases heff with
        | refused hq => exact iff_of_true (hrefused hq) (hfails hcall)
        | created _ _ htime _ hnew =>
          rw [sound_storeHtlc_iff h hnew env.caller _ htime]
          exact ⟨fun hc _ => hc, fun hc => hc ((succeeds_iff hcall).mpr rfl)⟩
      | bridgeLock args =>
        cases heff with
        | refused hq => exact iff_of_true (hrefused hq) (hfails hcall)
        | locked _ _ =>
          rw [sound_lockTokens_iff (by omega) h]
          exact ⟨fun hc _ => hc, fun hc => hc ((succeeds_iff hcall).mpr rfl)⟩
      | claimHtlc args =>
        refine iff_of_true ?_ trivial
        cases heff with
        | refused hq => exact hrefused hq
        | claimed hdata hdec hactive _ _ =>
          exact sound_settleHtlc (by decide) h hdata hdec hactive
      | refundHtlc args =>
        refine iff_of_true ?_ trivial
        cases heff with
        | refused hq => exact hrefused hq
        | refunded _ hdata hdec hactive _ _ =>
          exact sound_settleHtlc (by decide) h hdata hdec hactive
      | _ =>
        refine iff_of_true (sound_of_frame h (heff.frame ?_) (heff.frame ?_)
          (heff.balance_eq rfl).1.ge) trivial
        · simp [Entry.touches]
        · simp [Entry.touches]

theorem sound_new (address : Address) : Solvent (.new address) ∧ Payable (.new address) := by
  refine (sound_iff _).mpr ⟨Nat.le_refl 0, ?_⟩
  rintro htlc ⟨_, hex, data, hdata, _⟩
  cases hdata

/-- **The contract stays solvent**, and able to pay out every active HTLC, for exactly the sequences
of deposits and calls in which every HTLC and every lock takes what is not owed already. -/
theorem solvent_iff (address : Address) (ops : List Op) :
    (∀ p, p <+: ops → Solvent (after (.new address) p) ∧ Payable (after (.new address) p)) ↔
      ∀ p op, p ++ [op] <+: ops → Covered (after (.new address) p) op := by
  unfold after
  have hstart := sound_new address
  rw [@forall_prefix_iff_step _ _ _ next fun s => Solvent s ∧ Payable s, and_iff_right hstart]
  exact forall_step_iff
    (I := fun s => s.readU64 feeBpsKey ≤ 10 ∧ Solvent s ∧ Payable s)
    ⟨Nat.zero_le 10, hstart⟩
    (fun t op ht hnext => ⟨feeBps_next ht.1 op, hnext⟩)
    (fun t op ht => sound_next_iff ht.1 ht.2 op) ops

/-- One deposit of `100`, and two HTLCs that each take it. -/
def twoHtlcs : List Op :=
  [.deposit 100,
    .call ⟨addressOfBytes [1], 0⟩ (.createHtlc (List.replicate 60 1)),
    .call ⟨addressOfBytes [2], 0⟩ (.createHtlc (List.replicate 60 2))]

/-- **Two HTLCs on one deposit** leave the contract owing twice what it has. -/
theorem not_solvent_two_htlcs :
    ¬ ∀ p, p <+: twoHtlcs →
      Solvent (after (.new (addressOfBytes [9])) p) ∧
        Payable (after (.new (addressOfBytes [9])) p) := by
  intro h
  have hlast := (h twoHtlcs (List.prefix_refl _)).1
  revert hlast
  decide +kernel

end Rustchain.Contracts.Bridge

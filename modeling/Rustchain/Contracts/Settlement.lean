import Rustchain.Contracts.Bridge
import Rustchain.Lib.Runs

/-! # Settlement of the contract's HTLCs

An HTLC is settled at most once, by its recipient before the timelock with a preimage whose SHA-256
is the hash lock, or by its sender from the timelock on; every other call of `claim_htlc` and
`refund_htlc` returns `-1` and changes neither storage nor balance. That the amount has been paid
does not follow: the status is written whether the transfer went through or not. It does exactly for
the HTLCs whose amount is below `2 ^ 63` and covered by the balance (`htlcsSettled_iff`). -/

namespace Rustchain.Contracts.Bridge

open Rustchain.Core Lib.Keys Lib.Runs Lib.Sha256
open Vm (addressOfBytes)
open ContractState

def record (s : ContractState) (hashLock : Bytes) : Option HtlcData :=
  (s.storageRead (htlcKey (hexEncode32 hashLock))).bind decodeHtlc

/-- Between two states the stored status of an HTLC becomes a settled one. -/
def Becomes (s s' : ContractState) (hashLock : Bytes) (htlc : HtlcData) : Prop :=
  record s' hashLock = some htlc ∧ htlc.status ≠ 0 ∧
    (record s hashLock).map HtlcData.status ≠ some htlc.status

/-- Exactly `amount` has been transferred to `target`. -/
structure Paid (s s' : ContractState) (target : Address) (amount : ℕ) : Prop where
  covered : amount ≤ s.balance
  balance : s'.balance = if target = s.address then s.balance else s.balance - amount
  transfers : s'.transfers = s.transfers ++ [(target, amount)]

/-- **What a call has to keep to.** -/
structure Lawful (env : CallEnv) (s : ContractState) (e : Entry) : Prop where
  /-- A status becomes claimed only by the recipient's claim, before the timelock, with a preimage
  of the hash lock, and the amount is paid to the recipient. -/
  claimed : ∀ hashLock htlc, Becomes s (next s (.call env e)) hashLock htlc → htlc.status = 1 →
    record s hashLock = some { htlc with status := 0 } ∧
      Paid s (next s (.call env e)) htlc.recipient htlc.amount ∧
      env.caller = htlc.recipient ∧ env.timestamp < htlc.timelock ∧
      ∃ preimage, e = .claimHtlc preimage ∧ sha256 preimage = hashLock
  /-- A status becomes refunded only by the sender's refund, not before the timelock, and the
  amount is paid to the sender. -/
  refunded : ∀ hashLock htlc, Becomes s (next s (.call env e)) hashLock htlc → htlc.status = 2 →
    record s hashLock = some { htlc with status := 0 } ∧
      Paid s (next s (.call env e)) htlc.sender htlc.amount ∧
      env.caller = htlc.sender ∧ htlc.timelock ≤ env.timestamp ∧
      ∃ args, e = .refundHtlc args ∧ slice args 0 32 = .ok hashLock
  /-- There is no other settled status. -/
  status : ∀ hashLock htlc, Becomes s (next s (.call env e)) hashLock htlc →
    htlc.status = 1 ∨ htlc.status = 2
  /-- A call that settles nothing returns `-1` and changes neither storage nor balance. -/
  otherwise : e.settles = true →
    (∀ hashLock htlc, ¬ Becomes s (next s (.call env e)) hashLock htlc) →
    ∃ s', call env s e = .ok (-1, s') ∧ s'.storage = s.storage ∧ s'.balance = s.balance

/-! ### Records -/

theorem decodeHtlc_lt {data : Bytes} {htlc : HtlcData} (h : decodeHtlc data = some htlc) :
    htlc.amount < 2 ^ 128 ∧ htlc.timelock < 2 ^ 64 := by
  unfold decodeHtlc at h
  split_ifs at h with hlen
  obtain rfl := Option.some.inj h
  have ha := ofLeBytes_lt ((data.drop 40).take 16)
  have ht := ofLeBytes_lt ((data.drop 56).take 8)
  rw [List.length_take, List.length_drop, min_eq_left (by omega)] at ha ht
  exact ⟨ha, ht⟩

theorem decodeHtlc_encodeHtlc_of_decode {data : Bytes} {htlc : HtlcData}
    (h : decodeHtlc data = some htlc) (status : UInt8) :
    decodeHtlc (encodeHtlc htlc.sender htlc.recipient htlc.amount htlc.timelock status) =
      some { htlc with status := status } := by
  obtain ⟨ha, ht⟩ := decodeHtlc_lt h
  rw [decodeHtlc_encodeHtlc, Nat.mod_eq_of_lt ha, Nat.mod_eq_of_lt ht]

section
variable {env : CallEnv} {s s' : ContractState} {e : Entry} {code : ℤ} {hashLock : Bytes}
  {htlc : HtlcData}

theorem record_eq_some : record s hashLock = some htlc ↔
    ∃ data, s.storageRead (htlcKey (hexEncode32 hashLock)) = some data ∧
      decodeHtlc data = some htlc :=
  Option.bind_eq_some_iff

theorem record_congr
    (h : ∀ rest, s'.storageRead (words.key .htlc rest) = s.storageRead (words.key .htlc rest)) :
    record s' hashLock = record s hashLock :=
  congrArg (Option.bind · decodeHtlc) (h _)

variable {lock : Bytes}

theorem record_settleHtlc (k : Settlement) (h : record s lock = some htlc) :
    record (settleHtlc k s (htlcKey (hexEncode32 lock)) htlc) hashLock =
      if hashLock = lock then some { htlc with status := k.status } else record s hashLock := by
  obtain ⟨data, _, hdec⟩ := record_eq_some.mp h
  unfold record
  rw [storageRead_settleHtlc]
  by_cases he : hashLock = lock
  · rw [if_pos he, if_pos (congrArg hexEncode32 he), Option.bind_some]
    exact decodeHtlc_encodeHtlc_of_decode hdec k.status
  · rw [if_neg he, if_neg fun hhex => he (hexEncode32_injective hhex)]

theorem record_storeHtlc (sender recipient : Address) (amount timelock : ℕ) :
    record (storeHtlc s (htlcKey (hexEncode32 lock))
        (encodeHtlc sender recipient amount timelock 0)) hashLock =
      if hashLock = lock then some ⟨sender, recipient, amount % 2 ^ 128, timelock % 2 ^ 64, 0⟩
      else record s hashLock := by
  unfold record
  rw [storageRead_storeHtlc s _ _ (encodeHtlc_ne_nil _ _ _ _ _)]
  by_cases he : hashLock = lock
  · rw [if_pos he, if_pos (congrArg hexEncode32 he), Option.bind_some, decodeHtlc_encodeHtlc]
  · rw [if_neg he, if_neg fun hhex => he (hexEncode32_injective hhex)]

/-! ### When a settlement goes through -/

theorem trySettle_eq_zero_iff (k : Settlement) :
    (trySettle k env (htlcKey (hexEncode32 lock)) s).1 = 0 ↔
      ∃ htlc, record s lock = some htlc ∧ htlc.status = 0 ∧ env.caller = k.party htlc ∧
        k.refuses htlc env.timestamp = false := by
  unfold record trySettle
  cases s.storageRead (htlcKey (hexEncode32 lock)) with
  | none => simp
  | some data =>
    simp only [Option.bind_some]
    cases decodeHtlc data with
    | none => simp
    | some htlc =>
      simp only [Option.some.injEq, exists_eq_left']
      split_ifs with h1 h2 h3
      · simp [h1]
      · simp [h2]
      · simp [h3]
      · simp [not_not.mp h1, not_not.mp h2, h3]

theorem succeeds_claimHtlc_iff {args : Bytes} :
    Succeeds env s (.claimHtlc args) ↔ 1 ≤ argsLen args ∧
      ∃ htlc, record s (simpleSha256 args) = some htlc ∧ htlc.status = 0 ∧
        env.caller = htlc.recipient ∧ env.timestamp < htlc.timelock := by
  have hsettle : (trySettle claim env (htlcKey (hexEncode32 (simpleSha256 args))) s).1 = 0 ↔ _ :=
    trySettle_eq_zero_iff claim
  simp only [claim, decide_eq_false_iff_not, Nat.not_le] at hsettle
  unfold Succeeds
  simp only [call, claimHtlc]
  split_ifs with hlen
  · refine iff_of_false nofun fun h => ?_
    omega
  · rw [and_iff_right (by omega), ← hsettle]
    exact Option.some_inj

theorem succeeds_refundHtlc_iff {args lock : Bytes} (hlen : 32 ≤ argsLen args)
    (hlock : slice args 0 32 = .ok lock) :
    Succeeds env s (.refundHtlc args) ↔
      ∃ htlc, record s lock = some htlc ∧ htlc.status = 0 ∧
        env.caller = htlc.sender ∧ htlc.timelock ≤ env.timestamp := by
  have hsettle : (trySettle refund env (htlcKey (hexEncode32 lock)) s).1 = 0 ↔ _ :=
    trySettle_eq_zero_iff refund
  simp only [refund, decide_eq_false_iff_not, Nat.not_lt] at hsettle
  unfold Succeeds
  simp only [call, refundHtlc]
  rw [if_neg (by omega), hlock, ← hsettle]
  exact Option.some_inj

theorem succeeds_congr_of_settles (he : e.settles = true) (h : s'.storage = s.storage) :
    Succeeds env s' e ↔ Succeeds env s e := by
  have hread : ∀ key, s'.storageRead key = s.storageRead key := by
    intro key
    unfold ContractState.storageRead
    rw [h]
  have hfst : ∀ k key, (trySettle k env key s').1 = (trySettle k env key s).1 := by
    intro k key
    unfold trySettle
    rw [hread]
    cases s.storageRead key with
    | none => rfl
    | some data =>
      dsimp only
      cases decodeHtlc data with
      | none => rfl
      | some htlc =>
        dsimp only
        split_ifs <;> rfl
  unfold Succeeds
  cases e with
  | claimHtlc args =>
    simp only [call, claimHtlc]
    split_ifs
    · rfl
    · exact Option.some_inj.trans ((hfst _ _) ▸ Option.some_inj.symm)
  | refundHtlc args =>
    simp only [call, refundHtlc]
    split_ifs
    · rfl
    · cases slice args 0 32 with
      | error t => rfl
      | ok lock => exact Option.some_inj.trans ((hfst _ _) ▸ Option.some_inj.symm)
  | _ => cases he

/-! ### One call -/

theorem not_becomes_of_record_eq (h : record s' hashLock = record s hashLock) :
    ¬ Becomes s s' hashLock htlc := by
  rintro ⟨hrec, _, hne⟩
  rw [← h, hrec] at hne
  exact hne rfl

/-- What a settlement of the contract is: the record it finds, and the state it leaves. -/
structure Settled (k : Settlement) (env : CallEnv) (s s' : ContractState) (hashLock : Bytes)
    (htlc : HtlcData) : Prop where
  active : record s hashLock = some { htlc with status := 0 }
  status : htlc.status = k.status
  caller : env.caller = k.party htlc
  time : k.refuses htlc env.timestamp = false
  state : s' = settleHtlc k s (htlcKey (hexEncode32 hashLock)) { htlc with status := 0 }

theorem settled_of_becomes {k : Settlement} {found : HtlcData} (hfound : record s lock = some found)
    (hactive : found.status = 0) (hcaller : env.caller = k.party { found with status := k.status })
    (htime : k.refuses { found with status := k.status } env.timestamp = false)
    (h : Becomes s (settleHtlc k s (htlcKey (hexEncode32 lock)) found) hashLock htlc) :
    hashLock = lock ∧
      Settled k env s (settleHtlc k s (htlcKey (hexEncode32 lock)) found) hashLock htlc := by
  obtain ⟨hrec, _, hne⟩ := h
  rw [record_settleHtlc k hfound] at hrec
  split_ifs at hrec with he
  · obtain rfl := Option.some.inj hrec
    have hself : { found with status := 0 } = found := by rw [← hactive]
    subst he
    exact ⟨rfl, by rw [hfound, hself], rfl, hcaller, htime, by rw [hself]⟩
  · rw [hrec] at hne
    exact absurd rfl hne

theorem becomes_settleHtlc {k : Settlement} (hk : k.status ≠ 0) {found : HtlcData}
    (hfound : record s lock = some found) (hactive : found.status = 0) :
    Becomes s (settleHtlc k s (htlcKey (hexEncode32 lock)) found) lock
      { found with status := k.status } := by
  refine ⟨by rw [record_settleHtlc k hfound, if_pos rfl], hk, ?_⟩
  rw [hfound, Option.map_some, hactive]
  exact fun h => hk (Option.some.inj h).symm

theorem record_settleHtlc_of_settled (k : Settlement) {found : HtlcData}
    (hfound : record s lock = some found) (hactive : found.status = 0)
    (h : record s hashLock = some htlc) (hstatus : htlc.status ≠ 0) :
    record (settleHtlc k s (htlcKey (hexEncode32 lock)) found) hashLock = some htlc := by
  rw [record_settleHtlc k hfound, if_neg, h]
  rintro rfl
  rw [hfound] at h
  exact hstatus (Option.some.inj h ▸ hactive)

theorem Effect.becomes (heff : Effect env s e code s') (h : Becomes s s' hashLock htlc) :
    (∃ args, e = .claimHtlc args ∧ sha256 args = hashLock ∧
      Settled claim env s s' hashLock htlc) ∨
    (∃ args, e = .refundHtlc args ∧ slice args 0 32 = .ok hashLock ∧
      Settled refund env s s' hashLock htlc) := by
  have hframe : .htlc ∈ e.touches := by
    by_contra hw
    exact not_becomes_of_record_eq (record_congr (heff.frame hw)) h
  cases heff with
  | refused hq => exact absurd h (not_becomes_of_record_eq (record_congr fun _ => hq.storageRead _))
  | created _ _ _ _ _ =>
    obtain ⟨hrec, hstatus, hne⟩ := h
    rw [record_storeHtlc] at hrec
    split_ifs at hrec with he
    · exact absurd (Option.some.inj hrec ▸ rfl) hstatus
    · rw [hrec] at hne
      exact absurd rfl hne
  | @claimed args data found hdata hdec hactive hcaller htime =>
    obtain ⟨he, hs⟩ := settled_of_becomes (k := claim) (record_eq_some.mpr ⟨data, hdata, hdec⟩)
      hactive hcaller (by simpa [claim] using htime) h
    exact .inl ⟨args, rfl, by rw [he, simpleSha256_eq], hs⟩
  | @refunded args lock data found hargs hdata hdec hactive hcaller htime =>
    obtain ⟨he, hs⟩ := settled_of_becomes (k := refund) (record_eq_some.mpr ⟨data, hdata, hdec⟩)
      hactive hcaller (by simpa [refund] using htime) h
    exact .inr ⟨args, rfl, by rw [he, hargs], hs⟩
  | _ => exact absurd hframe (by simp [Entry.touches])

theorem Effect.quiet_or_becomes (heff : Effect env s e code s')
    (he : e.settles = true) :
    (code = -1 ∧ Quiet s s') ∨ ∃ hashLock htlc, Becomes s s' hashLock htlc := by
  cases heff with
  | refused hq => exact .inl ⟨rfl, hq⟩
  | claimed hdata hdec hactive _ _ =>
    exact .inr ⟨_, _, becomes_settleHtlc (by decide) (record_eq_some.mpr ⟨_, hdata, hdec⟩) hactive⟩
  | refunded _ hdata hdec hactive _ _ =>
    exact .inr ⟨_, _, becomes_settleHtlc (by decide) (record_eq_some.mpr ⟨_, hdata, hdec⟩) hactive⟩
  | _ => cases he

theorem call_returns (he : e.settles = true) : ∃ r, call env s e = .ok r := by
  cases e with
  | claimHtlc args =>
    simp only [call, claimHtlc]
    split_ifs
    · exact ⟨_, rfl⟩
    · exact ⟨_, rfl⟩
  | refundHtlc args =>
    simp only [call, refundHtlc]
    split_ifs with hlen
    · exact ⟨_, rfl⟩
    · have hlong : 32 ≤ args.length := by
        simp only [argsLen, Lib.Machine.wrapI, Int.bmod_def] at hlen
        split_ifs at hlen <;> omega
      rw [slice_eq_ok_iff.mpr ⟨⟨Nat.zero_le 32, hlong⟩, rfl⟩]
      exact ⟨_, rfl⟩
  | _ => cases he

/-- **The amount of a settled HTLC has been paid** exactly when it is below `2 ^ 63` and covered
by the balance. -/
theorem paid_settleHtlc_iff (k : Settlement) (s : ContractState) (key : Bytes)
    (htlc : HtlcData) :
    Paid s (settleHtlc k s key htlc) (k.party htlc) htlc.amount ↔
      htlc.amount < 2 ^ 63 ∧ htlc.amount ≤ s.balance := by
  have hbalance : (settleHtlc k s key htlc).balance =
      (s.transfer (k.party htlc) (htlc.amount % 2 ^ 64)).2.balance := rfl
  have htransfers : (settleHtlc k s key htlc).transfers =
      (s.transfer (k.party htlc) (htlc.amount % 2 ^ 64)).2.transfers := rfl
  constructor
  · rintro ⟨hcovered, _, hpaid⟩
    rw [htransfers] at hpaid
    by_cases hc : htlc.amount % 2 ^ 64 < 2 ^ 63 ∧ htlc.amount % 2 ^ 64 ≤ s.balance
    · rw [transfer_of_covered hc.1 hc.2] at hpaid
      have hmod : htlc.amount % 2 ^ 64 = htlc.amount :=
        (Prod.mk.inj (List.cons.inj (List.append_cancel_left hpaid)).1).2
      exact ⟨by omega, hcovered⟩
    · rw [transfer_of_not_covered (Nat.mod_lt _ (Nat.two_pow_pos 64)) hc] at hpaid
      have hlen : s.transfers.length = (s.transfers ++ [(k.party htlc, htlc.amount)]).length :=
        congrArg List.length hpaid
      rw [List.length_append, List.length_singleton] at hlen
      omega
  · intro hc
    have htransfer := (transfer_mod_eq_iff s htlc.amount (k.party htlc)).mpr hc
    refine ⟨hc.2, ?_, ?_⟩
    · rw [hbalance, htransfer]
      rfl
    · rw [htransfers, htransfer]
      rfl

/-- The same for a settlement that was made, as who is paid does not depend on the status. -/
theorem Settled.paid_iff {k : Settlement} (h : Settled k env s s' hashLock htlc)
    (hparty : k.party { htlc with status := 0 } = k.party htlc) :
    Paid s s' (k.party htlc) htlc.amount ↔ htlc.amount < 2 ^ 63 ∧ htlc.amount ≤ s.balance := by
  rw [h.state, ← hparty]
  exact paid_settleHtlc_iff k s _ { htlc with status := 0 }

/-- The HTLC that a call settles is one that can be paid. -/
def Funded (env : CallEnv) (s : ContractState) (e : Entry) : Prop :=
  ∀ hashLock htlc, Becomes s (next s (.call env e)) hashLock htlc →
    htlc.amount < 2 ^ 63 ∧ htlc.amount ≤ s.balance

theorem lawful_iff (env : CallEnv) (s : ContractState) (e : Entry) :
    Lawful env s e ↔ Funded env s e := by
  rcases call_cases env s e with ⟨t, hcall, hnext⟩ | ⟨code, s', hcall, hnext, heff⟩
  · have hnone : ∀ hashLock htlc, ¬ Becomes s (next s (.call env e)) hashLock htlc := by
      intro hashLock htlc
      rw [hnext]
      exact not_becomes_of_record_eq rfl
    refine iff_of_true ⟨fun l h hb => absurd hb (hnone l h), fun l h hb => absurd hb (hnone l h),
      fun l h hb => absurd hb (hnone l h), fun he _ => ?_⟩ fun l h hb => absurd hb (hnone l h)
    obtain ⟨r, hr⟩ := call_returns he
    rw [hr] at hcall
    cases hcall
  · unfold Funded
    constructor
    · intro hlaw hashLock htlc hb
      have hb' := hb
      rw [hnext] at hb'
      rcases heff.becomes hb' with ⟨_, _, _, hs⟩ | ⟨_, _, _, hs⟩
      · exact (hs.paid_iff rfl).mp (hnext ▸ (hlaw.claimed hashLock htlc hb hs.status).2.1)
      · exact (hs.paid_iff rfl).mp (hnext ▸ (hlaw.refunded hashLock htlc hb hs.status).2.1)
    · intro hfunded
      rw [hnext] at hfunded
      refine ⟨?_, ?_, ?_, ?_⟩
      · intro hashLock htlc hb hstatus
        rw [hnext] at hb ⊢
        rcases heff.becomes hb with ⟨args, he, hhash, hs⟩ | ⟨args, he, _, hs⟩
        · exact ⟨hs.active, (hs.paid_iff rfl).mpr (hfunded hashLock htlc hb), hs.caller,
            Nat.not_le.mp (of_decide_eq_false hs.time), args, he, hhash⟩
        · rw [hs.status] at hstatus
          exact absurd hstatus (by decide)
      · intro hashLock htlc hb hstatus
        rw [hnext] at hb ⊢
        rcases heff.becomes hb with ⟨args, he, _, hs⟩ | ⟨args, he, hhash, hs⟩
        · rw [hs.status] at hstatus
          exact absurd hstatus (by decide)
        · exact ⟨hs.active, (hs.paid_iff rfl).mpr (hfunded hashLock htlc hb), hs.caller,
            Nat.not_lt.mp (of_decide_eq_false hs.time), args, he, hhash⟩
      · intro hashLock htlc hb
        rw [hnext] at hb
        rcases heff.becomes hb with ⟨_, _, _, hs⟩ | ⟨_, _, _, hs⟩
        · exact .inl hs.status
        · exact .inr hs.status
      · intro he hnone
        rw [hnext] at hnone
        rcases heff.quiet_or_becomes he with ⟨rfl, hq⟩ | ⟨hashLock, htlc, hb⟩
        · exact ⟨s', hcall, hq.storage, hq.balance⟩
        · exact absurd hb (hnone hashLock htlc)

end

/-! ### Runs -/

/-- A call, with the balance that the contract has when it is made. -/
structure Turn where
  balance : ℕ
  balance_lt : balance < 2 ^ 127
  env : CallEnv
  entry : Entry

namespace Turn

def before (t : Turn) (s : ContractState) : ContractState :=
  { s with balance := t.balance, balance_lt := t.balance_lt }

def take (s : ContractState) (t : Turn) : ContractState :=
  next (t.before s) (.call t.env t.entry)

end Turn

theorem record_before (t : Turn) (s : ContractState) (hashLock : Bytes) :
    record (t.before s) hashLock = record s hashLock := rfl

theorem record_next_of_settled {s : ContractState} {hashLock : Bytes} {htlc : HtlcData}
    (h : record s hashLock = some htlc) (hstatus : htlc.status ≠ 0) (env : CallEnv) (e : Entry) :
    record (next s (.call env e)) hashLock = some htlc := by
  rcases call_cases env s e with ⟨t, _, hnext⟩ | ⟨code, s', _, hnext, heff⟩
  · rw [hnext, h]
  · rw [hnext]
    by_cases hw : Word.htlc ∈ e.touches
    · cases heff with
      | refused hq => rw [record_congr fun _ => hq.storageRead _, h]
      | @created _ lock _ _ _ _ _ _ hnew =>
        rw [record_storeHtlc, if_neg, h]
        rintro rfl
        rw [record, hnew] at h
        cases h
      | claimed hdata hdec hactive _ _ =>
        exact record_settleHtlc_of_settled claim (record_eq_some.mpr ⟨_, hdata, hdec⟩) hactive h
          hstatus
      | refunded _ hdata hdec hactive _ _ =>
        exact record_settleHtlc_of_settled refund (record_eq_some.mpr ⟨_, hdata, hdec⟩) hactive h
          hstatus
      | _ => exact absurd hw (by simp [Entry.touches])
    · rw [record_congr (heff.frame hw), h]

/-- No HTLC is settled by two calls of the sequence. -/
def SettledOnce (s : ContractState) (turns : List Turn) : Prop :=
  ∀ p t q u, (p ++ [t]) ++ q ++ [u] <+: turns → ∀ hashLock htlc htlc',
    Becomes (t.before (p.foldl Turn.take s)) ((p ++ [t]).foldl Turn.take s) hashLock htlc →
    ¬ Becomes (u.before ((p ++ [t] ++ q).foldl Turn.take s))
      ((p ++ [t] ++ q ++ [u]).foldl Turn.take s) hashLock htlc'

theorem settledOnce (s : ContractState) (turns : List Turn) : SettledOnce s turns := by
  intro p t q u _ hashLock htlc htlc' hfirst hsecond
  have hkept : record ((p ++ [t] ++ q).foldl Turn.take s) hashLock = some htlc := by
    rw [List.foldl_append]
    exact foldl_invariant (I := fun s => record s hashLock = some htlc) hfirst.1
      (fun v w hv => record_next_of_settled (s := w.before v) hv hfirst.2.1 w.env w.entry) q
  have hagain : record ((p ++ [t] ++ q ++ [u]).foldl Turn.take s) hashLock = some htlc := by
    rw [List.foldl_append]
    exact record_next_of_settled (s := u.before _) hkept hfirst.2.1 u.env u.entry
  refine not_becomes_of_record_eq ?_ hsecond
  rw [hagain, record_before, hkept]

/-- **HTLCs are settled as promised**, each at most once, in exactly the sequences of calls in
which every HTLC is settled while its amount is below `2 ^ 63` and covered by the balance. -/
theorem htlcsSettled_iff (s : ContractState) (turns : List Turn) :
    (SettledOnce s turns ∧ ∀ p t, p ++ [t] <+: turns →
      Lawful t.env (t.before (p.foldl Turn.take s)) t.entry) ↔
      ∀ p t, p ++ [t] <+: turns → Funded t.env (t.before (p.foldl Turn.take s)) t.entry := by
  rw [and_iff_right (settledOnce s turns)]
  exact forall₃_congr fun p t _ => lawful_iff t.env (t.before (p.foldl Turn.take s)) t.entry

instance (s s' : ContractState) (hashLock : Bytes) (htlc : HtlcData) :
    Decidable (Becomes s s' hashLock htlc) :=
  inferInstanceAs (Decidable (_ ∧ _ ∧ _))

/-- Two HTLCs, the second of which took the balance of the first and one more, and their refunds at
the timelock. -/
def twoRefunds : List Turn :=
  let sender := addressOfBytes [1]
  let args (b : UInt8) : Bytes := List.replicate 52 b ++ List.replicate 8 0
  [⟨100, by decide, ⟨sender, 0⟩, .createHtlc (args 1)⟩,
    ⟨101, by decide, ⟨sender, 0⟩, .createHtlc (args 2)⟩,
    ⟨101, by decide, ⟨sender, 0⟩, .refundHtlc (List.replicate 32 1)⟩,
    ⟨1, by decide, ⟨sender, 0⟩, .refundHtlc (List.replicate 32 2)⟩]

/-- **A refund that pays nothing**: the status is written all the same. -/
theorem not_htlcsSettled_two_refunds :
    ¬ (SettledOnce (.new (addressOfBytes [9])) twoRefunds ∧ ∀ p t, p ++ [t] <+: twoRefunds →
      Lawful t.env (t.before (p.foldl Turn.take (.new (addressOfBytes [9])))) t.entry) := by
  rintro ⟨_, h⟩
  have hlaw := h (twoRefunds.take 3) _ (List.prefix_refl twoRefunds)
  have hpaid := (hlaw.refunded (List.replicate 32 2)
    ⟨addressOfBytes [1], addressOfBytes (List.replicate 20 2), 101, 0, 2⟩
    (by decide +kernel) rfl).2.1
  exact absurd hpaid.covered (by decide +kernel)

end Rustchain.Contracts.Bridge

import Rustchain.Api.Nonces

/-! # Call data

The wallet route and the command line encode a call as the length of the function's name in four
bytes, the name and the arguments. `extract_function_name` reads names of 1 to 256 bytes; any other
name is taken for a call of the function `call` with all of the data as its arguments. -/

namespace Rustchain.Api

open Rustchain.Core Storage Consensus Consensus.Exec Lib.Checks

/-! ### The command line -/

/-- **`call_contract` of the wallet's command line**, up to the request to the node. The chain
identifier and the nonce are the node's answers, `load` finds and decrypts the key of an address,
and `timestamp` is the clock. Errors are given as their texts. -/
def Cli.callContract (C : WalletCrates) (P : Primitives) (load : Address → Except String KeyPair)
    (chainId nonce timestamp : ℕ) (fromHex contractHex function argsHex : String)
    (value gasLimit : ℕ) : Except String SignedTransaction := do
  let fromAddr ← addressFromHex C fromHex
  let contractAddr ← addressFromHex C contractHex
  let keypair ← load fromAddr
  let args ← decodeHex C (strip0x argsHex)
  return .new P ⟨chainId, nonce, fromAddr, some contractAddr, value, .contractCall, gasLimit, 1,
    encodeCall function args, timestamp⟩ keypair

/-! ### The decoder on encoded calls -/

theorem fromUTF8?_utf8 (s : String) : String.fromUTF8? ⟨s.toUTF8.data.toList.toArray⟩ = some s := by
  have hbytes : (⟨s.toUTF8.data.toList.toArray⟩ : ByteArray) = s.toByteArray := by
    rw [Array.toArray_toList]
    rfl
  unfold String.fromUTF8?
  rw [hbytes, dif_pos s.isValidUTF8]
  rfl

theorem utf8ByteSize_of_fromUTF8? {b : ByteArray} {s : String} (h : String.fromUTF8? b = some s) :
    s.utf8ByteSize = b.size := by
  unfold String.fromUTF8? at h
  split_ifs at h
  obtain rfl := Option.some.inj h
  rfl

theorem readLength (n : ℕ) (rest : Bytes) :
    ((leBytes 32 n ++ rest).getD 0 0).toNat + ((leBytes 32 n ++ rest).getD 1 0).toNat * 256 +
      ((leBytes 32 n ++ rest).getD 2 0).toNat * 256 ^ 2 +
      ((leBytes 32 n ++ rest).getD 3 0).toNat * 256 ^ 3 = n % 2 ^ 32 := by
  have hbytes : leBytes 32 n = [UInt8.ofNat (n / 256 ^ 0 % 256), UInt8.ofNat (n / 256 ^ 1 % 256),
    UInt8.ofNat (n / 256 ^ 2 % 256), UInt8.ofNat (n / 256 ^ 3 % 256)] := rfl
  rw [hbytes]
  simp only [List.cons_append, List.nil_append, List.getD_cons_zero, List.getD_cons_succ,
    UInt8.toNat_ofNat']
  omega

theorem extractFunctionName_encodeCall (function : String) (args : Bytes) :
    extractFunctionName (encodeCall function args) = (function, args) ↔
      0 < function.utf8ByteSize ∧ function.utf8ByteSize ≤ 256 := by
  have hlen : function.toUTF8.data.toList.length = function.utf8ByteSize := rfl
  have hfour : (leBytes 32 function.utf8ByteSize).length = 4 := length_leBytes _ _
  unfold extractFunctionName
  dsimp only
  rw [encodeCall, List.append_assoc, readLength, hlen]
  have hdrop : (leBytes 32 function.utf8ByteSize ++
      (function.toUTF8.data.toList ++ args)).drop 4 = function.toUTF8.data.toList ++ args :=
    List.drop_left' hfour
  split_ifs with hwindow
  · -- the length that is read may be that of a longer name modulo `2 ^ 32`
    obtain ⟨-, hpos, hle, -⟩ := hwindow
    by_cases hsmall : function.utf8ByteSize < 2 ^ 32
    · rw [Nat.mod_eq_of_lt hsmall] at hpos hle ⊢
      rw [← List.drop_drop, hdrop, ← hlen, List.take_left', List.drop_left', fromUTF8?_utf8]
      · exact ⟨fun _ => ⟨hpos, hle⟩, fun _ => rfl⟩
      · rfl
      · rfl
    · refine ⟨fun h => ?_, fun h => absurd h.2 (by omega)⟩
      split at h
      · rename_i name hname
        obtain rfl := (Prod.mk.inj h).1
        have hsize := utf8ByteSize_of_fromUTF8? hname
        have htake : (⟨(((leBytes 32 name.utf8ByteSize ++ (name.toUTF8.data.toList ++ args)).drop
            4).take (name.utf8ByteSize % 2 ^ 32)).toArray⟩ : ByteArray).size ≤
              name.utf8ByteSize % 2 ^ 32 := List.length_take_le _ _
        omega
      · obtain rfl := (Prod.mk.inj h).1
        exact absurd hsmall (by decide)
  · refine ⟨fun h => ?_, fun ⟨hpos, hle⟩ => absurd ?_ hwindow⟩
    · obtain rfl := (Prod.mk.inj h).1
      decide
    · rw [Nat.mod_eq_of_lt (by omega), List.length_append, List.length_append, hfour, hlen]
      omega

/-! ### The two encoders -/

theorem readCall_ok {C : WalletCrates} {req : WalletCallRequest C} {keypair : KeyPair} {p : Payload}
    (h : readCall C req = .ok (keypair, p)) :
    ∃ args, callArgs C req.args = .ok args ∧ p.data = encodeCall req.function args := by
  obtain ⟨_, -, h⟩ := bind_eq_ok_iff.mp h
  obtain ⟨_, -, h⟩ := bind_eq_ok_iff.mp h
  obtain ⟨_, -, h⟩ := bind_eq_ok_iff.mp h
  obtain ⟨args, hargs, h⟩ := bind_eq_ok_iff.mp h
  obtain ⟨-, rfl⟩ := Prod.mk.inj (Except.ok.inj h)
  exact ⟨args, hargs, rfl⟩

theorem Cli.callContract_ok {C : WalletCrates} {P : Primitives}
    {load : Address → Except String KeyPair} {chainId nonce timestamp : ℕ}
    {fromHex contractHex function argsHex : String} {value gasLimit : ℕ} {stx : SignedTransaction}
    (h : Cli.callContract C P load chainId nonce timestamp fromHex contractHex function argsHex
      value gasLimit = .ok stx) :
    ∃ args, decodeHex C (strip0x argsHex) = .ok args ∧
      stx.transaction.data = encodeCall function args := by
  obtain ⟨_, -, h⟩ := bind_eq_ok_iff.mp h
  obtain ⟨_, -, h⟩ := bind_eq_ok_iff.mp h
  obtain ⟨_, -, h⟩ := bind_eq_ok_iff.mp h
  obtain ⟨args, hargs, h⟩ := bind_eq_ok_iff.mp h
  obtain rfl := Except.ok.inj h
  exact ⟨args, hargs, rfl⟩

/-- **Call data decodes to the call that was made** if and only if the name of the function has 1 to
256 bytes: for every request that the wallet route reads, with the arguments it reads, and for every
transaction that the command line makes. -/
theorem call_data_decodes_iff (C : WalletCrates) (P : Primitives) :
    (∀ (req : WalletCallRequest C) (keypair : KeyPair) (p : Payload),
      readCall C req = .ok (keypair, p) → ∃ args, callArgs C req.args = .ok args ∧
        (extractFunctionName p.data = (req.function, args) ↔
          0 < req.function.utf8ByteSize ∧ req.function.utf8ByteSize ≤ 256)) ∧
    ∀ (load : Address → Except String KeyPair) (chainId nonce timestamp : ℕ)
      (fromHex contractHex function argsHex : String) (value gasLimit : ℕ)
      (stx : SignedTransaction),
      Cli.callContract C P load chainId nonce timestamp fromHex contractHex function argsHex value
        gasLimit = .ok stx → ∃ args, decodeHex C (strip0x argsHex) = .ok args ∧
          (extractFunctionName stx.transaction.data = (function, args) ↔
            0 < function.utf8ByteSize ∧ function.utf8ByteSize ≤ 256) := by
  refine ⟨fun req keypair p h => ?_, fun load chainId nonce timestamp fromHex contractHex function
    argsHex value gasLimit stx h => ?_⟩
  · obtain ⟨args, hargs, hdata⟩ := readCall_ok h
    exact ⟨args, hargs, hdata ▸ extractFunctionName_encodeCall _ _⟩
  · obtain ⟨args, hargs, hdata⟩ := Cli.callContract_ok h
    exact ⟨args, hargs, hdata ▸ extractFunctionName_encodeCall _ _⟩

namespace Small

def callRequest (function : String) : WalletCallRequest crates :=
  ⟨(2 : UInt8), "", "0x0303030303030303030303030303030303030303", function, some "0x0102", none,
    none, none⟩

def callPayload (function : String) : Payload :=
  ⟨some ⟨Vector.replicate 20 3⟩, 0, .contractCall, 500000, 1, encodeCall function [1, 2]⟩

theorem readCall_mint :
    readCall crates (callRequest "mint") = .ok (.small 2, callPayload "mint") := rfl

def cliCall (function : String) : Except String SignedTransaction :=
  Cli.callContract crates .small (fun _ => .ok (.small 2)) 1 0 0
    "0x0202020202020202020202020202020202020202" "0x0303030303030303030303030303030303030303"
    function "0x0102" 0 500000

def cliSigned (function : String) : SignedTransaction :=
  .new .small ⟨1, 0, ⟨Vector.replicate 20 2⟩, some ⟨Vector.replicate 20 3⟩, 0, .contractCall,
    500000, 1, encodeCall function [1, 2], 0⟩ (.small 2)

theorem cliCall_eq (function : String) : cliCall function = .ok (cliSigned function) := rfl

def longName : String := String.ofList (List.replicate 257 'a')

end Small

theorem call_data_of_mint :
    extractFunctionName (Small.callPayload "mint").data = ("mint", [1, 2]) ∧
    extractFunctionName (Small.cliSigned "mint").transaction.data = ("mint", [1, 2]) := by
  obtain ⟨args, hargs, hroute⟩ := (call_data_decodes_iff Small.crates .small).1 _ _ _
    Small.readCall_mint
  obtain rfl : [1, 2] = args := Except.ok.inj hargs
  obtain ⟨args, hargs, hcli⟩ := (call_data_decodes_iff Small.crates .small).2 _ _ _ _ _ _ _ _ _ _ _
    (Small.cliCall_eq "mint")
  obtain rfl : [1, 2] = args := Except.ok.inj hargs
  exact ⟨hroute.mpr (by decide), hcli.mpr (by decide)⟩

/-- A call of the function with the empty name is accepted, and so is one with a name of 257 bytes;
both are executed as `call`, with all of the data as the arguments. -/
theorem call_data_without_name :
    (callContract (Small.callRequest "") Small.clocks Small.engine).1.toBool = true ∧
    readCall Small.crates (Small.callRequest "") = .ok (.small 2, Small.callPayload "") ∧
    extractFunctionName (Small.callPayload "").data = ("call", [0, 0, 0, 0, 1, 2]) ∧
    (callContract (Small.callRequest Small.longName) Small.clocks Small.engine).1.toBool = true ∧
    (extractFunctionName (Small.callPayload Small.longName).data).1 = "call" ∧
    Small.cliCall "" = .ok (Small.cliSigned "") ∧
    extractFunctionName (Small.cliSigned "").transaction.data = ("call", [0, 0, 0, 0, 1, 2]) :=
  ⟨by decide +kernel, rfl, by decide +kernel, by decide +kernel,
    by decide +kernel, Small.cliCall_eq "", by decide +kernel⟩

end Rustchain.Api

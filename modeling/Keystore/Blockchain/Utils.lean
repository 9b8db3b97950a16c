import Keystore.Utils

/-!
# `blockchain::utils`: the hex codec of keys, addresses and transactions

`bytes_to_hex` writes every raw transaction and Bitcoin private key; `hex_to_bytes` reads
every private key, Ethereum address and method number. Unlike the storage decoder
`utils::decode_hex`, it chunks the input by characters rather than bytes and returns an error
rather than panicking. Both delegate each chunk to `u8::from_str_radix`, whose grammar is
wider than hex: it accepts a leading `+`.

## Main definitions

* `Keystore.Blockchain.Error` — the blockchain error: a kind and an optional context.
* `Keystore.Blockchain.bytesToHex`, `Keystore.Blockchain.hexToBytes`.

## Main results

* `Keystore.Blockchain.hexToBytes_bytesToHex` — `hex_to_bytes` inverts `bytes_to_hex`.
* `Keystore.Blockchain.hexToBytes_plus_hex` — a chunk `+d` decodes as the digit `d`, in both
  decoders, so neither accepts exactly the hex grammar.
-/

set_option autoImplicit false

namespace Keystore.Blockchain

open Rust

/-! ## Errors -/

/-- `blockchain::ValidationError`, with the offending value. -/
inductive ValidationError
  | malformedAddress (value : String)
  | malformedHexString (value : String)
  | malformedPrivateKey (value : String)
  | missingNonce
  | notEnoughUtxo
  | overflow (number : String)
  | unsupportedAddressType (value : String)
  | unsupportedCurrency (value : String)
  deriving DecidableEq, Repr

/-- `blockchain::ErrorKind`. -/
inductive ErrorKind
  | internal
  | validation (error : ValidationError)
  | invalidPrivateKey (error : ValidationError)
  | invalidUnsignedTransaction (error : ValidationError)
  deriving DecidableEq, Repr

/-- `blockchain::ErrorContext`, attached by `ectx!`. -/
inductive ErrorContext
  | malformedMethodNumber
  | malformedStqContractAddress
  | overflow
  | signature
  | noTxOutputs
  | wrongFee
  | wrongInputs
  deriving DecidableEq, Repr

/-- `blockchain::ErrorSource`, attached by `ectx!`. -/
inductive ErrorSource
  | random
  | serde
  | signer
  deriving DecidableEq, Repr

/-- `blockchain::Error`: the kind `Error::kind` reports, with the context or source `ectx!`
attached to it, if any. -/
structure Error where
  kind : ErrorKind
  context : Option ErrorContext := none
  source : Option ErrorSource := none
  deriving DecidableEq, Repr

/-! ## The codec -/

/-- `blockchain::utils::bytes_to_hex`. -/
def bytesToHex (bytes : List UInt8) : String := pushHex "" bytes

/-- One chunk of `hex_to_bytes`: a chunk of one character is an error; two characters are
formatted into a string and parsed by `u8::from_str_radix` in radix 16. Either error is
`Validation(MalformedHexString)` carrying the whole input. -/
def hexChunkToByte (hex : String) (chunk : List Char) : Except Error UInt8 :=
  match chunk with
  | [c0, c1] =>
    match u8FromStrRadix (asBytes (String.ofList [c0, c1])) 16 with
    | .ok v => .ok v
    | .error _ => .error { kind := .validation (.malformedHexString hex) }
  | _ => .error { kind := .validation (.malformedHexString hex) }

/-- `blockchain::utils::hex_to_bytes`: collecting the chunks' results stops at the first
error. -/
def hexToBytes (hex : String) : Except Error (List UInt8) :=
  (chunks2 hex.toList).mapM (hexChunkToByte hex)

theorem bytesToHex_toList (bytes : List UInt8) :
    (bytesToHex bytes).toList = bytes.flatMap hexPair :=
  encodeHex_toList bytes

theorem length_bytesToHex (bytes : List UInt8) : (bytesToHex bytes).length = 2 * bytes.length :=
  length_encodeHex bytes

theorem hexChunkToByte_hexPair (hex : String) (b : UInt8) :
    hexChunkToByte hex (hexPair b) = .ok b := by
  have key := u8FromStrRadix_hexPair b
  simp only [hexPair] at key
  simp only [hexChunkToByte, hexPair, key]

theorem chunks2_flatMap_hexPair (bytes : List UInt8) :
    chunks2 (bytes.flatMap hexPair) = bytes.map hexPair :=
  chunks2_flatMap_pair _ _ bytes

theorem mapM_hexChunkToByte (hex : String) (bytes : List UInt8) :
    (bytes.map hexPair).mapM (hexChunkToByte hex) = .ok bytes := by
  induction bytes with
  | nil => rfl
  | cons b bs ih =>
    simp only [List.map_cons, List.mapM_cons, hexChunkToByte_hexPair, ih]
    rfl

/-- **`hex_to_bytes` inverts `bytes_to_hex`.** -/
theorem hexToBytes_bytesToHex (bytes : List UInt8) : hexToBytes (bytesToHex bytes) = .ok bytes := by
  rw [hexToBytes, bytesToHex_toList, chunks2_flatMap_hexPair, mapM_hexChunkToByte]

/-- The chunk `+f` is read as the digit `f` by both decoders, and writes back as `0f`. -/
theorem hexToBytes_plus_hex :
    hexToBytes "+f" = .ok [15] ∧ bytesToHex [15] = "0f" ∧ decodeHex "+f" = some [15] := by
  refine ⟨rfl, rfl, rfl⟩

end Keystore.Blockchain

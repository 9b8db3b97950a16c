import Mathlib.Data.Nat.Notation

/-!
# The crates under the vendored Bitcoin and Ethereum code

The vendored parity-bitcoin and parity-ethereum crates call a few crates that are not in the
repository: a hex and a base58 text codec, SHA-256, RIPEMD-160 and Keccak-256, and the
secp256k1 library. They are parameters of the model, gathered in `Keystore.Crates`; every
Bitcoin and Ethereum definition takes one `Crates`.

## Main definitions

* `Keystore.Crates` — the functions the vendored code calls, with the one property of
  secp256k1 that a proof uses: a serialized public key is 33 or 65 bytes long.
* `Keystore.Crates.SecretKey` — a 32-byte secret that secp256k1 accepts
  (`key::SecretKey`), which is what its key-pair generator draws.
* `Keystore.Crates.zero` — crates that return zeros, to run the model on.

## Design

A function of a crate that returns a `Result` whose error the vendored code only passes on is
an `Option`. Randomness is not a field: what a generator draws is an argument of the call.
-/

set_option autoImplicit false

namespace Keystore

/-- The functions that the vendored Bitcoin and Ethereum crates take from crates outside the
repository. -/
structure Crates where
  /-- `rustc-hex`'s `FromHex for str`. -/
  fromHex : String → Option (List UInt8)
  /-- `base58`'s `FromBase58 for str`. -/
  fromBase58 : String → Option (List UInt8)
  /-- `base58`'s `ToBase58 for [u8]`. -/
  toBase58 : List UInt8 → String
  /-- `rust-crypto`'s SHA-256. -/
  sha256 : List UInt8 → Vector UInt8 32
  /-- `rust-crypto`'s RIPEMD-160. -/
  ripemd160 : List UInt8 → Vector UInt8 20
  /-- `tiny-keccak`'s Keccak-256. -/
  keccak256 : List UInt8 → Vector UInt8 32
  /-- `key::SecretKey::from_slice` on 32 bytes: the secret is a nonzero scalar below the
  group order. -/
  isValidSecret : Vector UInt8 32 → Bool
  /-- `key::PublicKey::from_secret_key`, then `serialize_vec` in the compressed form or not. -/
  serializePublic : Vector UInt8 32 → Bool → List UInt8
  /-- A compressed public key is 33 bytes, an uncompressed one 65. -/
  length_serializePublic : ∀ secret compressed,
    (serializePublic secret compressed).length = if compressed then 33 else 65
  /-- `Secp256k1::sign` of a 32-byte message with a secret, then `serialize_der`; `none` is
  an error of the library. -/
  signDer : Vector UInt8 32 → Vector UInt8 32 → Option (List UInt8)

/-- `key::SecretKey`: a 32-byte secret that secp256k1 accepts. `generate_keypair` draws one. -/
def Crates.SecretKey (crates : Crates) : Type :=
  { secret : Vector UInt8 32 // crates.isValidSecret secret = true }

/-- Crates whose hashes are all zeros, whose hex and base58 decoders return zeros (base58 the
25 bytes of a P2PKH address with a zero hash and checksum), and whose secp256k1 accepts every
secret: the model can be run on them. -/
def Crates.zero : Crates where
  fromHex s := some (List.replicate (s.length / 2) 0)
  fromBase58 _ := some ([0] ++ List.replicate 20 0 ++ [0, 0, 0, 0])
  toBase58 _ := ""
  sha256 _ := Vector.replicate 32 0
  ripemd160 _ := Vector.replicate 20 0
  keccak256 _ := Vector.replicate 32 0
  isValidSecret _ := true
  serializePublic _ compressed := List.replicate (if compressed then 33 else 65) 0
  length_serializePublic _ compressed := by cases compressed <;> simp
  signDer _ _ := some (List.replicate 70 0)

end Keystore

import Keystore.Crates
import Keystore.Rust.Core
import Keystore.Btc.Serialization

/-!
# `btckey` and `btccrypto`: Bitcoin keys, addresses and their layouts

The vendored parity-bitcoin `keys` crate: a private key is written as its network byte, the
32-byte secret, a `1` when its public key is compressed and a 4-byte checksum (the layout the
keystore stores, hex-encoded); an address as its prefix byte, the 20-byte hash of a public key
or script and a checksum, in base58. A key pair is a private key and the public key
secp256k1 derives from it. The checksum is the first four bytes of the double SHA-256 of
the `crypto` crate.

## Main definitions

* `Keystore.Btc.dhash256`, `Keystore.Btc.dhash160`, `Keystore.Btc.checksum` — `btccrypto`;
  `Keystore.Btc.H256.fromStr` — a hash from hex.
* `Keystore.Btc.Address`, with `layout`, `fromLayout`, `fromStr` and `toString`.
* `Keystore.Btc.Private`, with `layout`, `fromLayout` and `sign`.
* `Keystore.Btc.KeyPair.fromPrivate`, `.fromKeypair`, `.address`, and
  `Keystore.Btc.Random.generate`.

## Main results

* `Keystore.Btc.Private.fromLayout_layout` — reading a private key's layout gives it back.
-/

set_option autoImplicit false

namespace Keystore.Btc

open Rust

variable (crates : Crates)

/-! ## `btccrypto` -/

/-- `dhash256`: SHA-256 twice. -/
def dhash256 (input : List UInt8) : H256 := crates.sha256 (crates.sha256 input).toList

/-- `dhash160`: SHA-256, then RIPEMD-160. -/
def dhash160 (input : List UInt8) : Vector UInt8 20 := crates.ripemd160 (crates.sha256 input).toList

/-- `checksum`: the first four bytes of `dhash256`. -/
def checksum (data : List UInt8) : List UInt8 := (dhash256 crates data).toList.take 4

@[simp] theorem length_checksum (data : List UInt8) : (checksum crates data).length = 4 := by
  simp [checksum]

/-- `FromStr for H256`: hex of exactly 32 bytes. -/
def H256.fromStr (s : String) : Option H256 :=
  match crates.fromHex s with
  | some bytes => if h : bytes.length = 32 then some ⟨bytes.toArray, by simpa using h⟩ else none
  | none => none

/-! ## Errors, networks, addresses -/

/-- `keys::Error`. -/
inductive Error
  | invalidPublic
  | invalidSecret
  | invalidMessage
  | invalidSignature
  | invalidNetwork
  | invalidChecksum
  | invalidPrivate
  | invalidAddress
  | failedKeyGeneration
  deriving DecidableEq, Repr

/-- `keys::Network`. -/
inductive Network
  | mainnet
  | testnet
  deriving DecidableEq, Repr

/-- `keys::Type`, which the keystore imports as `AddressType`. -/
inductive AddressType
  | p2pkh
  | p2sh
  deriving DecidableEq, Repr

/-- `keys::Address`: the kind, the network and the 20-byte hash. -/
structure Address where
  kind : AddressType
  network : Network
  hash : Vector UInt8 20
  deriving DecidableEq, Repr

namespace Address

/-- The first byte of an address's layout. -/
def prefixByte : Network → AddressType → UInt8
  | .mainnet, .p2pkh => 0
  | .mainnet, .p2sh => 5
  | .testnet, .p2pkh => 111
  | .testnet, .p2sh => 196

/-- `DisplayLayout::layout`: the prefix, the hash and the checksum of both, 25 bytes. -/
def layout (a : Address) : List UInt8 :=
  let result := prefixByte a.network a.kind :: a.hash.toList
  result ++ checksum crates result

/-- `DisplayLayout::from_layout`: 25 bytes whose last four are the checksum of the others,
with a known prefix. -/
def fromLayout (data : List UInt8) : Except Error Address :=
  if h : data.length = 25 then
    if data.drop 21 ≠ checksum crates (data.take 21) then .error .invalidChecksum
    else
      let hash := sliceArray data 1 20 (by omega)
      match data[0] with
      | 0 => .ok ⟨.p2pkh, .mainnet, hash⟩
      | 5 => .ok ⟨.p2sh, .mainnet, hash⟩
      | 111 => .ok ⟨.p2pkh, .testnet, hash⟩
      | 196 => .ok ⟨.p2sh, .testnet, hash⟩
      | _ => .error .invalidAddress
  else .error .invalidAddress

/-- `FromStr for Address`: base58, then `from_layout`. -/
def fromStr (s : String) : Except Error Address :=
  match crates.fromBase58 s with
  | none => .error .invalidAddress
  | some bytes => fromLayout crates bytes

/-- `Display for Address`: the layout in base58. -/
def toString (a : Address) : String := crates.toBase58 (a.layout crates)

end Address

/-! ## Private keys -/

/-- `keys::Private`. -/
structure Private where
  network : Network
  secret : Vector UInt8 32
  compressed : Bool
  deriving DecidableEq, Repr

namespace Private

/-- The network byte of a private key's layout. -/
def networkByte : Network → UInt8
  | .mainnet => 128
  | .testnet => 239

/-- `DisplayLayout::layout`: the network byte, the secret, a `1` if compressed, and the
checksum of all of them. -/
def layout (p : Private) : List UInt8 :=
  let result := networkByte p.network :: p.secret.toList ++ (if p.compressed then [1] else [])
  result ++ checksum crates result

/-- `DisplayLayout::from_layout`: 37 bytes for an uncompressed key, 38 with the compression
marker `1` before the checksum; the checksum, then the network byte, are checked. -/
def fromLayout (data : List UInt8) : Except Error Private :=
  if h : data.length = 37 ∨ data.length = 38 then
    let compressed := data.length == 38
    if compressed && data[data.length - 5] != 1 then .error .invalidPrivate
    else if data.drop (data.length - 4) ≠ checksum crates (data.take (data.length - 4)) then
      .error .invalidChecksum
    else
      let secret := sliceArray data 1 32 (by omega)
      match data[0] with
      | 128 => .ok ⟨.mainnet, secret, compressed⟩
      | 239 => .ok ⟨.testnet, secret, compressed⟩
      | _ => .error .invalidPrivate
  else .error .invalidPrivate

/-- `Private::sign`: the DER signature of a 32-byte message; the secret must be one that
secp256k1 accepts. -/
def sign (p : Private) (message : H256) : Except Error (List UInt8) :=
  if crates.isValidSecret p.secret then
    match crates.signDer message p.secret with
    | some signature => .ok signature
    | none => .error .invalidSignature
  else .error .invalidSecret

/-- **Reading a private key's layout gives the key back.**

**Proof sketch.** The length fixes the compression flag, the marker byte is where the layout
put it, the last four bytes are the checksum of the others by construction, and the network
byte and the secret are read where they were written. -/
theorem fromLayout_layout (p : Private) : fromLayout crates (p.layout crates) = .ok p := by
  obtain ⟨network, secret, compressed⟩ := p
  -- the compressed layout has one byte after the secret; reading up to it takes the secret whole
  have htake : secret.toList.take 33 = secret.toList := List.take_of_length_le (by simp)
  have hdrop : secret.toList.drop 33 = [] := List.drop_of_length_le (by simp)
  cases network <;> cases compressed <;>
    simp [fromLayout, layout, networkByte, List.take_append, List.drop_append, htake, hdrop]

end Private

/-! ## Public keys and key pairs -/

/-- `keys::Public`: an uncompressed or a compressed point. -/
inductive Public
  | normal (bytes : Vector UInt8 65)
  | compressed (bytes : Vector UInt8 33)
  deriving DecidableEq, Repr

/-- `Deref for Public`: the point's bytes. -/
def Public.toBytes : Public → List UInt8
  | .normal bytes => bytes.toList
  | .compressed bytes => bytes.toList

/-- `Public::address_hash`: `dhash160` of the point. -/
def Public.addressHash (p : Public) : Vector UInt8 20 := dhash160 crates p.toBytes

/-- `keys::KeyPair`; the source's fields `private` and `public`. -/
structure KeyPair where
  privateKey : Private
  publicKey : Public
  deriving DecidableEq, Repr

namespace KeyPair

/-- The public key secp256k1 derives from a secret, in the compressed form or not. -/
def publicOf (secret : Vector UInt8 32) (compressed : Bool) : Public :=
  let serialized := crates.serializePublic secret compressed
  if hc : compressed then
    .compressed (sliceArray serialized 0 33 (by simp [serialized, crates.length_serializePublic, hc]))
  else
    .normal (sliceArray serialized 0 65 (by simp [serialized, crates.length_serializePublic, hc]))

/-- `KeyPair::from_private`: the secret must be one secp256k1 accepts; the public key is
serialized in the private key's form. -/
def fromPrivate (p : Private) : Except Error KeyPair :=
  if crates.isValidSecret p.secret then .ok ⟨p, publicOf crates p.secret p.compressed⟩
  else .error .invalidSecret

/-- `KeyPair::from_keypair` of a pair drawn by secp256k1: an uncompressed private key on the
network, and the uncompressed public key of the secret. -/
def fromKeypair (sec : crates.SecretKey) (network : Network) : KeyPair :=
  ⟨⟨network, sec.1, false⟩, publicOf crates sec.1 false⟩

/-- `KeyPair::address`: the P2PKH address of the public key on the private key's network. -/
def address (kp : KeyPair) : Address :=
  ⟨.p2pkh, kp.privateKey.network, kp.publicKey.addressHash crates⟩

end KeyPair

/-- `generator::Random::generate`: `none` when `OsRng::new` fails, and otherwise the secret
that `generate_keypair` drew. -/
def Random.generate (network : Network) (draw : Option crates.SecretKey) : Except Error KeyPair :=
  match draw with
  | none => .error .failedKeyGeneration
  | some sec => .ok (KeyPair.fromKeypair crates sec network)

end Keystore.Btc

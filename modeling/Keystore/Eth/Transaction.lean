import Keystore.Crates
import Keystore.Rust.Core
import Keystore.Lib.Rlp

/-!
# `ethkey` and `ethcore-transaction`: Ethereum keys, signatures and transactions

The vendored parity-ethereum crates the keystore signs with. A key pair is a 32-byte secret and
the 64 bytes of its uncompressed public point; its address is the last 20 bytes of the
Keccak-256 of the public key. A transaction is signed over the Keccak-256 of its RLP, with the
chain id and two zeros appended when there is one (EIP-155). The signature's recovery id is
stored as `v`, shifted by `35 + 2 · chain id`, or by `27` without a chain id. The signed
transaction is written as the RLP list of its six fields and `v`, `r`, `s`; the decoder reads
`v` back and recovers the chain id and the recovery id from it.

## Main definitions

* `Keystore.Eth.RlpCrate` — the functions of the `rlp` crate the code calls, with their laws
  `RlpCrate.Lawful`; `RlpCrate.reference` meets them with the reference implementation.
* `Keystore.Eth.Secp256k1Recoverable` — the recoverable signing and recovery of secp256k1.
* `Keystore.Eth.KeyPair.fromSecret`, `.address`, `Keystore.Eth.Random.generate`.
* `Keystore.Eth.sign`, `Keystore.Eth.recover` — `ethkey::sign` and `ethkey::recover`.
* `Keystore.Eth.Transaction`, with `rlpAppendUnsignedTransaction`, `hash`, `withSignature`
  and `sign`; `Keystore.Eth.UnverifiedTransaction`, with `rlpItem`, `chainId`,
  `recoverPublic` and `decode`; `Keystore.Eth.SignedTransaction.new`.
* `Keystore.Eth.decodeTransaction` — `decode_transaction` of an `ethcore` machine.

## Main results

* `Keystore.Eth.UnverifiedTransaction.decode_rlpItem` — `Decodable for UnverifiedTransaction`
  reads back every sealed transaction from its RLP.
* `Keystore.Eth.decodeTransaction_encode` — a node reads a sealed transaction back from the
  bytes of its RLP, within its size limit.
* `Keystore.Eth.Transaction.chainId_sign` — a transaction signed with recovery id `0` or `1`
  reads back the chain id it was signed for, none or one from `1` on.
* `Keystore.Eth.Transaction.sign_chainId_zero` — signing for the chain id `0` panics.

## Design

`U256` is `Fin (2 ^ 256)`, so that a decoded number is in range by its type. The `rlp` crate
(0.2.4, from crates.io) is not in the repository: an item is the tree of `Rlp.Item`, and the
crate's encoder, decoder and the `Decodable` impls of the field types are a parameter whose
laws say that it reads back what it writes. The cached hash of an `UnverifiedTransaction` is
left out: nothing the keystore calls reads it. A function of the crates that returns a
`Result` is an `Option`; an `expect` on it is a panic, `none`.
-/

set_option autoImplicit false

namespace Keystore.Eth

open Rust

/-- `ethereum_types::U256`. -/
abbrev U256 := Fin (2 ^ 256)

instance neZero_two_pow_256 : NeZero (2 ^ 256 : ℕ) := ⟨by norm_num⟩

/-- `ethereum_types::H160`, which `ethkey` calls `Address`. -/
abbrev Address := Vector UInt8 20

/-- `ethereum_types::H256`: a `Secret`, or a `Message` to sign. -/
abbrev H256 := Vector UInt8 32

/-- `ethkey::Public`: the uncompressed point without its leading `04`. -/
abbrev Public := Vector UInt8 64

theorem two_pow_256 : (2 : ℕ) ^ 256 = 256 ^ 32 := by norm_num

/-- `U256::from(&[u8])` on 32 bytes: big-endian. -/
def u256OfH256 (h : H256) : U256 :=
  ⟨Rlp.natOfBytes h.toList, by simpa [two_pow_256] using Rlp.natOfBytes_lt h.toList⟩

/-- `H256::from(U256)`: the 32 big-endian bytes. -/
def h256OfU256 (u : U256) : H256 :=
  ⟨(Rlp.fixedBytes 32 u.val).toArray, by
    simpa using Rlp.length_fixedBytes (by simp : u.val < 256 ^ 32)⟩

/-- Thirty-two bytes read as a `U256` and written back are themselves. -/
@[simp] theorem h256OfU256_u256OfH256 (h : H256) : h256OfU256 (u256OfH256 h) = h := by
  apply Vector.toList_inj.mp
  have hround := Rlp.fixedBytes_natOfBytes h.toList
  rw [Vector.length_toList] at hround
  simp [h256OfU256, u256OfH256, hround]

/-- The secp256k1 calls of `ethkey::sign` and `ethkey::recover`, besides those in `Crates`. -/
structure Secp256k1Recoverable where
  /-- `sign_recoverable` of a message with a secret that secp256k1 accepts, then
  `serialize_compact`: `r ‖ s`, and the recovery id, `0` to `3`. -/
  signRecoverable : H256 → H256 → Vector UInt8 64 × Fin 4
  /-- `recover` of the public key from a message, `r ‖ s` and a recovery id; `none` is an
  error of the library. -/
  recover : H256 → Vector UInt8 64 × Fin 4 → Option Public
  /-- An ECDSA signature has `r ≠ 0`. -/
  r_ne_zero : ∀ secret message,
    Rlp.natOfBytes ((signRecoverable secret message).1.toList.take 32) ≠ 0

/-- A signer that signs every message with `r = s = 0x0101…01` and the recovery id `0`, and
recovers the zero key: the model can be run with it. -/
def Secp256k1Recoverable.ones : Secp256k1Recoverable where
  signRecoverable _ _ := (Vector.replicate 64 1, 0)
  recover _ _ := some (Vector.replicate 64 0)
  r_ne_zero _ _ := by decide

theorem Secp256k1Recoverable.ones_recoveryId (secret message : H256) :
    (ones.signRecoverable secret message).2.val < 2 := by
  simp [ones]

/-! ## The `rlp` crate -/

/-- The functions of the `rlp` crate (0.2.4, from crates.io) that `ethcore-transaction` and
`ethcore` call. An RLP value in bytes is seen as the item it encodes. -/
structure RlpCrate where
  /-- `rlp::encode`, or `RlpStream::out` after appending one item: the item's bytes. -/
  encode : Rlp.Item → List UInt8
  /-- `Rlp::new` over bytes, as the item they encode; `none` is a `DecoderError` from reading
  it. -/
  decode : List UInt8 → Option Rlp.Item
  /-- `Rlp::is_empty`. -/
  isEmpty : Rlp.Item → Bool
  /-- `Decodable for U256`. -/
  decodeU256 : Rlp.Item → Option U256
  /-- `Decodable for u64`. -/
  decodeU64 : Rlp.Item → Option UInt64
  /-- `Decodable for Vec<u8>`. -/
  decodeBytes : Rlp.Item → Option (List UInt8)
  /-- `Decodable for H160`. -/
  decodeAddress : Rlp.Item → Option Address

/-- What the proofs take of the `rlp` crate: it reads back what it writes. Bytes decode to
the item they encode, for an encoding shorter than `2 ^ 64` bytes (the most a header frames);
a number reads back from its string of big-endian bytes, a byte string from itself, and an
address from its 20 bytes; the empty string is empty, and 20 bytes are not. -/
structure RlpCrate.Lawful (rlp : RlpCrate) : Prop where
  decode_encode : ∀ item, (rlp.encode item).length < 2 ^ 64 → rlp.decode (rlp.encode item) = some item
  isEmpty_nil : rlp.isEmpty (.bytes []) = true
  isEmpty_address : ∀ address : Address, rlp.isEmpty (.bytes address.toList) = false
  decodeU256_uint : ∀ u : U256, rlp.decodeU256 (Rlp.uint u.val) = some u
  decodeU64_uint : ∀ v : UInt64, rlp.decodeU64 (Rlp.uint v.toNat) = some v
  decodeBytes_bytes : ∀ data, rlp.decodeBytes (.bytes data) = some data
  decodeAddress_bytes : ∀ address : Address, rlp.decodeAddress (.bytes address.toList) = some address

/-- The reference implementation of the format in `Rlp`: the model can be run with it. -/
def RlpCrate.reference : RlpCrate where
  encode := Rlp.encode
  decode := Rlp.decode
  isEmpty
    | .bytes data => data.isEmpty
    | .list items => items.isEmpty
  decodeU256 item := (item.toNat? 32).map (Fin.ofNat (2 ^ 256))
  decodeU64 item := (item.toNat? 8).map UInt64.ofNat
  decodeBytes := Rlp.Item.toBytes?
  decodeAddress item := item.toBytes?.bind fun data =>
    if h : data.toArray.size = 20 then some ⟨data.toArray, h⟩ else none

theorem RlpCrate.reference_lawful : reference.Lawful where
  decode_encode _ hlen := Rlp.decode_encode hlen
  isEmpty_nil := rfl
  isEmpty_address address := by simp [reference]
  decodeU256_uint u := by
    have h : u.val < 256 ^ 32 := by simp
    simp [reference, Rlp.toNat?_uint h]
  decodeU64_uint v := by
    have h : v.toNat < 256 ^ 8 := by have := v.toNat_lt; norm_num at this ⊢; omega
    simp [reference, Rlp.toNat?_uint h]
  decodeBytes_bytes _ := rfl
  decodeAddress_bytes address := by simp [reference, Rlp.Item.toBytes?, Vector.toList]

variable (crates : Crates) (secp : Secp256k1Recoverable) (rlp : RlpCrate)

/-! ## Keys -/

/-- `Secret::from_slice`: any 32 bytes. -/
def Secret.fromSlice (key : List UInt8) : Option H256 :=
  if h : key.toArray.size = 32 then some ⟨key.toArray, h⟩ else none

@[simp] theorem Secret.fromSlice_toList (secret : H256) :
    Secret.fromSlice secret.toList = some secret := by
  simp [Secret.fromSlice, Vector.toList]

/-- `FromStr for H160`: hex of exactly 20 bytes. -/
def H160.fromStr (s : String) : Option Address :=
  match crates.fromHex s with
  | some bytes => if h : bytes.length = 20 then some ⟨bytes.toArray, by rw [List.size_toArray]; exact h⟩ else none
  | none => none

/-- `public_to_address`: the last 20 bytes of the Keccak-256 of the public key. -/
def publicToAddress (publicKey : Public) : Address :=
  sliceArray (crates.keccak256 publicKey.toList).toList 12 20 (by simp)

/-- The public key secp256k1 derives from a secret: `serialize_vec(false)[1..65]`. -/
def publicOf (secret : H256) : Public :=
  sliceArray (crates.serializePublic secret false) 1 64 (by simp [crates.length_serializePublic])

/-- `ethkey::KeyPair`; the source's field `public`. -/
structure KeyPair where
  secret : H256
  publicKey : Public
  deriving DecidableEq, Repr

/-- `KeyPair::from_secret`: the secret must be one secp256k1 accepts. -/
def KeyPair.fromSecret (secret : H256) : Option KeyPair :=
  if crates.isValidSecret secret then some ⟨secret, publicOf crates secret⟩ else none

/-- `KeyPair::from_keypair` of a pair drawn by secp256k1. -/
def KeyPair.fromKeypair (sec : crates.SecretKey) : KeyPair := ⟨sec.1, publicOf crates sec.1⟩

/-- `KeyPair::address`. -/
def KeyPair.address (kp : KeyPair) : Address := publicToAddress crates kp.publicKey

/-- `Random::generate`: `none` when `OsRng::new` fails, and otherwise the pair of the secret
that `generate_keypair` drew. -/
def Random.generate (draw : Option crates.SecretKey) : Option KeyPair :=
  draw.map (KeyPair.fromKeypair crates)

/-- Deriving the key pair of a generated secret gives the generated pair. -/
theorem KeyPair.fromSecret_fromKeypair (sec : crates.SecretKey) :
    fromSecret crates (fromKeypair crates sec).secret = some (fromKeypair crates sec) := by
  simp [fromSecret, fromKeypair, sec.2]

/-! ## Signatures -/

/-- `ethkey::Signature`: `r ‖ s ‖ v`. -/
abbrev Signature := Vector UInt8 65

/-- `Signature::r`. -/
def Signature.r (sig : Signature) : H256 := sliceArray sig.toList 0 32 (by simp)

/-- `Signature::s`. -/
def Signature.s (sig : Signature) : H256 := sliceArray sig.toList 32 32 (by simp)

/-- `Signature::v`, the recovery byte. -/
def Signature.v (sig : Signature) : UInt8 := sig[64]

/-- `Signature::from_rsv`. -/
def Signature.fromRsv (r s : H256) (v : UInt8) : Signature := r ++ s ++ #v[v]

/-- `ethkey::sign`: `SecretKey::from_slice` checks the secret, and the recovery id is the
last byte. -/
def sign (secret message : H256) : Option Signature :=
  if crates.isValidSecret secret then
    let signature := secp.signRecoverable secret message
    some (signature.1.push (UInt8.ofNat signature.2.val))
  else none

/-- `ethkey::recover`: `RecoveryId::from_i32` accepts `0` to `3` only. -/
def recover (signature : Signature) (message : H256) : Option Public :=
  if h : signature.v.toNat < 4 then
    secp.recover message (sliceArray signature.toList 0 64 (by simp), ⟨_, h⟩)
  else none

/-! ## Transactions -/

/-- `ethcore_transaction::Action`. -/
inductive Action
  | create
  | call (address : Address)
  deriving DecidableEq, Repr

/-- `Encodable for Action`: the empty string, or the address. -/
def Action.rlpItem : Action → Rlp.Item
  | .create => .bytes []
  | .call address => .bytes address.toList

/-- `Decodable for Action`: an empty item is `Create`, and otherwise the item is an address. -/
def Action.decode (item : Rlp.Item) : Option Action :=
  if rlp.isEmpty item then some .create else (rlp.decodeAddress item).map .call

/-- `ethcore_transaction::Transaction`. -/
structure Transaction where
  nonce : U256
  gasPrice : U256
  gas : U256
  action : Action
  value : U256
  data : List UInt8
  deriving DecidableEq, Repr

/-- `add_chain_replay_protection`: `v` is shifted by `35 + 2 · n` for the chain id `n`, by
`27` without one. The `u64` arithmetic wraps. -/
def addChainReplayProtection (v : UInt64) (chainId : Option UInt64) : UInt64 :=
  v + match chainId with
    | some n => 35 + n * 2
    | none => 27

/-- `check_replay_protection`: the recovery id a `v` stands for, `4` if none. -/
def checkReplayProtection (v : UInt64) : UInt8 :=
  if v = 27 then 0
  else if v = 28 then 1
  else if v > 36 then ((v - 1) % 2).toUInt8
  else 4

/-! ## Replay protection

A recovery id `b` below `2` is shifted to `v = b + 27` without a chain id, and to
`v = b + 35 + 2 · n` for the chain id `n`. `check_replay_protection` reads `b` back when `v` is
`27`, `28` or above `36`: for every chain id but `0`, whose `v` is `35` or `36`. -/

section ReplayProtection

variable {b : UInt8}

theorem toNat_addChainReplayProtection_none (hb : b.toNat < 2) :
    (addChainReplayProtection b.toUInt64 none).toNat = b.toNat + 27 := by
  simp only [addChainReplayProtection, UInt64.toNat_add, UInt8.toNat_toUInt64]
  simp
  omega

theorem toNat_addChainReplayProtection_some (hb : b.toNat < 2) {n : UInt64}
    (hbound : n.toNat * 2 + 37 < 2 ^ 64) :
    (addChainReplayProtection b.toUInt64 (some n)).toNat = b.toNat + 35 + n.toNat * 2 := by
  simp only [addChainReplayProtection, UInt64.toNat_add, UInt64.toNat_mul, UInt8.toNat_toUInt64]
  simp
  omega

/-- `check_replay_protection` of a `v` from `27` to `36`. -/
theorem checkReplayProtection_of_le {v : UInt64} (hhi : v.toNat ≤ 36) :
    checkReplayProtection v =
      if v.toNat = 27 then 0 else if v.toNat = 28 then 1 else 4 := by
  have h36 : ¬ v > 36 := by
    show ¬ (36 : UInt64) < v
    rw [UInt64.lt_iff_toNat_lt]; simp; omega
  simp only [checkReplayProtection, ← UInt64.toNat_inj, if_neg h36]
  simp

/-- Above `36`, the recovery id is the parity of `v - 1`. -/
theorem checkReplayProtection_of_gt {v : UInt64} (h36 : 36 < v.toNat) :
    (checkReplayProtection v).toNat = (v.toNat - 1) % 2 := by
  have h27 : v ≠ 27 := fun h => by rw [h] at h36; simp at h36
  have h28 : v ≠ 28 := fun h => by rw [h] at h36; simp at h36
  have hgt : v > 36 := by
    show (36 : UInt64) < v
    rw [UInt64.lt_iff_toNat_lt]; simpa using h36
  have h1 : (1 : UInt64) ≤ v := by rw [UInt64.le_iff_toNat_le]; simp; omega
  rw [checkReplayProtection, if_neg h27, if_neg h28, if_pos hgt, UInt64.toNat_toUInt8,
    UInt64.toNat_mod, UInt64.toNat_sub_of_le _ _ h1]
  simp
  omega

/-- Without a chain id, the recovery id reads back. -/
theorem checkReplayProtection_none (hb : b.toNat < 2) :
    checkReplayProtection (addChainReplayProtection b.toUInt64 none) = b := by
  have hv := toNat_addChainReplayProtection_none hb
  rw [checkReplayProtection_of_le (by omega), hv]
  apply UInt8.toNat_inj.mp
  split_ifs <;> simp <;> omega

/-- For a chain id from `1` on, the recovery id reads back. -/
theorem checkReplayProtection_some (hb : b.toNat < 2) {n : UInt64} (hn : 1 ≤ n.toNat)
    (hbound : n.toNat * 2 + 37 < 2 ^ 64) :
    checkReplayProtection (addChainReplayProtection b.toUInt64 (some n)) = b := by
  have hv := toNat_addChainReplayProtection_some hb hbound
  apply UInt8.toNat_inj.mp
  rw [checkReplayProtection_of_gt (by omega), hv]
  omega

/-- Without a chain id, `v` is not above `36`. -/
theorem not_gt_addChainReplayProtection_none (hb : b.toNat < 2) :
    ¬ addChainReplayProtection b.toUInt64 none > 36 := by
  have hv := toNat_addChainReplayProtection_none hb
  show ¬ (36 : UInt64) < _
  rw [UInt64.lt_iff_toNat_lt, hv]
  simp
  omega

/-- For a chain id from `1` on, `v` is above `36`, and the chain id reads back from it. -/
theorem chainId_addChainReplayProtection_some (hb : b.toNat < 2) {n : UInt64}
    (hn : 1 ≤ n.toNat) (hbound : n.toNat * 2 + 37 < 2 ^ 64) :
    addChainReplayProtection b.toUInt64 (some n) > 36 ∧
      (addChainReplayProtection b.toUInt64 (some n) - 35) / 2 = n := by
  have hv := toNat_addChainReplayProtection_some hb hbound
  have h35 : (35 : UInt64) ≤ addChainReplayProtection b.toUInt64 (some n) := by
    rw [UInt64.le_iff_toNat_le, hv]; simp; omega
  refine ⟨?_, ?_⟩
  · show (36 : UInt64) < _
    rw [UInt64.lt_iff_toNat_lt, hv]; simp; omega
  · apply UInt64.toNat_inj.mp
    rw [UInt64.toNat_div, UInt64.toNat_sub_of_le _ _ h35, hv]
    simp
    omega

/-- **For the chain id `0`, no recovery id reads back.** `v` is `35` or `36`. -/
theorem checkReplayProtection_zero (hb : b.toNat < 2) :
    checkReplayProtection (addChainReplayProtection b.toUInt64 (some 0)) = 4 := by
  have hv := @toNat_addChainReplayProtection_some b hb 0 (by simp)
  simp only [UInt64.toNat_zero, Nat.zero_mul, Nat.add_zero] at hv
  rw [checkReplayProtection_of_le (by omega), hv, if_neg (by omega), if_neg (by omega)]

end ReplayProtection

namespace Transaction

/-- `rlp_append_unsigned_transaction`: the six fields, then the chain id and two zeros. -/
def rlpAppendUnsignedTransaction (tx : Transaction) (chainId : Option UInt64) : Rlp.Item :=
  .list ([Rlp.uint tx.nonce.val, Rlp.uint tx.gasPrice.val, Rlp.uint tx.gas.val, tx.action.rlpItem,
    Rlp.uint tx.value.val, .bytes tx.data] ++
    match chainId with
    | some n => [Rlp.uint n.toNat, Rlp.uint 0, Rlp.uint 0]
    | none => [])

/-- `Transaction::hash`: the Keccak-256 of that RLP. -/
def hash (tx : Transaction) (chainId : Option UInt64) : H256 :=
  crates.keccak256 (rlp.encode (tx.rlpAppendUnsignedTransaction chainId))

end Transaction

/-- `UnverifiedTransaction`, without its cached hash. -/
structure UnverifiedTransaction where
  unsigned : Transaction
  v : UInt64
  r : U256
  s : U256
  deriving DecidableEq, Repr

/-- `Transaction::with_signature`. -/
def Transaction.withSignature (tx : Transaction) (sig : Signature) (chainId : Option UInt64) :
    UnverifiedTransaction :=
  ⟨tx, addChainReplayProtection sig.v.toUInt64 chainId, u256OfH256 sig.r, u256OfH256 sig.s⟩

namespace UnverifiedTransaction

/-- `is_unsigned`: `r` and `s` are zero. -/
def isUnsigned (utx : UnverifiedTransaction) : Bool := utx.r = 0 && utx.s = 0

/-- `chain_id`: `v` itself for an unsigned transaction, the chain id `v` was shifted by when
it is above `36`, and none otherwise. -/
def chainId (utx : UnverifiedTransaction) : Option UInt64 :=
  if utx.isUnsigned then some utx.v
  else if utx.v > 36 then some ((utx.v - 35) / 2)
  else none

/-- `standard_v`. -/
def standardV (utx : UnverifiedTransaction) : UInt8 := checkReplayProtection utx.v

/-- `signature`. -/
def signature (utx : UnverifiedTransaction) : Signature :=
  Signature.fromRsv (h256OfU256 utx.r) (h256OfU256 utx.s) utx.standardV

/-- `recover_public`: the public key, from the signature and the hash for the chain id read
off `v`. -/
def recoverPublic (utx : UnverifiedTransaction) : Option Public :=
  recover secp utx.signature (utx.unsigned.hash crates rlp utx.chainId)

/-- `rlp_append_sealed_transaction`: the six fields, then `v`, `r` and `s`. -/
def rlpItem (utx : UnverifiedTransaction) : Rlp.Item :=
  .list [Rlp.uint utx.unsigned.nonce.val, Rlp.uint utx.unsigned.gasPrice.val,
    Rlp.uint utx.unsigned.gas.val, utx.unsigned.action.rlpItem, Rlp.uint utx.unsigned.value.val,
    .bytes utx.unsigned.data, Rlp.uint utx.v.toNat, Rlp.uint utx.r.val, Rlp.uint utx.s.val]

/-- `Decodable for UnverifiedTransaction`: a list of nine items, read in order. -/
def decode : Rlp.Item → Option UnverifiedTransaction
  | .list [nonce, gasPrice, gas, action, value, data, v, r, s] => do
    let unsigned : Transaction := ⟨← rlp.decodeU256 nonce, ← rlp.decodeU256 gasPrice,
      ← rlp.decodeU256 gas, ← Action.decode rlp action, ← rlp.decodeU256 value,
      ← rlp.decodeBytes data⟩
    pure ⟨unsigned, ← rlp.decodeU64 v, ← rlp.decodeU256 r, ← rlp.decodeU256 s⟩
  | _ => none

section Lawful

variable {rlp} (hrlp : rlp.Lawful)
include hrlp

theorem decode_rlpItem_action (action : Action) :
    Action.decode rlp action.rlpItem = some action := by
  cases action with
  | create => simp [Action.rlpItem, Action.decode, hrlp.isEmpty_nil]
  | call address =>
    simp [Action.rlpItem, Action.decode, hrlp.isEmpty_address, hrlp.decodeAddress_bytes]

/-- **The RLP of a sealed transaction reads back.** `Decodable for UnverifiedTransaction`
inverts `rlp_append_sealed_transaction`: each field is written as what the crate's decoder of
its type reads back. -/
theorem decode_rlpItem (utx : UnverifiedTransaction) : decode rlp utx.rlpItem = some utx := by
  obtain ⟨⟨nonce, gasPrice, gas, action, value, data⟩, v, r, s⟩ := utx
  simp [rlpItem, decode, hrlp.decodeU256_uint, hrlp.decodeU64_uint, hrlp.decodeBytes_bytes,
    decode_rlpItem_action hrlp]

end Lawful

end UnverifiedTransaction

/-! ## Decoding at a node -/

/-- The errors of `transaction::Error` that `decode_transaction` returns; the text of the RLP
error is the crate's and is left out. -/
inductive DecodeError
  | tooBig
  | invalidRlp
  deriving DecidableEq, Repr

/-- `EthereumMachine::decode_transaction` (in `ethcore`): bytes beyond the chain's
`max_transaction_size` are too big; others are read as the RLP of a sealed transaction. -/
def decodeTransaction (maxTransactionSize : UInt64) (transaction : List UInt8) :
    Except DecodeError UnverifiedTransaction :=
  if transaction.length > maxTransactionSize.toNat then .error .tooBig
  else
    match (rlp.decode transaction).bind (UnverifiedTransaction.decode rlp) with
    | some utx => .ok utx
    | none => .error .invalidRlp

/-- **A node reads a sealed transaction back.** The RLP of a sealed transaction, within the
node's size limit, decodes to it. -/
theorem decodeTransaction_encode {rlp : RlpCrate} (hrlp : rlp.Lawful)
    (utx : UnverifiedTransaction) {maxTransactionSize : UInt64}
    (hsize : (rlp.encode utx.rlpItem).length ≤ maxTransactionSize.toNat) :
    decodeTransaction rlp maxTransactionSize (rlp.encode utx.rlpItem) = .ok utx := by
  -- a `usize` limit keeps the encoding below `2 ^ 64` bytes, where the crate's round trip holds
  have hlen : (rlp.encode utx.rlpItem).length < 2 ^ 64 :=
    lt_of_le_of_lt hsize maxTransactionSize.toNat_lt
  rw [decodeTransaction, if_neg (by omega), hrlp.decode_encode _ hlen, Option.bind_some,
    UnverifiedTransaction.decode_rlpItem hrlp]

/-- `UNSIGNED_SENDER`. -/
def unsignedSender : Address := Vector.replicate 20 0xff

/-- `SignedTransaction`; the source's field `public`. -/
structure SignedTransaction where
  transaction : UnverifiedTransaction
  sender : Address
  publicKey : Option Public
  deriving DecidableEq, Repr

/-- `SignedTransaction::new`: an unsigned transaction has the unsigned sender; otherwise the
public key must be recovered. -/
def SignedTransaction.new (utx : UnverifiedTransaction) : Option SignedTransaction :=
  if utx.isUnsigned then some ⟨utx, unsignedSender, none⟩
  else (utx.recoverPublic crates secp rlp).map fun publicKey =>
    ⟨utx, publicToAddress crates publicKey, some publicKey⟩

/-- `Transaction::sign`: both `expect`s are panics. -/
def Transaction.sign (tx : Transaction) (secret : H256) (chainId : Option UInt64) :
    Option SignedTransaction := do
  let sig ← Eth.sign crates secp secret (tx.hash crates rlp chainId)
  SignedTransaction.new crates secp rlp (tx.withSignature sig chainId)

/-! ## Signing -/

section Signing

variable {secret message : H256}

@[simp] theorem v_push (rs : Vector UInt8 64) (b : UInt8) : Signature.v (rs.push b) = b := by
  simp [Signature.v]

@[simp] theorem v_fromRsv (r s : H256) (v : UInt8) : (Signature.fromRsv r s v).v = v := by
  simp [Signature.fromRsv, Signature.v]

theorem val_u256OfH256_r_push (rs : Vector UInt8 64) (b : UInt8) :
    (u256OfH256 (Signature.r (rs.push b))).val = Rlp.natOfBytes (rs.toList.take 32) := by
  have htake : (rs.toList ++ [b]).take 32 = rs.toList.take 32 :=
    List.take_append_of_le_length (by simp)
  simp [u256OfH256, Signature.r, Vector.toList_push, htake]

/-- The signature `ethkey::sign` makes: `r ‖ s` and the recovery id of secp256k1. -/
theorem sign_eq_some_iff {sig : Signature} :
    sign crates secp secret message = some sig ↔
      crates.isValidSecret secret = true ∧
        sig = (secp.signRecoverable secret message).1.push
          (UInt8.ofNat (secp.signRecoverable secret message).2.val) := by
  unfold sign
  split
  · next hvalid => simp only [Option.some.injEq, hvalid, true_and]; exact eq_comm
  · next hvalid => simp [hvalid]

/-- The recovery byte of a signature of `ethkey::sign` is the recovery id. -/
theorem toNat_v_of_sign {sig : Signature} (h : sign crates secp secret message = some sig) :
    sig.v.toNat = (secp.signRecoverable secret message).2.val := by
  obtain ⟨-, rfl⟩ := (sign_eq_some_iff crates secp).mp h
  have hlt := (secp.signRecoverable secret message).2.isLt
  simp [UInt8.toNat_ofNat']
  omega

/-- A signature of `ethkey::sign` has `r ≠ 0`, so the transaction it signs is not unsigned. -/
theorem isUnsigned_withSignature {sig : Signature} (h : sign crates secp secret message = some sig)
    (tx : Transaction) (chainId : Option UInt64) :
    (tx.withSignature sig chainId).isUnsigned = false := by
  obtain ⟨-, rfl⟩ := (sign_eq_some_iff crates secp).mp h
  have hr : u256OfH256 (Signature.r ((secp.signRecoverable secret message).1.push
      (UInt8.ofNat (secp.signRecoverable secret message).2.val))) ≠ 0 := by
    intro h0
    apply secp.r_ne_zero secret message
    rw [← val_u256OfH256_r_push, h0]
    rfl
  simp [UnverifiedTransaction.isUnsigned, Transaction.withSignature, hr]

/-- What `Transaction::sign` returns: the transaction with the signature of its hash. -/
theorem Transaction.sign_eq_some {tx : Transaction} {chainId : Option UInt64}
    {stx : SignedTransaction} (h : tx.sign crates secp rlp secret chainId = some stx) :
    ∃ sig, Eth.sign crates secp secret (tx.hash crates rlp chainId) = some sig ∧
      stx.transaction = tx.withSignature sig chainId := by
  simp only [Transaction.sign, Option.bind_eq_bind, Option.bind_eq_some_iff] at h
  obtain ⟨sig, hsig, hnew⟩ := h
  refine ⟨sig, hsig, ?_⟩
  -- both branches of `SignedTransaction::new` keep the transaction
  unfold SignedTransaction.new at hnew
  split at hnew
  · cases hnew; rfl
  · obtain ⟨_, -, rfl⟩ := Option.map_eq_some_iff.mp hnew
    rfl

/-- **Signing for the chain id `0` panics.** The recovery id `b` becomes `v = b + 35`, `35` or
`36`, which `check_replay_protection` maps to the invalid recovery id `4`: the public key
cannot be recovered, and the `expect` of `Transaction::sign` panics. This holds whenever the
recovery id is `0` or `1`. -/
theorem Transaction.sign_chainId_zero (tx : Transaction)
    (hrec : (secp.signRecoverable secret (tx.hash crates rlp (some 0))).2.val < 2) :
    tx.sign crates secp rlp secret (some 0) = none := by
  cases hsign : Eth.sign crates secp secret (tx.hash crates rlp (some 0)) with
  | none => simp [Transaction.sign, hsign]
  | some sig =>
    have hv : sig.v.toNat < 2 := by rw [toNat_v_of_sign crates secp hsign]; exact hrec
    -- the recovery byte of the signature read back from `v` is `4`
    have hstandard : (tx.withSignature sig (some 0)).standardV = 4 :=
      checkReplayProtection_zero hv
    have hrecover : (tx.withSignature sig (some 0)).recoverPublic crates secp rlp = none := by
      simp [UnverifiedTransaction.recoverPublic, recover, UnverifiedTransaction.signature,
        hstandard]
    simp [Transaction.sign, hsign, SignedTransaction.new,
      isUnsigned_withSignature crates secp hsign, hrecover]

/-- **The chain id survives signing.** For a recovery id `0` or `1`, and no chain id or one
from `1` on (below `2 ^ 63 - 18`), the signed transaction's `chain_id` is the chain id it was
signed for, and its `standard_v` is the recovery id. -/
theorem Transaction.chainId_sign {tx : Transaction} {chainId : Option UInt64}
    {stx : SignedTransaction} (h : tx.sign crates secp rlp secret chainId = some stx)
    (hrec : (secp.signRecoverable secret (tx.hash crates rlp chainId)).2.val < 2)
    (hchain : ∀ n, chainId = some n → 1 ≤ n.toNat ∧ n.toNat * 2 + 37 < 2 ^ 64) :
    stx.transaction.chainId = chainId ∧
      stx.transaction.standardV = UInt8.ofNat (secp.signRecoverable secret (tx.hash crates rlp chainId)).2.val := by
  obtain ⟨sig, hsign, htx⟩ := Transaction.sign_eq_some crates secp rlp h
  have hunsigned := isUnsigned_withSignature crates secp hsign tx chainId
  have hv : sig.v.toNat < 2 := by rw [toNat_v_of_sign crates secp hsign]; exact hrec
  have hsigv : sig.v = UInt8.ofNat (secp.signRecoverable secret (tx.hash crates rlp chainId)).2.val := by
    apply UInt8.toNat_inj.mp
    rw [toNat_v_of_sign crates secp hsign, UInt8.toNat_ofNat']
    omega
  -- the chain id is read off `v`, above `36` with one and `27` or `28` without
  have hchainId : (tx.withSignature sig chainId).chainId =
      if addChainReplayProtection sig.v.toUInt64 chainId > 36 then
        some ((addChainReplayProtection sig.v.toUInt64 chainId - 35) / 2) else none := by
    rw [UnverifiedTransaction.chainId, if_neg (by rw [hunsigned]; decide)]
    rfl
  have hstandard : (tx.withSignature sig chainId).standardV =
      checkReplayProtection (addChainReplayProtection sig.v.toUInt64 chainId) := rfl
  rw [htx, ← hsigv, hchainId, hstandard]
  cases chainId with
  | none => exact ⟨if_neg (not_gt_addChainReplayProtection_none hv), checkReplayProtection_none hv⟩
  | some n =>
    obtain ⟨hn, hbound⟩ := hchain n rfl
    obtain ⟨hgt, hshift⟩ := chainId_addChainReplayProtection_some hv hn hbound
    exact ⟨by rw [if_pos hgt, hshift], checkReplayProtection_some hv hn hbound⟩

end Signing

end Keystore.Eth

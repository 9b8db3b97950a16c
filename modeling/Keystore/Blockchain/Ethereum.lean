import Keystore.Eth.Transaction
import Keystore.Models.Transaction
import Keystore.Blockchain.Utils

/-!
# `blockchain::ethereum`: signing Ethereum and STQ token transactions

`EthereumService::sign` builds an `ethcore` transaction from the request: for ether, a
transfer of the value to the receiver; for the STQ token, a call to the token contract whose
data is the `transferFrom` method number followed by the sender, the receiver and the value,
each padded to a 32-byte word. `approve` calls the contract's `approve` the same way. The
transaction is signed for the service's chain id and returned as the hex of its RLP.
`derive_address` and `generate_key` write the secret and the address in hex.

## Main definitions

* `Keystore.Blockchain.EthereumService`, with `sign`, `approve`, `deriveAddress` and
  `generateKey`; `privateKeyToSecret`, `serializeAmount`, `serializeAddress`,
  `toPadded32Bytes`.
* `Keystore.Blockchain.abiCall`, `Keystore.Blockchain.abiArg` — call data made of a selector
  and 32-byte words, and the number in one of its words: what a contract reads of the data.
* `Keystore.Blockchain.decodeRawTransaction` — what a node reads of a raw transaction: hex, then
  `decode_transaction`.

## Main results

* `EthereumService.sign_eth_spec`, `.sign_stq_spec`, `.approve_spec` — the raw transaction of a
  successful `sign` or `approve` is the hex of the RLP of a sealed transaction, which a node
  decodes back, for the service's chain id; it transfers the value to the receiver, or calls
  the token contract with the sender, the receiver and the value (or the approved address and
  the value) as the arguments the contract reads. They assume the laws of the `rlp` crate,
  recovery ids `0` or `1`, and a chain id from `1` on that `v` can hold.
* `EthereumService.chainId_zero_signs_nothing` — with the chain id `0` and recovery ids `0` or
  `1`, neither `sign` nor `approve` returns a transaction.
* `EthereumService.deriveAddress_generateKey` — a generated key derives the generated address.

## Design

`usize` is 64 bits. A `Result` that may panic is in `ExceptT Error Option`, as in the Bitcoin
service; `to_padded_32_bytes` panics on more than 32 bytes, where `32 - len` underflows. The
`rlp` crate is a parameter, `Eth.RlpCrate`, and the results that read a raw transaction back
assume its laws. Each of `sign` and `approve` has an equation for its run once its inputs
parse (`sign_eth_eq`, `sign_stq_eq`, `approve_eq`) and an inversion lemma for a run that
returned `Ok`; the results are assembled from them and from `signAndEncode_spec`, which holds
for recovery ids `0` and `1`, the ones secp256k1 gives but for a chance of about `2 ^ -127`;
the two token calls share `signAndEncode_call_spec`. The runs on the source's test data use
the reference RLP and evaluate with `decide`.
-/

set_option autoImplicit false

namespace Keystore

open Rust

/-- `Amount::bytes`: the `u128` as 16 big-endian bytes, `transmute` of `to_be`. -/
def Amount.bytes (a : Amount) : List UInt8 := Rlp.fixedBytes 16 a.inner.val

/-- `Display for Currency`. -/
def Currency.toString : Currency → String
  | .eth => "eth"
  | .stq => "stq"
  | .btc => "btc"

namespace Blockchain

/-! ## Call data -/

/-- Call data with static arguments: the selector, then each argument as a 32-byte
big-endian word. -/
def abiCall (selector : List UInt8) (args : List ℕ) : List UInt8 :=
  selector ++ args.flatMap (Rlp.fixedBytes 32)

/-- The number in the `i`-th word of call data after a selector of `selectorLength` bytes. -/
def abiArg (selectorLength : ℕ) (data : List UInt8) (i : ℕ) : ℕ :=
  Rlp.natOfBytes ((data.drop (selectorLength + 32 * i)).take 32)

/-- The words of numbers below `2 ^ 256` read back as them. -/
theorem abiArg_flatMap {args : List ℕ} (hargs : ∀ a ∈ args, a < 2 ^ 256) {i : ℕ}
    (hi : i < args.length) :
    Rlp.natOfBytes (((args.flatMap (Rlp.fixedBytes 32)).drop (32 * i)).take 32) = args[i] := by
  induction args generalizing i with
  | nil => simp at hi
  | cons a args ih =>
    have hword : (Rlp.fixedBytes 32 a).length = 32 :=
      Rlp.length_fixedBytes (by simpa [Eth.two_pow_256] using hargs a (by simp))
    rw [List.flatMap_cons]
    cases i with
    | zero => simp [hword]
    | succ i =>
      rw [show 32 * (i + 1) = (Rlp.fixedBytes 32 a).length + 32 * i by rw [hword]; ring,
        ← List.drop_drop, List.drop_left]
      exact ih (fun b hb => hargs b (by simp [hb])) (by simpa using hi)

/-- **The arguments of call data read back.** -/
theorem abiArg_abiCall (selector : List UInt8) {args : List ℕ} (hargs : ∀ a ∈ args, a < 2 ^ 256)
    {i : ℕ} (hi : i < args.length) : abiArg selector.length (abiCall selector args) i = args[i] := by
  rw [abiArg, abiCall, ← List.drop_drop, List.drop_left]
  exact abiArg_flatMap hargs hi

/-- The contract reads every argument of the call data back. -/
theorem map_abiArg_abiCall (selector : List UInt8) {args : List ℕ}
    (hargs : ∀ a ∈ args, a < 2 ^ 256) :
    (List.range args.length).map (abiArg selector.length (abiCall selector args)) = args := by
  apply List.ext_getElem (by simp)
  intro i hi _
  rw [List.getElem_map, List.getElem_range]
  exact abiArg_abiCall selector hargs (by simpa using hi)

/-- A number of at most 32 bytes fits a word. -/
theorem natOfBytes_lt_of_length_le {bytes : List UInt8} (h : bytes.length ≤ 32) :
    Rlp.natOfBytes bytes < 2 ^ 256 :=
  calc Rlp.natOfBytes bytes < 256 ^ bytes.length := Rlp.natOfBytes_lt bytes
    _ ≤ 256 ^ 32 := Nat.pow_le_pow_right (by norm_num) h
    _ = 2 ^ 256 := by norm_num

theorem Amount.val_lt_two_pow_256 (value : Amount) : value.inner.val < 2 ^ 256 :=
  lt_trans value.inner.isLt (by norm_num)

/-- The words of a sender, a receiver and a value, as `sign` of STQ writes them, are the
call data of `transferFrom` with them as arguments. -/
theorem transferFrom_data {fromBytes toBytes : List UInt8} (hfrom : fromBytes.length ≤ 32)
    (hto : toBytes.length ≤ 32) (method : List UInt8) (value : Amount) :
    method ++ Rlp.fixedBytes 32 (Rlp.natOfBytes fromBytes) ++
        Rlp.fixedBytes 32 (Rlp.natOfBytes toBytes) ++ Rlp.fixedBytes 32 value.inner.val =
      abiCall method [Rlp.natOfBytes fromBytes, Rlp.natOfBytes toBytes, value.inner.val] ∧
    ∀ a ∈ [Rlp.natOfBytes fromBytes, Rlp.natOfBytes toBytes, value.inner.val], a < 2 ^ 256 := by
  refine ⟨by simp [abiCall], ?_⟩
  intro a ha
  simp only [List.mem_cons, List.not_mem_nil, or_false] at ha
  rcases ha with rfl | rfl | rfl
  · exact natOfBytes_lt_of_length_le hfrom
  · exact natOfBytes_lt_of_length_le hto
  · exact Amount.val_lt_two_pow_256 value

/-- The words of an address and a value, as `approve` writes them, are the call data of
`approve` with them as arguments. -/
theorem approve_data {bytes : List UInt8} (hlen : bytes.length ≤ 32) (method : List UInt8)
    (value : Amount) :
    method ++ Rlp.fixedBytes 32 (Rlp.natOfBytes bytes) ++ Rlp.fixedBytes 32 value.inner.val =
      abiCall method [Rlp.natOfBytes bytes, value.inner.val] ∧
    ∀ a ∈ [Rlp.natOfBytes bytes, value.inner.val], a < 2 ^ 256 := by
  refine ⟨by simp [abiCall], ?_⟩
  intro a ha
  simp only [List.mem_cons, List.not_mem_nil, or_false] at ha
  rcases ha with rfl | rfl
  · exact natOfBytes_lt_of_length_le hlen
  · exact Amount.val_lt_two_pow_256 value

/-! ## What a node reads of a raw transaction -/

/-- What a node reads of a raw transaction: the bytes of its hex, through
`decode_transaction` with the chain's size limit. -/
def decodeRawTransaction (rlp : Eth.RlpCrate) (maxTransactionSize : UInt64) (raw : RawTransaction) :
    Option Eth.UnverifiedTransaction :=
  match hexToBytes raw.inner with
  | .ok bytes => (Eth.decodeTransaction rlp maxTransactionSize bytes).toOption
  | .error _ => none

/-- The hex of the RLP of a sealed transaction, within a node's size limit, decodes to it. -/
theorem decodeRawTransaction_encode {rlp : Eth.RlpCrate} (hrlp : rlp.Lawful)
    (utx : Eth.UnverifiedTransaction) {maxTransactionSize : UInt64}
    (hsize : (rlp.encode utx.rlpItem).length ≤ maxTransactionSize.toNat) :
    decodeRawTransaction rlp maxTransactionSize ⟨bytesToHex (rlp.encode utx.rlpItem)⟩ = some utx := by
  simp only [decodeRawTransaction, hexToBytes_bytesToHex, Eth.decodeTransaction_encode hrlp utx hsize]
  rfl

/-! ## The service -/

/-- `ethereum::EthereumService`. -/
structure EthereumService where
  stqGasLimit : UInt64
  ethGasLimit : UInt64
  stqContractAddress : String
  stqTransferFromMethodNumber : String
  stqApproveMethodNumber : String
  chainId : Option UInt64

/-- `From<u64> for U256`, and `From<usize>`. -/
def u64ToU256 (n : UInt64) : Eth.U256 := ⟨n.toNat, by have := n.toNat_lt; omega⟩

/-- `From<Amount> for U256`, through the decimal string, which keeps the value. -/
def amountToU256 (a : Amount) : Eth.U256 := ⟨a.inner.val, by have := a.inner.isLt; omega⟩

/-- `to_padded_32_bytes`: zeros before the data up to 32 bytes. With more than 32 bytes,
`32 - data.len()` underflows: the program panics, or loops pushing zeros until it aborts. -/
def toPadded32Bytes (data : List UInt8) : Option (List UInt8) :=
  if data.length ≤ 32 then some (List.replicate (32 - data.length) 0 ++ data) else none

/-- `serialize_amount`. -/
def serializeAmount (amount : Amount) : Option (List UInt8) := toPadded32Bytes amount.bytes

theorem toPadded32Bytes_eq_some {data : List UInt8} (h : data.length ≤ 32) :
    toPadded32Bytes data = some (Rlp.fixedBytes 32 (Rlp.natOfBytes data)) := by
  rw [toPadded32Bytes, if_pos h, Rlp.replicate_append_eq_fixedBytes h]

/-- An amount is 16 bytes, so `serialize_amount` never panics: it is the value's word. -/
@[simp] theorem serializeAmount_eq (amount : Amount) :
    serializeAmount amount = some (Rlp.fixedBytes 32 amount.inner.val) := by
  have hlen : amount.bytes.length = 16 :=
    Rlp.length_fixedBytes (by have := amount.inner.isLt; norm_num at this ⊢; omega)
  rw [serializeAmount, toPadded32Bytes_eq_some (by omega), Amount.bytes, Rlp.natOfBytes_fixedBytes]

/-- `serialize_address`: the address from hex, padded. -/
def serializeAddress (address : BlockchainAddress) : ExceptT Error Option (List UInt8) := do
  let data ← hexToBytes address.inner
  toPadded32Bytes data

/-- `private_key_to_secret`: the key from hex, which must be 32 bytes. -/
def privateKeyToSecret (key : PrivateKey) : Except Error Eth.H256 := do
  let hexPk := key.inner
  let malformed : Error := ⟨.invalidPrivateKey (.malformedPrivateKey hexPk), none, none⟩
  let bytes ← (hexToBytes hexPk).mapError fun _ => malformed
  match Eth.Secret.fromSlice bytes with
  | some secret => pure secret
  | none => throw malformed

namespace EthereumService

variable (crates : Crates) (secp : Eth.Secp256k1Recoverable) (rlp : Eth.RlpCrate) (casts : FloatCasts)

/-- `BlockchainService::derive_address for EthereumService`: the address of the key pair of
the secret, in hex. -/
def deriveAddress (_currency : Currency) (key : PrivateKey) : Except Error BlockchainAddress := do
  let secret ← privateKeyToSecret key
  let keypair ← match Eth.KeyPair.fromSecret crates secret with
    | some keypair => pure keypair
    | none => throw ⟨.invalidPrivateKey (.malformedPrivateKey key.inner), none, none⟩
  pure ⟨bytesToHex (keypair.address crates).toList⟩

/-- `BlockchainService::generate_key for EthereumService`: the secret and the address of a
random key pair, in hex. -/
def generateKey (_currency : Currency) (draw : Option crates.SecretKey) :
    Except Error (PrivateKey × BlockchainAddress) := do
  let pair ← match Eth.Random.generate crates draw with
    | some pair => pure pair
    | none => throw ⟨.internal, none, some .random⟩
  pure (⟨bytesToHex pair.secret.toList⟩, ⟨bytesToHex (pair.address crates).toList⟩)

/-- The hex of the RLP of a transaction signed for the service's chain id; the `expect`s of
`Transaction::sign` are panics. -/
def signAndEncode (self : EthereumService) (key : PrivateKey) (tx : Eth.Transaction) :
    ExceptT Error Option RawTransaction := do
  let secret ← privateKeyToSecret key
  let signed ← Eth.Transaction.sign crates secp rlp tx secret self.chainId
  let rawData := rlp.encode signed.transaction.rlpItem
  pure ⟨bytesToHex rawData⟩

/-- `BlockchainService::approve for EthereumService`: a call of the token contract's `approve`
with the approved address and the value. -/
def approve (self : EthereumService) (key : PrivateKey) (input : ApproveInput) :
    ExceptT Error Option RawTransaction := do
  let nonce := u64ToU256 input.nonce
  -- this is generally a big number, so ok to cast to int
  let gasPrice := amountToU256 (Amount.new (casts.toU128 input.feePrice))
  let gas := u64ToU256 self.stqGasLimit
  let txValue : Eth.U256 := 0
  let «to» ← (match Eth.H160.fromStr crates self.stqContractAddress with
    | some «to» => .ok «to»
    | none => .error ⟨.internal, some .malformedStqContractAddress, none⟩ :
      Except Error Eth.Address)
  let action := Eth.Action.call «to»
  let method ← (hexToBytes self.stqApproveMethodNumber).mapError fun _ =>
    (⟨.internal, some .malformedMethodNumber, none⟩ : Error)
  let approveAddress ← ExceptT.adapt (fun _ => (⟨.internal, none, some .serde⟩ : Error))
    (serializeAddress input.approveAddress)
  let value ← serializeAmount input.value
  let data := method ++ approveAddress ++ value
  signAndEncode crates secp rlp self key ⟨nonce, gasPrice, gas, action, txValue, data⟩

/-- `BlockchainService::sign for EthereumService`: the nonce must be given; ether is sent to
the receiver, and STQ by a `transferFrom` call of the token contract; other currencies are
rejected. -/
def sign (self : EthereumService) (key : PrivateKey) (tx : UnsignedTransaction) :
    ExceptT Error Option RawTransaction := do
  let nonce ← (match tx.nonce with
    | some nonce => .ok nonce
    | none => .error ⟨.invalidUnsignedTransaction .missingNonce, none, none⟩ :
      Except Error UInt64)
  let nonce := u64ToU256 nonce
  let gasPrice := amountToU256 (Amount.new (casts.toU128 tx.feePrice))
  let unsupported : Error :=
    ⟨.invalidUnsignedTransaction (.unsupportedCurrency tx.currency.toString), none, none⟩
  let gas ← (match tx.currency with
    | .eth => .ok (u64ToU256 self.ethGasLimit)
    | .stq => .ok (u64ToU256 self.stqGasLimit)
    | .btc => .error unsupported : Except Error Eth.U256)
  let txValue ← (match tx.currency with
    | .eth => .ok (amountToU256 tx.value)
    | .stq => .ok 0
    | .btc => .error unsupported : Except Error Eth.U256)
  let action ← (match tx.currency with
    | .eth => match Eth.H160.fromStr crates tx.«to».inner with
      | some «to» => .ok (.call «to»)
      | none => .error ⟨.invalidUnsignedTransaction (.malformedHexString tx.«to».inner), none, none⟩
    | .stq => match Eth.H160.fromStr crates self.stqContractAddress with
      | some «to» => .ok (.call «to»)
      | none => .error ⟨.internal, some .malformedStqContractAddress, none⟩
    | .btc => .error unsupported : Except Error Eth.Action)
  let data ← (match tx.currency with
    | .eth => pure []
    | .stq => do
      let method ← (hexToBytes self.stqTransferFromMethodNumber).mapError fun _ =>
        (⟨.internal, some .malformedMethodNumber, none⟩ : Error)
      let «from» ← ExceptT.adapt (fun _ =>
          (⟨.invalidUnsignedTransaction (.malformedAddress tx.«from».inner), none, none⟩ : Error))
        (serializeAddress tx.«from»)
      let «to» ← ExceptT.adapt (fun _ =>
          (⟨.invalidUnsignedTransaction (.malformedAddress tx.«to».inner), none, none⟩ : Error))
        (serializeAddress tx.«to»)
      let value ← serializeAmount tx.value
      pure (method ++ «from» ++ «to» ++ value)
    | .btc => throw unsupported : ExceptT Error Option (List UInt8))
  signAndEncode crates secp rlp self key ⟨nonce, gasPrice, gas, action, txValue, data⟩

/-! ## The service of the source's tests

The service, key and requests of `test_sign` and `test_approve`. Runs of the model on them use
`Crates.zero`, `Secp256k1Recoverable.ones` and `RlpCrate.reference`, so their signatures are
not secp256k1's. The source's expected raw transactions are left out: their signatures cannot
be computed here, and the one of the Ether case encodes the STQ gas limit `100000`. -/

/-- The service of `test_sign` and `test_approve`. -/
def testService : EthereumService :=
  ⟨100000, 21000, "1bf2092a42166b2ae19b7b23752e7d2dab5ba91a", "23b872dd", "095ea7b3", some 42⟩

def testKey : PrivateKey := ⟨"b3c0e85a511cc6d21423a386de29dcf2cda6b2f2fa5ebb47948401bbb90458db"⟩

/-- The bytes of `testKey`. -/
def testSecret : Eth.H256 :=
  ⟨#[0xb3, 0xc0, 0xe8, 0x5a, 0x51, 0x1c, 0xc6, 0xd2, 0x14, 0x23, 0xa3, 0x86, 0xde, 0x29, 0xdc, 0xf2,
    0xcd, 0xa6, 0xb2, 0xf2, 0xfa, 0x5e, 0xbb, 0x47, 0x94, 0x84, 0x01, 0xbb, 0xb9, 0x04, 0x58, 0xdb], rfl⟩

/-- The Ether case of `test_sign`. -/
def testTransfer : UnsignedTransaction :=
  ⟨⟨⟨0⟩⟩, ⟨"B3683B4DE1fc502807464B55d151e8e2D2c19cb5"⟩, ⟨"00d44DD2f6a2d2005326Db58eC5137204C5Cba5A"⟩,
    .eth, Amount.new 25000000000000000000, 30000000000.0, some 0, none⟩

/-- The STQ case of `test_sign`. -/
def testStqTransfer : UnsignedTransaction := { testTransfer with currency := .stq }

/-- The request of `test_approve`. -/
def testApproval : ApproveInput :=
  ⟨⟨⟨0⟩⟩, ⟨"B3683B4DE1fc502807464B55d151e8e2D2c19cb5"⟩, ⟨"00d44DD2f6a2d2005326Db58eC5137204C5Cba5A"⟩,
    .stq, Amount.new 25000000000000000000, 30000000000.0, 0⟩

/-- The bytes of the sender and the receiver of the tests. -/
def testFrom : List UInt8 :=
  [0xb3, 0x68, 0x3b, 0x4d, 0xe1, 0xfc, 0x50, 0x28, 0x07, 0x46, 0x4b, 0x55, 0xd1, 0x51, 0xe8, 0xe2,
    0xd2, 0xc1, 0x9c, 0xb5]

def testTo : List UInt8 :=
  [0x00, 0xd4, 0x4d, 0xd2, 0xf6, 0xa2, 0xd2, 0x00, 0x53, 0x26, 0xdb, 0x58, 0xec, 0x51, 0x37, 0x20,
    0x4c, 0x5c, 0xba, 0x5a]

/-- What `Secp256k1Recoverable.ones` signs a transaction as, for the chain id `42`:
`v = 0 + 35 + 2 · 42`. -/
def testSealed (tx : Eth.Transaction) : Eth.UnverifiedTransaction :=
  ⟨tx, 119, Eth.u256OfH256 (Vector.replicate 32 1), Eth.u256OfH256 (Vector.replicate 32 1)⟩

def testSigned (tx : Eth.Transaction) : Eth.SignedTransaction :=
  ⟨testSealed tx, Vector.replicate 20 0, some (Vector.replicate 64 0)⟩

/-- The raw transaction of `testSealed tx`, in the reference RLP. -/
def testRaw (tx : Eth.Transaction) : RawTransaction :=
  ⟨bytesToHex (Eth.RlpCrate.reference.encode (testSealed tx).rlpItem)⟩

theorem privateKeyToSecret_testKey : privateKeyToSecret testKey = .ok testSecret := by
  decide

theorem hexToBytes_testFrom : hexToBytes testTransfer.«from».inner = .ok testFrom := by
  decide

theorem hexToBytes_testTo : hexToBytes testTransfer.«to».inner = .ok testTo := by
  decide

theorem hexToBytes_transferFromMethod :
    hexToBytes testService.stqTransferFromMethodNumber = .ok [0x23, 0xb8, 0x72, 0xdd] := by
  decide

theorem hexToBytes_approveMethod :
    hexToBytes testService.stqApproveMethodNumber = .ok [0x09, 0x5e, 0xa7, 0xb3] := by
  decide

/-- `Crates.zero` reads any 40 hex digits as the zero address. -/
theorem fromStr_testContract :
    Eth.H160.fromStr Crates.zero testService.stqContractAddress = some (Vector.replicate 20 0) := by
  decide

theorem fromStr_testReceiver :
    Eth.H160.fromStr Crates.zero testTransfer.«to».inner = some (Vector.replicate 20 0) := by
  decide

theorem testService_chainId :
    ∀ n, testService.chainId = some n → 1 ≤ n.toNat ∧ n.toNat * 2 + 37 < 2 ^ 64 := by
  intro n hn
  obtain rfl := (Option.some.inj hn).symm
  decide

/-! ## Successful runs -/

section Runs

variable {crates secp rlp casts} {self : EthereumService} {key : PrivateKey} {raw : RawTransaction}

/-- A padded address is the word of the number its hex holds, of at most 32 bytes. -/
theorem serializeAddress_eq_ok {address : BlockchainAddress} {word : List UInt8}
    (h : (serializeAddress address).run = some (.ok word)) :
    ∃ data, hexToBytes address.inner = .ok data ∧ data.length ≤ 32 ∧
      word = Rlp.fixedBytes 32 (Rlp.natOfBytes data) := by
  simp only [serializeAddress, run_bind_eq_ok, run_liftExcept_eq_ok, run_liftOption_eq_ok] at h
  obtain ⟨data, hdata, hpad⟩ := h
  by_cases hlen : data.length ≤ 32
  · rw [toPadded32Bytes_eq_some hlen, Option.some.injEq] at hpad
    exact ⟨data, hdata, hlen, hpad.symm⟩
  · simp [toPadded32Bytes, hlen] at hpad

theorem serializeAddress_eq {address : BlockchainAddress} {data : List UInt8}
    (hdata : hexToBytes address.inner = .ok data) (hlen : data.length ≤ 32) :
    (serializeAddress address).run = some (.ok (Rlp.fixedBytes 32 (Rlp.natOfBytes data))) := by
  rw [serializeAddress, run_bind_of_ok (by rw [run_liftExcept, hdata]),
    toPadded32Bytes_eq_some hlen]
  rfl

/-- What a successful `signAndEncode` did: it read the secret, signed, and encoded. -/
theorem signAndEncode_eq_ok {etx : Eth.Transaction}
    (h : (signAndEncode crates secp rlp self key etx).run = some (.ok raw)) :
    ∃ secret stx, privateKeyToSecret key = .ok secret ∧
      etx.sign crates secp rlp secret self.chainId = some stx ∧
      raw = ⟨bytesToHex (rlp.encode stx.transaction.rlpItem)⟩ := by
  simp only [signAndEncode, run_bind_eq_ok, run_liftExcept_eq_ok, run_liftOption_eq_ok,
    run_pure_eq_ok] at h
  obtain ⟨secret, hsecret, stx, hstx, rfl⟩ := h
  exact ⟨secret, stx, hsecret, hstx, rfl⟩

/-- What `signAndEncode` returns once the secret is read and the transaction signed. -/
theorem signAndEncode_eq {etx : Eth.Transaction} {secret : Eth.H256}
    {stx : Eth.SignedTransaction} (hsecret : privateKeyToSecret key = .ok secret)
    (hstx : etx.sign crates secp rlp secret self.chainId = some stx) :
    (signAndEncode crates secp rlp self key etx).run =
      some (.ok ⟨bytesToHex (rlp.encode stx.transaction.rlpItem)⟩) := by
  simp only [signAndEncode, hsecret, hstx, liftExcept_ok_bind, liftOption_some_bind]
  rfl

/-- `sign` of Ether, with a nonce and a receiver that parses, is `signAndEncode` of the
transfer. -/
theorem sign_eth_eq {tx : UnsignedTransaction} (htx : tx.currency = .eth) {nonce : UInt64}
    (hnonce : tx.nonce = some nonce) {receiver : Eth.Address}
    (hreceiver : Eth.H160.fromStr crates tx.«to».inner = some receiver) :
    (sign crates secp rlp casts self key tx).run =
      (signAndEncode crates secp rlp self key ⟨u64ToU256 nonce,
        amountToU256 (Amount.new (casts.toU128 tx.feePrice)), u64ToU256 self.ethGasLimit,
        .call receiver, amountToU256 tx.value, []⟩).run := by
  simp only [sign, htx, hnonce, hreceiver, liftExcept_ok_bind, pure_bind]

/-- `sign` of STQ, with a nonce, a contract address, a method number and two addresses that
parse, is `signAndEncode` of the `transferFrom` call. -/
theorem sign_stq_eq {tx : UnsignedTransaction} (htx : tx.currency = .stq) {nonce : UInt64}
    (hnonce : tx.nonce = some nonce) {contract : Eth.Address}
    (hcontract : Eth.H160.fromStr crates self.stqContractAddress = some contract)
    {method fromWord toWord : List UInt8}
    (hmethod : hexToBytes self.stqTransferFromMethodNumber = .ok method)
    (hfrom : (serializeAddress tx.«from»).run = some (.ok fromWord))
    (hto : (serializeAddress tx.«to»).run = some (.ok toWord)) :
    (sign crates secp rlp casts self key tx).run =
      (signAndEncode crates secp rlp self key ⟨u64ToU256 nonce,
        amountToU256 (Amount.new (casts.toU128 tx.feePrice)), u64ToU256 self.stqGasLimit,
        .call contract, 0, method ++ fromWord ++ toWord ++ Rlp.fixedBytes 32 tx.value.inner.val⟩).run := by
  simp only [sign, htx, hnonce, hcontract, hmethod, Except.mapError, liftExcept_ok_bind,
    adapt_eq_pure _ hfrom, adapt_eq_pure _ hto, pure_bind, serializeAmount_eq, liftOption_some_bind]

/-- `approve`, with a contract address, a method number and an address that parse, is
`signAndEncode` of the `approve` call. -/
theorem approve_eq {input : ApproveInput} {contract : Eth.Address}
    (hcontract : Eth.H160.fromStr crates self.stqContractAddress = some contract)
    {method approveWord : List UInt8}
    (hmethod : hexToBytes self.stqApproveMethodNumber = .ok method)
    (happrove : (serializeAddress input.approveAddress).run = some (.ok approveWord)) :
    (approve crates secp rlp casts self key input).run =
      (signAndEncode crates secp rlp self key ⟨u64ToU256 input.nonce,
        amountToU256 (Amount.new (casts.toU128 input.feePrice)), u64ToU256 self.stqGasLimit,
        .call contract, 0, method ++ approveWord ++ Rlp.fixedBytes 32 input.value.inner.val⟩).run := by
  simp only [approve, hcontract, hmethod, Except.mapError, liftExcept_ok_bind,
    adapt_eq_pure _ happrove, pure_bind, serializeAmount_eq, liftOption_some_bind]

theorem sign_eth_eq_ok {tx : UnsignedTransaction} (htx : tx.currency = .eth)
    (h : (sign crates secp rlp casts self key tx).run = some (.ok raw)) :
    ∃ nonce receiver, tx.nonce = some nonce ∧ Eth.H160.fromStr crates tx.«to».inner = some receiver ∧
      (signAndEncode crates secp rlp self key ⟨u64ToU256 nonce,
        amountToU256 (Amount.new (casts.toU128 tx.feePrice)), u64ToU256 self.ethGasLimit,
        .call receiver, amountToU256 tx.value, []⟩).run = some (.ok raw) := by
  cases hnonce : tx.nonce with
  | none => simp [sign, htx, hnonce] at h
  | some nonce =>
    cases hreceiver : Eth.H160.fromStr crates tx.«to».inner with
    | none => simp [sign, htx, hnonce, hreceiver] at h
    | some receiver =>
      rw [sign_eth_eq htx hnonce hreceiver] at h
      exact ⟨nonce, receiver, rfl, rfl, h⟩

theorem sign_stq_eq_ok {tx : UnsignedTransaction} (htx : tx.currency = .stq)
    (h : (sign crates secp rlp casts self key tx).run = some (.ok raw)) :
    ∃ nonce contract method fromWord toWord, tx.nonce = some nonce ∧
      Eth.H160.fromStr crates self.stqContractAddress = some contract ∧
      hexToBytes self.stqTransferFromMethodNumber = .ok method ∧
      (serializeAddress tx.«from»).run = some (.ok fromWord) ∧
      (serializeAddress tx.«to»).run = some (.ok toWord) ∧
      (signAndEncode crates secp rlp self key ⟨u64ToU256 nonce,
        amountToU256 (Amount.new (casts.toU128 tx.feePrice)), u64ToU256 self.stqGasLimit,
        .call contract, 0, method ++ fromWord ++ toWord ++ Rlp.fixedBytes 32 tx.value.inner.val⟩).run =
        some (.ok raw) := by
  cases hnonce : tx.nonce with
  | none => simp [sign, htx, hnonce] at h
  | some nonce =>
    cases hcontract : Eth.H160.fromStr crates self.stqContractAddress with
    | none => simp [sign, htx, hnonce, hcontract] at h
    | some contract =>
      simp only [sign, htx, hnonce, hcontract, liftExcept_ok_bind] at h
      obtain ⟨data, hdata, hsigned⟩ := run_bind_eq_ok.mp h
      simp only [run_bind_eq_ok, run_liftExcept_eq_ok, mapError_eq_ok, run_adapt_eq_ok,
        run_liftOption_eq_ok, serializeAmount_eq, Option.some.injEq, run_pure_eq_ok] at hdata
      obtain ⟨method, hmethod, fromWord, hfrom, toWord, hto, _, rfl, rfl⟩ := hdata
      exact ⟨nonce, contract, method, fromWord, toWord, rfl, rfl, hmethod, hfrom, hto, hsigned⟩

/-- Every raw transaction `sign` returns is one `signAndEncode` made. -/
theorem sign_eq_ok_signAndEncode {tx : UnsignedTransaction}
    (h : (sign crates secp rlp casts self key tx).run = some (.ok raw)) :
    ∃ etx, (signAndEncode crates secp rlp self key etx).run = some (.ok raw) := by
  cases htx : tx.currency with
  | eth =>
    obtain ⟨_, _, _, _, hsigned⟩ := sign_eth_eq_ok htx h
    exact ⟨_, hsigned⟩
  | stq =>
    obtain ⟨_, _, _, _, _, _, _, _, _, _, hsigned⟩ := sign_stq_eq_ok htx h
    exact ⟨_, hsigned⟩
  | btc => cases hnonce : tx.nonce <;> simp [sign, htx, hnonce] at h

theorem approve_eq_ok {input : ApproveInput}
    (h : (approve crates secp rlp casts self key input).run = some (.ok raw)) :
    ∃ contract method approveWord,
      Eth.H160.fromStr crates self.stqContractAddress = some contract ∧
      hexToBytes self.stqApproveMethodNumber = .ok method ∧
      (serializeAddress input.approveAddress).run = some (.ok approveWord) ∧
      (signAndEncode crates secp rlp self key ⟨u64ToU256 input.nonce,
        amountToU256 (Amount.new (casts.toU128 input.feePrice)), u64ToU256 self.stqGasLimit,
        .call contract, 0, method ++ approveWord ++ Rlp.fixedBytes 32 input.value.inner.val⟩).run =
        some (.ok raw) := by
  cases hcontract : Eth.H160.fromStr crates self.stqContractAddress with
  | none => simp [approve, hcontract] at h
  | some contract =>
    simp only [approve, hcontract, liftExcept_ok_bind, run_bind_eq_ok, run_liftExcept_eq_ok,
      mapError_eq_ok, run_adapt_eq_ok, run_liftOption_eq_ok, serializeAmount_eq,
      Option.some.injEq] at h
    obtain ⟨method, hmethod, approveWord, hword, _, rfl, hsigned⟩ := h
    exact ⟨contract, method, approveWord, rfl, hmethod, hword, hsigned⟩

/-- Every raw transaction `approve` returns is one `signAndEncode` made. -/
theorem approve_eq_ok_signAndEncode {input : ApproveInput}
    (h : (approve crates secp rlp casts self key input).run = some (.ok raw)) :
    ∃ etx, (signAndEncode crates secp rlp self key etx).run = some (.ok raw) := by
  obtain ⟨_, _, _, -, -, -, hsigned⟩ := approve_eq_ok h
  exact ⟨_, hsigned⟩

section Recovery

-- The `rlp` crate reads back what it writes, the recovery ids of secp256k1's signatures are
-- `0` or `1`, and the chain id is none or one from `1` on that `v` can hold.
variable (hrlp : rlp.Lawful) (hrec : ∀ secret message, (secp.signRecoverable secret message).2.val < 2)
  (hchain : ∀ n, self.chainId = some n → 1 ≤ n.toNat ∧ n.toNat * 2 + 37 < 2 ^ 64)
include hrlp hrec hchain

/-- The raw transaction of `signAndEncode` is the RLP of a sealed transaction of the
transaction it was given, signed for the service's chain id, which a node reads back. -/
theorem signAndEncode_spec {etx : Eth.Transaction}
    (h : (signAndEncode crates secp rlp self key etx).run = some (.ok raw)) :
    ∃ utx : Eth.UnverifiedTransaction, raw = ⟨bytesToHex (rlp.encode utx.rlpItem)⟩ ∧
      (∀ maxTransactionSize : UInt64, (rlp.encode utx.rlpItem).length ≤ maxTransactionSize.toNat →
        decodeRawTransaction rlp maxTransactionSize raw = some utx) ∧
      utx.unsigned = etx ∧ utx.chainId = self.chainId := by
  obtain ⟨secret, stx, -, hstx, rfl⟩ := signAndEncode_eq_ok h
  obtain ⟨sig, -, htx⟩ := Eth.Transaction.sign_eq_some crates secp rlp hstx
  have hchainId := (Eth.Transaction.chainId_sign crates secp rlp hstx (hrec _ _) hchain).1
  refine ⟨stx.transaction, rfl, fun _ hsize => decodeRawTransaction_encode hrlp _ hsize, ?_,
    hchainId⟩
  rw [htx]
  rfl

/-- A call of a contract signed by `signAndEncode`: the contract reads back the arguments of
its call data. -/
theorem signAndEncode_call_spec {nonce gasPrice gas : Eth.U256} {contract : Eth.Address}
    {method : List UInt8} {args : List ℕ} (hargs : ∀ a ∈ args, a < 2 ^ 256)
    (h : (signAndEncode crates secp rlp self key
      ⟨nonce, gasPrice, gas, .call contract, 0, abiCall method args⟩).run = some (.ok raw)) :
    ∃ utx : Eth.UnverifiedTransaction, raw = ⟨bytesToHex (rlp.encode utx.rlpItem)⟩ ∧
      (∀ maxTransactionSize : UInt64, (rlp.encode utx.rlpItem).length ≤ maxTransactionSize.toNat →
        decodeRawTransaction rlp maxTransactionSize raw = some utx) ∧
      utx.chainId = self.chainId ∧
      utx.unsigned = ⟨nonce, gasPrice, gas, .call contract, 0, abiCall method args⟩ ∧
      (List.range args.length).map (abiArg method.length utx.unsigned.data) = args := by
  obtain ⟨utx, hraw, hdecode, hunsigned, hchainId⟩ := signAndEncode_spec hrlp hrec hchain h
  refine ⟨utx, hraw, hdecode, hchainId, hunsigned, ?_⟩
  rw [hunsigned]
  exact map_abiArg_abiCall method hargs

/-- **An Ether transfer is signed as asked.** The raw transaction of a successful `sign` of
Ether is the RLP of a sealed transaction for the service's chain id, which a node reads back,
that sends the value to the receiver, with the request's nonce, the fee price as gas price,
and the Ether gas limit. -/
theorem sign_eth_spec {tx : UnsignedTransaction} (htx : tx.currency = .eth)
    (h : (sign crates secp rlp casts self key tx).run = some (.ok raw)) :
    ∃ (utx : Eth.UnverifiedTransaction) (nonce : UInt64) (receiver : Eth.Address),
      raw = ⟨bytesToHex (rlp.encode utx.rlpItem)⟩ ∧
      (∀ maxTransactionSize : UInt64, (rlp.encode utx.rlpItem).length ≤ maxTransactionSize.toNat →
        decodeRawTransaction rlp maxTransactionSize raw = some utx) ∧
      utx.chainId = self.chainId ∧
      tx.nonce = some nonce ∧ Eth.H160.fromStr crates tx.«to».inner = some receiver ∧
      utx.unsigned = ⟨u64ToU256 nonce, amountToU256 (Amount.new (casts.toU128 tx.feePrice)),
        u64ToU256 self.ethGasLimit, .call receiver, amountToU256 tx.value, []⟩ := by
  obtain ⟨nonce, receiver, hnonce, hreceiver, hsigned⟩ := sign_eth_eq_ok htx h
  obtain ⟨utx, hraw, hdecode, hunsigned, hchainId⟩ := signAndEncode_spec hrlp hrec hchain hsigned
  exact ⟨utx, nonce, receiver, hraw, hdecode, hchainId, hnonce, hreceiver, hunsigned⟩

omit hrlp hrec hchain in
theorem sign_testTransfer :
    (sign Crates.zero Eth.Secp256k1Recoverable.ones Eth.RlpCrate.reference FloatCasts.zero
      testService testKey testTransfer).run =
      some (.ok (testRaw ⟨0, 0, 21000, .call (Vector.replicate 20 0), 25000000000000000000, []⟩)) := by
  have hstx : Eth.Transaction.sign Crates.zero Eth.Secp256k1Recoverable.ones Eth.RlpCrate.reference
      ⟨u64ToU256 0, amountToU256 (Amount.new (FloatCasts.zero.toU128 testTransfer.feePrice)),
        u64ToU256 testService.ethGasLimit, .call (Vector.replicate 20 0),
        amountToU256 testTransfer.value, []⟩ testSecret testService.chainId =
      some (testSigned ⟨0, 0, 21000, .call (Vector.replicate 20 0), 25000000000000000000, []⟩) := by
    decide
  rw [sign_eth_eq rfl rfl fromStr_testReceiver, signAndEncode_eq privateKeyToSecret_testKey hstx]
  rfl

omit hrlp hrec hchain in
theorem sign_eth_spec_testTransfer :
    (sign Crates.zero Eth.Secp256k1Recoverable.ones Eth.RlpCrate.reference FloatCasts.zero
      testService testKey testTransfer).run =
      some (.ok (testRaw ⟨0, 0, 21000, .call (Vector.replicate 20 0), 25000000000000000000, []⟩)) ∧
    ∃ (utx : Eth.UnverifiedTransaction) (nonce : UInt64) (receiver : Eth.Address),
      testRaw ⟨0, 0, 21000, .call (Vector.replicate 20 0), 25000000000000000000, []⟩ =
        ⟨bytesToHex (Eth.RlpCrate.reference.encode utx.rlpItem)⟩ ∧
      (∀ maxTransactionSize : UInt64, (Eth.RlpCrate.reference.encode utx.rlpItem).length ≤ maxTransactionSize.toNat →
        decodeRawTransaction Eth.RlpCrate.reference maxTransactionSize 
          (testRaw ⟨0, 0, 21000, .call (Vector.replicate 20 0), 25000000000000000000, []⟩) = some utx) ∧
      utx.chainId = testService.chainId ∧ testTransfer.nonce = some nonce ∧
      Eth.H160.fromStr Crates.zero testTransfer.«to».inner = some receiver ∧
      utx.unsigned = ⟨u64ToU256 nonce,
        amountToU256 (Amount.new (FloatCasts.zero.toU128 testTransfer.feePrice)),
        u64ToU256 testService.ethGasLimit, .call receiver, amountToU256 testTransfer.value, []⟩ :=
  ⟨sign_testTransfer, sign_eth_spec Eth.RlpCrate.reference_lawful
    Eth.Secp256k1Recoverable.ones_recoveryId testService_chainId rfl sign_testTransfer⟩

/-- **An STQ transfer is a `transferFrom` call of the token contract.** The raw transaction of
a successful `sign` of STQ is the RLP of a sealed transaction for the service's chain id,
which a node reads back, that calls the token contract with no value, the STQ gas limit, and
call data whose arguments, as the contract reads them, are the sender, the receiver and the
value. -/
theorem sign_stq_spec {tx : UnsignedTransaction} (htx : tx.currency = .stq)
    (h : (sign crates secp rlp casts self key tx).run = some (.ok raw)) :
    ∃ (utx : Eth.UnverifiedTransaction) (nonce : UInt64) (contract : Eth.Address)
      (method fromBytes toBytes : List UInt8),
      raw = ⟨bytesToHex (rlp.encode utx.rlpItem)⟩ ∧
      (∀ maxTransactionSize : UInt64, (rlp.encode utx.rlpItem).length ≤ maxTransactionSize.toNat →
        decodeRawTransaction rlp maxTransactionSize raw = some utx) ∧
      utx.chainId = self.chainId ∧
      tx.nonce = some nonce ∧ Eth.H160.fromStr crates self.stqContractAddress = some contract ∧
      hexToBytes self.stqTransferFromMethodNumber = .ok method ∧
      hexToBytes tx.«from».inner = .ok fromBytes ∧ hexToBytes tx.«to».inner = .ok toBytes ∧
      utx.unsigned = ⟨u64ToU256 nonce, amountToU256 (Amount.new (casts.toU128 tx.feePrice)),
        u64ToU256 self.stqGasLimit, .call contract, 0,
        abiCall method [Rlp.natOfBytes fromBytes, Rlp.natOfBytes toBytes, tx.value.inner.val]⟩ ∧
      (List.range 3).map (abiArg method.length utx.unsigned.data) =
        [Rlp.natOfBytes fromBytes, Rlp.natOfBytes toBytes, tx.value.inner.val] := by
  obtain ⟨nonce, contract, method, fromWord, toWord, hnonce, hcontract, hmethod, hfrom, hto,
    hsigned⟩ := sign_stq_eq_ok htx h
  obtain ⟨fromBytes, hfromBytes, hfromLen, rfl⟩ := serializeAddress_eq_ok hfrom
  obtain ⟨toBytes, htoBytes, htoLen, rfl⟩ := serializeAddress_eq_ok hto
  obtain ⟨hdata, hargs⟩ := transferFrom_data hfromLen htoLen method tx.value
  rw [hdata] at hsigned
  obtain ⟨utx, hraw, hdecode, hchainId, hunsigned, hread⟩ :=
    signAndEncode_call_spec hrlp hrec hchain hargs hsigned
  exact ⟨utx, nonce, contract, method, fromBytes, toBytes, hraw, hdecode, hchainId, hnonce,
    hcontract, hmethod, hfromBytes, htoBytes, hunsigned, hread⟩

/-- The call data of the STQ case of `test_sign`. -/
def testTransferFromData : List UInt8 :=
  abiCall [0x23, 0xb8, 0x72, 0xdd] [Rlp.natOfBytes testFrom, Rlp.natOfBytes testTo,
    25000000000000000000]

omit hrlp hrec hchain in
theorem sign_testStqTransfer :
    (sign Crates.zero Eth.Secp256k1Recoverable.ones Eth.RlpCrate.reference FloatCasts.zero
      testService testKey testStqTransfer).run =
      some (.ok (testRaw ⟨0, 0, 100000, .call (Vector.replicate 20 0), 0, testTransferFromData⟩)) := by
  have hstx : Eth.Transaction.sign Crates.zero Eth.Secp256k1Recoverable.ones Eth.RlpCrate.reference
      ⟨u64ToU256 0, amountToU256 (Amount.new (FloatCasts.zero.toU128 testStqTransfer.feePrice)),
        u64ToU256 testService.stqGasLimit, .call (Vector.replicate 20 0), 0,
        [0x23, 0xb8, 0x72, 0xdd] ++ Rlp.fixedBytes 32 (Rlp.natOfBytes testFrom) ++
          Rlp.fixedBytes 32 (Rlp.natOfBytes testTo) ++
          Rlp.fixedBytes 32 testStqTransfer.value.inner.val⟩ testSecret testService.chainId =
      some (testSigned ⟨0, 0, 100000, .call (Vector.replicate 20 0), 0, testTransferFromData⟩) := by
    decide
  have hfrom : hexToBytes testStqTransfer.«from».inner = .ok testFrom := hexToBytes_testFrom
  have hto : hexToBytes testStqTransfer.«to».inner = .ok testTo := hexToBytes_testTo
  rw [sign_stq_eq rfl rfl fromStr_testContract hexToBytes_transferFromMethod
    (serializeAddress_eq hfrom (by decide)) (serializeAddress_eq hto (by decide)),
    signAndEncode_eq privateKeyToSecret_testKey hstx]
  rfl

omit hrlp hrec hchain in
theorem sign_stq_spec_testStqTransfer :
    (sign Crates.zero Eth.Secp256k1Recoverable.ones Eth.RlpCrate.reference FloatCasts.zero
      testService testKey testStqTransfer).run =
      some (.ok (testRaw ⟨0, 0, 100000, .call (Vector.replicate 20 0), 0, testTransferFromData⟩)) ∧
    ∃ (utx : Eth.UnverifiedTransaction) (nonce : UInt64) (contract : Eth.Address)
      (method fromBytes toBytes : List UInt8),
      testRaw ⟨0, 0, 100000, .call (Vector.replicate 20 0), 0, testTransferFromData⟩ =
        ⟨bytesToHex (Eth.RlpCrate.reference.encode utx.rlpItem)⟩ ∧
      (∀ maxTransactionSize : UInt64, (Eth.RlpCrate.reference.encode utx.rlpItem).length ≤ maxTransactionSize.toNat →
        decodeRawTransaction Eth.RlpCrate.reference maxTransactionSize 
          (testRaw ⟨0, 0, 100000, .call (Vector.replicate 20 0), 0, testTransferFromData⟩) = some utx) ∧
      utx.chainId = testService.chainId ∧ testStqTransfer.nonce = some nonce ∧
      Eth.H160.fromStr Crates.zero testService.stqContractAddress = some contract ∧
      hexToBytes testService.stqTransferFromMethodNumber = .ok method ∧
      hexToBytes testStqTransfer.«from».inner = .ok fromBytes ∧
      hexToBytes testStqTransfer.«to».inner = .ok toBytes ∧
      utx.unsigned = ⟨u64ToU256 nonce,
        amountToU256 (Amount.new (FloatCasts.zero.toU128 testStqTransfer.feePrice)),
        u64ToU256 testService.stqGasLimit, .call contract, 0,
        abiCall method [Rlp.natOfBytes fromBytes, Rlp.natOfBytes toBytes,
          testStqTransfer.value.inner.val]⟩ ∧
      (List.range 3).map (abiArg method.length utx.unsigned.data) =
        [Rlp.natOfBytes fromBytes, Rlp.natOfBytes toBytes, testStqTransfer.value.inner.val] :=
  ⟨sign_testStqTransfer, sign_stq_spec Eth.RlpCrate.reference_lawful
    Eth.Secp256k1Recoverable.ones_recoveryId testService_chainId rfl sign_testStqTransfer⟩

/-- **An approval is an `approve` call of the token contract.** The raw transaction of a
successful `approve` is the RLP of a sealed transaction for the service's chain id, which a
node reads back, that calls the token contract with no value and the STQ gas limit, and whose
call data's arguments are the approved address and the value. -/
theorem approve_spec {input : ApproveInput}
    (h : (approve crates secp rlp casts self key input).run = some (.ok raw)) :
    ∃ (utx : Eth.UnverifiedTransaction) (contract : Eth.Address) (method approveBytes : List UInt8),
      raw = ⟨bytesToHex (rlp.encode utx.rlpItem)⟩ ∧
      (∀ maxTransactionSize : UInt64, (rlp.encode utx.rlpItem).length ≤ maxTransactionSize.toNat →
        decodeRawTransaction rlp maxTransactionSize raw = some utx) ∧
      utx.chainId = self.chainId ∧
      Eth.H160.fromStr crates self.stqContractAddress = some contract ∧
      hexToBytes self.stqApproveMethodNumber = .ok method ∧
      hexToBytes input.approveAddress.inner = .ok approveBytes ∧
      utx.unsigned = ⟨u64ToU256 input.nonce, amountToU256 (Amount.new (casts.toU128 input.feePrice)),
        u64ToU256 self.stqGasLimit, .call contract, 0,
        abiCall method [Rlp.natOfBytes approveBytes, input.value.inner.val]⟩ ∧
      (List.range 2).map (abiArg method.length utx.unsigned.data) =
        [Rlp.natOfBytes approveBytes, input.value.inner.val] := by
  obtain ⟨contract, method, approveWord, hcontract, hmethod, hword, hsigned⟩ := approve_eq_ok h
  obtain ⟨approveBytes, hbytes, hlen, rfl⟩ := serializeAddress_eq_ok hword
  obtain ⟨hdata, hargs⟩ := approve_data hlen method input.value
  rw [hdata] at hsigned
  obtain ⟨utx, hraw, hdecode, hchainId, hunsigned, hread⟩ :=
    signAndEncode_call_spec hrlp hrec hchain hargs hsigned
  exact ⟨utx, contract, method, approveBytes, hraw, hdecode, hchainId, hcontract, hmethod, hbytes,
    hunsigned, hread⟩

/-- The call data of `test_approve`. -/
def testApproveData : List UInt8 :=
  abiCall [0x09, 0x5e, 0xa7, 0xb3] [Rlp.natOfBytes testTo, 25000000000000000000]

omit hrlp hrec hchain in
theorem approve_testApproval :
    (approve Crates.zero Eth.Secp256k1Recoverable.ones Eth.RlpCrate.reference FloatCasts.zero
      testService testKey testApproval).run =
      some (.ok (testRaw ⟨0, 0, 100000, .call (Vector.replicate 20 0), 0, testApproveData⟩)) := by
  have hstx : Eth.Transaction.sign Crates.zero Eth.Secp256k1Recoverable.ones Eth.RlpCrate.reference
      ⟨u64ToU256 testApproval.nonce,
        amountToU256 (Amount.new (FloatCasts.zero.toU128 testApproval.feePrice)),
        u64ToU256 testService.stqGasLimit, .call (Vector.replicate 20 0), 0,
        [0x09, 0x5e, 0xa7, 0xb3] ++ Rlp.fixedBytes 32 (Rlp.natOfBytes testTo) ++
          Rlp.fixedBytes 32 testApproval.value.inner.val⟩ testSecret testService.chainId =
      some (testSigned ⟨0, 0, 100000, .call (Vector.replicate 20 0), 0, testApproveData⟩) := by
    decide
  have happrove : hexToBytes testApproval.approveAddress.inner = .ok testTo := hexToBytes_testTo
  rw [approve_eq fromStr_testContract hexToBytes_approveMethod
    (serializeAddress_eq happrove (by decide)),
    signAndEncode_eq privateKeyToSecret_testKey hstx]
  rfl

omit hrlp hrec hchain in
theorem approve_spec_testApproval :
    (approve Crates.zero Eth.Secp256k1Recoverable.ones Eth.RlpCrate.reference FloatCasts.zero
      testService testKey testApproval).run =
      some (.ok (testRaw ⟨0, 0, 100000, .call (Vector.replicate 20 0), 0, testApproveData⟩)) ∧
    ∃ (utx : Eth.UnverifiedTransaction) (contract : Eth.Address) (method approveBytes : List UInt8),
      testRaw ⟨0, 0, 100000, .call (Vector.replicate 20 0), 0, testApproveData⟩ =
        ⟨bytesToHex (Eth.RlpCrate.reference.encode utx.rlpItem)⟩ ∧
      (∀ maxTransactionSize : UInt64, (Eth.RlpCrate.reference.encode utx.rlpItem).length ≤ maxTransactionSize.toNat →
        decodeRawTransaction Eth.RlpCrate.reference maxTransactionSize 
          (testRaw ⟨0, 0, 100000, .call (Vector.replicate 20 0), 0, testApproveData⟩) = some utx) ∧
      utx.chainId = testService.chainId ∧
      Eth.H160.fromStr Crates.zero testService.stqContractAddress = some contract ∧
      hexToBytes testService.stqApproveMethodNumber = .ok method ∧
      hexToBytes testApproval.approveAddress.inner = .ok approveBytes ∧
      utx.unsigned = ⟨u64ToU256 testApproval.nonce,
        amountToU256 (Amount.new (FloatCasts.zero.toU128 testApproval.feePrice)),
        u64ToU256 testService.stqGasLimit, .call contract, 0,
        abiCall method [Rlp.natOfBytes approveBytes, testApproval.value.inner.val]⟩ ∧
      (List.range 2).map (abiArg method.length utx.unsigned.data) =
        [Rlp.natOfBytes approveBytes, testApproval.value.inner.val] :=
  ⟨approve_testApproval, approve_spec Eth.RlpCrate.reference_lawful
    Eth.Secp256k1Recoverable.ones_recoveryId testService_chainId approve_testApproval⟩

end Recovery

/-- With the chain id `0`, `signAndEncode` never returns: `Transaction::sign` panics. -/
theorem signAndEncode_chainId_zero (hzero : self.chainId = some 0)
    (hrec : ∀ secret message, (secp.signRecoverable secret message).2.val < 2)
    (etx : Eth.Transaction) : (signAndEncode crates secp rlp self key etx).run ≠ some (.ok raw) := by
  intro h
  obtain ⟨secret, stx, -, hstx, -⟩ := signAndEncode_eq_ok h
  rw [hzero, Eth.Transaction.sign_chainId_zero crates secp rlp etx (hrec _ _)] at hstx
  cases hstx

/-- **A service for the chain id `0` signs nothing.** When secp256k1 gives the recovery id `0`
or `1`, neither `sign` nor `approve` returns a transaction: the recovery id becomes `v = 35`
or `36`, from which `SignedTransaction::new` cannot recover the public key, and its `expect`
panics. (The ids `2` and `3`, which secp256k1 gives only when the signature's point has an
`x` beyond the group order, become `v = 37` or `38`, read as the chain id `1`.) -/
theorem chainId_zero_signs_nothing (hzero : self.chainId = some 0)
    (hrec : ∀ secret message, (secp.signRecoverable secret message).2.val < 2) :
    (∀ tx raw, (sign crates secp rlp casts self key tx).run ≠ some (.ok raw)) ∧
      ∀ input raw, (approve crates secp rlp casts self key input).run ≠ some (.ok raw) := by
  constructor
  · intro tx raw h
    obtain ⟨etx, hsigned⟩ := sign_eq_ok_signAndEncode h
    exact signAndEncode_chainId_zero hzero hrec etx hsigned
  · intro input raw h
    obtain ⟨etx, hsigned⟩ := approve_eq_ok_signAndEncode h
    exact signAndEncode_chainId_zero hzero hrec etx hsigned

theorem chainId_zero_signs_nothing_testService :
    ({ testService with chainId := some 0 } : EthereumService).chainId = some 0 ∧
    (∀ secret message,
      (Eth.Secp256k1Recoverable.ones.signRecoverable secret message).2.val < 2) ∧
    (∀ tx raw, (sign Crates.zero Eth.Secp256k1Recoverable.ones Eth.RlpCrate.reference FloatCasts.zero
      { testService with chainId := some 0 } testKey tx).run ≠ some (.ok raw)) ∧
    ∀ input raw, (approve Crates.zero Eth.Secp256k1Recoverable.ones Eth.RlpCrate.reference FloatCasts.zero
      { testService with chainId := some 0 } testKey input).run ≠ some (.ok raw) :=
  ⟨rfl, Eth.Secp256k1Recoverable.ones_recoveryId,
    chainId_zero_signs_nothing rfl Eth.Secp256k1Recoverable.ones_recoveryId⟩

end Runs

/-! ## Keys -/

section Keys

variable {crates}

/-- The hex of a secret reads back as it. -/
@[simp] theorem privateKeyToSecret_bytesToHex (secret : Eth.H256) :
    privateKeyToSecret ⟨bytesToHex secret.toList⟩ = .ok secret := by
  simp [privateKeyToSecret, hexToBytes_bytesToHex]
  rfl

/-- **A generated key derives its address.** `derive_address` of the key `generate_key`
returns gives the address it returned with it, for any currency. -/
theorem deriveAddress_generateKey {currency currency' : Currency} {draw : Option crates.SecretKey}
    {key : PrivateKey} {address : BlockchainAddress}
    (h : generateKey crates currency draw = .ok (key, address)) :
    deriveAddress crates currency' key = .ok address := by
  cases draw with
  | none => cases h
  | some sec =>
    cases h
    simp [deriveAddress, Eth.KeyPair.fromSecret_fromKeypair]
    rfl

/-- The secret `0x0101…01`, which `Crates.zero` accepts. -/
def testDraw : Crates.zero.SecretKey := ⟨Vector.replicate 32 1, rfl⟩

theorem deriveAddress_generateKey_testDraw :
    generateKey Crates.zero .eth (some testDraw) =
      .ok (⟨bytesToHex (List.replicate 32 1)⟩, ⟨bytesToHex (List.replicate 20 0)⟩) ∧
    deriveAddress Crates.zero .stq ⟨bytesToHex (List.replicate 32 1)⟩ =
      .ok ⟨bytesToHex (List.replicate 20 0)⟩ := by
  have hgenerate : generateKey Crates.zero .eth (some testDraw) =
      .ok (⟨bytesToHex (List.replicate 32 1)⟩, ⟨bytesToHex (List.replicate 20 0)⟩) := by
    rfl
  exact ⟨hgenerate, deriveAddress_generateKey hgenerate⟩

end Keys

end EthereumService

end Blockchain

end Keystore

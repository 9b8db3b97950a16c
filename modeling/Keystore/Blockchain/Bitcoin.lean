import Keystore.Models.Transaction
import Keystore.Btc.Script
import Keystore.Blockchain.Utils

/-!
# `blockchain::bitcoin`: selecting utxos, building and signing a Bitcoin transaction

`BitcoinService::sign_with_options` selects the utxos to spend, spends each of them in an input
whose script is the P2PKH script of the sender, pays the value to the receiver and the rest back
to the sender, deducts the estimated fees from that change, signs the serialization of the
transaction followed by `SIGHASH_ALL`, and puts the signature and public key in every input.
`derive_address` and `generate_key` go through the private key's layout as hex.

## Main definitions

* `Keystore.Blockchain.BitcoinService.neededUtxos` — `needed_utxos`.
* `Keystore.Blockchain.BitcoinService.unsignedTransaction`, `.deductFees`, `.signTransaction` —
  the three parts of `sign_with_options`, which `.signWithOptions` runs one after the other.
* `Keystore.Blockchain.BitcoinService.deriveAddress`, `.generateKey`.

## Design

A function that returns a `Result` and may panic is in `ExceptT Error Option`: `none` is the
panic. What the keystore's code calls in other crates is a `Crates`, and its `f64` arithmetic
a `FloatCasts`. The service's network only matters to `generate_key`.
-/

set_option autoImplicit false

namespace Keystore.Blockchain

open Rust

/-- `config::BtcNetwork`. -/
inductive BtcNetwork
  | main
  | test
  deriving DecidableEq, Repr

/-- `blockchain::bitcoin::BitcoinService`. -/
structure BitcoinService where
  btcNetwork : BtcNetwork
  deriving DecidableEq, Repr

namespace BitcoinService

variable (crates : Crates) (casts : FloatCasts)

/-! ## Selecting the utxos -/

/-- The loop of `needed_utxos` over the utxos left, with those pushed so far and their sum:
each utxo is pushed, then added to the sum; an overflow is an error. -/
def neededUtxosLoop : List Utxo → Amount → List Utxo → Except Error (List Utxo × Amount)
  | res, sum, [] => .ok (res, sum)
  | res, sum, utxo :: rest =>
    match sum.checkedAdd utxo.value with
    | some sum' => neededUtxosLoop (res ++ [utxo]) sum' rest
    | none => .error ⟨.internal, some .overflow, none⟩

/-- `BitcoinService::needed_utxos`: `sort_by_key` (a stable sort) on the values, then the
loop over them in reverse. The loop never stops early: every utxo is selected. -/
def neededUtxos (utxos : List Utxo) (value : Amount) : Except Error (Option (List Utxo)) := do
  let utxos := utxos.mergeSort fun a b => a.value ≤ b.value
  let (res, sum) ← neededUtxosLoop [] (Amount.new 0) utxos.reverse
  if value ≤ sum then pure (some res) else pure none

/-! ## Signing -/

/-- The closure of `sign_with_options` that spends a utxo: the outpoint is the utxo's hash,
parsed and reversed, and its index cast `as u32`; the script is the sender's P2PKH script. -/
def inputOf (rbf : Bool) (scriptSig : Btc.Script) (utxo : Utxo) :
    Except Error Btc.TransactionInput := do
  let txHash ← match Btc.H256.fromStr crates utxo.txHash with
    | some txHash => pure txHash
    | none => throw ⟨.invalidUnsignedTransaction (.malformedHexString utxo.txHash), none, none⟩
  let txHash := txHash.reverse
  let outpoint : Btc.OutPoint := ⟨txHash, utxo.index.toUInt32⟩
  let sequence : UInt32 := if rbf then 0xffffffff - 2 else 0xffffffff
  pure ⟨outpoint, scriptSig.toBytes, sequence, []⟩

/-- The first part of `sign_with_options`: the transaction before its fees. The value must be
a `u64`; the utxos are selected; the sender must be a P2PKH address; one input per selected
utxo; the outputs are the value to the receiver and the rest of the utxos' sum, which must be
a `u64` greater than the value, to the sender. -/
def unsignedTransaction (inputTx : UnsignedTransaction) (rbf : Bool) (lockTime : Option UInt32) :
    ExceptT Error Option Btc.Transaction := do
  let inputValue ← (match inputTx.value.u64 with
    | some inputValue => .ok inputValue
    | none => .error ⟨.invalidUnsignedTransaction
        (.overflow (Nat.repr inputTx.value.inner.val)), none, none⟩ : Except Error UInt64)
  let inputUtxos := inputTx.utxos.getD []
  let amount := inputTx.value
  let selected ← neededUtxos inputUtxos amount
  let utxos ← match selected with
    | some utxos => pure utxos
    | none => throw ⟨.invalidUnsignedTransaction .notEnoughUtxo, some .wrongInputs, none⟩
  let fromAddress := inputTx.«from».inner
  let addressFrom ← (Btc.Address.fromStr crates fromAddress).mapError fun _ =>
    (⟨.invalidUnsignedTransaction (.malformedAddress fromAddress), none, none⟩ : Error)
  if addressFrom.kind ≠ .p2pkh then
    throw ⟨.invalidUnsignedTransaction (.unsupportedAddressType "P2SH"), none, none⟩
  let addressFromHash := addressFrom.hash
  let scriptSig ← Btc.Builder.buildP2pkh addressFromHash
  let inputs ← (utxos.mapM (inputOf crates rbf scriptSig) : Except Error _)
  let toAddress := inputTx.«to».inner
  let addressTo ← (Btc.Address.fromStr crates toAddress).mapError fun _ =>
    (⟨.invalidUnsignedTransaction (.malformedAddress toAddress), none, none⟩ : Error)
  let addressToHash := addressTo.hash
  let outputScript ← (match addressTo.kind with
    | .p2pkh => Btc.Builder.buildP2pkh addressToHash
    | .p2sh => Btc.Builder.buildP2sh addressToHash : Option Btc.Script)
  let output : Btc.TransactionOutput := ⟨inputValue, outputScript.toBytes⟩
  let maybeSumInputs := utxos.foldl (fun acc utxo => acc.bind fun a => a.checkedAdd utxo.value)
    (some (Amount.new 0))
  let sumInputs ← match maybeSumInputs.bind Amount.u64 with
    | some sumInputs => pure sumInputs
    | none => throw ⟨.internal, some .overflow, none⟩
  -- strictly greater, since the fees are paid from the rest
  if sumInputs ≤ output.value then
    throw ⟨.invalidUnsignedTransaction .notEnoughUtxo, some .wrongInputs, none⟩
  let rest := sumInputs - output.value
  let script ← Btc.Builder.buildP2pkh addressFromHash
  pure ⟨1, inputs, [output, ⟨rest, script.toBytes⟩], lockTime.getD 0⟩

/-- `BitcoinService::estimate_fees`: the size of the transaction once every input carries a
signature script of 138 bytes instead of the 25 of the P2PKH script, at the fee price. The
`u64` arithmetic wraps. -/
def estimateFees (feePrice : Float) (inputsCount txSize : UInt64) : UInt64 :=
  let scriptSigSize : UInt64 := 1 + 71 + 1 + 1 + 64
  let scriptPubkeySize : UInt64 := 3 + 20 + 2
  let signatureBytes := (scriptSigSize - scriptPubkeySize) * inputsCount
  let estimatedFinalSize := txSize + signatureBytes
  casts.mulToU64 feePrice estimatedFinalSize

/-- The second part of `sign_with_options`: the fees estimated on the serialization are taken
from the last output, which must be worth more than them. -/
def deductFees (feePrice : Float) (tx : Btc.Transaction) : Except Error Btc.Transaction := do
  let txRaw := tx.serialize
  let fees := estimateFees casts feePrice (UInt64.ofNat tx.inputs.length) (UInt64.ofNat txRaw.length)
  let outputsLen := tx.outputs.length
  -- `get_mut(outputs_len - 1)`
  let outputRef ← match tx.outputs[outputsLen - 1]? with
    | some outputRef => pure outputRef
    | none => throw ⟨.internal, some .noTxOutputs, none⟩
  if fees ≥ outputRef.value then
    throw ⟨.invalidUnsignedTransaction .notEnoughUtxo, some .wrongFee, none⟩
  pure { tx with
    outputs := tx.outputs.set (outputsLen - 1) { outputRef with value := outputRef.value - fees } }

/-- The third part of `sign_with_options`: one signature, of the double SHA-256 of the
serialization followed by `01 00 00 00`, and the public key, pushed into one script that
replaces the script of every input. -/
def signTransaction (key : PrivateKey) (tx : Btc.Transaction) :
    ExceptT Error Option Btc.Transaction := do
  let txRaw := tx.serialize
  -- SIGHASH_ALL
  let txRawWithSighash := txRaw ++ [1, 0, 0, 0]
  let txHash := crates.sha256 (crates.sha256 txRawWithSighash).toList
  let malformed : Error := ⟨.invalidPrivateKey (.malformedPrivateKey key.inner), none, none⟩
  let pk ← (hexToBytes key.inner).mapError fun _ => malformed
  let pk ← (Btc.Private.fromLayout crates pk).mapError fun _ => malformed
  let keypair ← (Btc.KeyPair.fromPrivate crates pk).mapError fun _ => malformed
  let signature ← (keypair.privateKey.sign crates txHash).mapError fun _ =>
    (⟨.internal, some .signature, none⟩ : Error)
  -- SIGHASH_ALL
  let signatureWithSighash := signature ++ [1]
  let publicKey := keypair.publicKey
  let b ← Btc.Builder.default.pushBytes signatureWithSighash
  let b ← b.pushBytes publicKey.toBytes
  let script := b.intoScript
  pure { tx with inputs := tx.inputs.map fun input => { input with scriptSig := script.toBytes } }

/-- `BitcoinService::sign_with_options`. -/
def signWithOptions (key : PrivateKey) (inputTx : UnsignedTransaction) (rbf : Bool)
    (lockTime : Option UInt32) : ExceptT Error Option RawTransaction := do
  let tx ← unsignedTransaction crates inputTx rbf lockTime
  let tx ← deductFees casts inputTx.feePrice tx
  let tx ← signTransaction crates key tx
  pure ⟨bytesToHex tx.serialize⟩

/-- `BlockchainService::sign for BitcoinService`. -/
def sign (key : PrivateKey) (tx : UnsignedTransaction) : ExceptT Error Option RawTransaction :=
  signWithOptions crates casts key tx false none

/-! ## Keys -/

/-- `BlockchainService::derive_address for BitcoinService`: the private key's layout from hex,
its key pair, and the P2PKH address in base58. -/
def deriveAddress (_currency : Currency) (key : PrivateKey) : Except Error BlockchainAddress := do
  let malformed : Error := ⟨.invalidPrivateKey (.malformedPrivateKey key.inner), none, none⟩
  let keyBytes ← (hexToBytes key.inner).mapError fun _ => malformed
  let privateKey ← (Btc.Private.fromLayout crates keyBytes).mapError fun _ => malformed
  let keypair ← (Btc.KeyPair.fromPrivate crates privateKey).mapError fun _ => malformed
  pure ⟨(keypair.address crates).toString crates⟩

/-- `BlockchainService::generate_key for BitcoinService`: it asserts that the currency is
`Btc`; the key pair is drawn on the service's network, and the private key is its layout as
hex. -/
def generateKey (self : BitcoinService) (currency : Currency) (draw : Option crates.SecretKey) :
    Option (Except Error (PrivateKey × BlockchainAddress)) :=
  if currency ≠ .btc then none
  else some do
    let network : Btc.Network := match self.btcNetwork with
      | .test => .testnet
      | .main => .mainnet
    let keypair ← (Btc.Random.generate crates network draw).mapError fun _ =>
      (⟨.internal, none, some .random⟩ : Error)
    let address : BlockchainAddress := ⟨(keypair.address crates).toString crates⟩
    let pkBytes := bytesToHex (keypair.privateKey.layout crates)
    pure (⟨pkBytes⟩, address)

end BitcoinService

end Keystore.Blockchain

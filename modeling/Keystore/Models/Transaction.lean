import Keystore.Models.Amount
import Keystore.Models.Key

/-!
# `models::transaction`: what the keystore is asked to sign

An unsigned transaction names its sender and receiver addresses, the currency, the amount, a
fee price, and, by currency, a nonce (Ethereum) or the unspent outputs it may spend (Bitcoin).
Signing returns the raw transaction as a hex string.

## Main definitions

* `Keystore.Utxo`, `Keystore.UnsignedTransaction`, `Keystore.ApproveInput`,
  `Keystore.RawTransaction`.
-/

set_option autoImplicit false

namespace Keystore

/-- `models::TransactionId`. -/
structure TransactionId where
  inner : Uuid
  deriving DecidableEq, Repr

/-- `models::RawTransaction`: the signed transaction as hex. -/
structure RawTransaction where
  inner : String
  deriving DecidableEq, Repr

/-- `models::Utxo`: an unspent output, by the hash of its transaction as hex, its value and
its index. -/
structure Utxo where
  txHash : String
  value : Amount
  index : UInt64
  deriving DecidableEq, Repr

/-- `models::UnsignedTransaction`. -/
structure UnsignedTransaction where
  id : TransactionId
  «from» : BlockchainAddress
  «to» : BlockchainAddress
  currency : Currency
  value : Amount
  feePrice : Float
  nonce : Option UInt64
  utxos : Option (List Utxo)

/-- `models::ApproveInput`. -/
structure ApproveInput where
  id : TransactionId
  address : BlockchainAddress
  approveAddress : BlockchainAddress
  currency : Currency
  value : Amount
  feePrice : Float
  nonce : UInt64

end Keystore

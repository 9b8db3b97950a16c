import Mathlib

/-!
# `btcchain` and `btcserialization`: transactions and their wire format

The transaction types of the vendored parity-bitcoin `chain` crate, and their serialization by
its `serialization` crate. `serialize` writes into a stream without flags, so a transaction is
always written in the legacy form, without its witnesses: version, inputs, outputs and lock
time, every integer little-endian and every list and byte string prefixed with its length as a
`CompactInteger`.

## Main definitions

* `Keystore.Btc.writeLE` — `byteorder`'s little-endian writes.
* `Keystore.Btc.CompactInteger.serialize` — the variable-length count.
* `Keystore.Btc.OutPoint`, `.TransactionInput`, `.TransactionOutput`, `.Transaction` — the
  `chain` types, with their `serialize`.
* `Keystore.Btc.Transaction.serializeWithFlags`, `Keystore.Btc.Transaction.serialize`.

## Main results

* `Keystore.Btc.Transaction.serialize_eq` — `serialize` is the legacy form.
* `Keystore.Btc.Transaction.length_serialize` — its length, input by input.
-/

set_option autoImplicit false

namespace Keystore.Btc

/-! ## Integers -/

/-- `byteorder`'s little-endian write of a `w`-byte integer: the low `w` bytes of `n`, the
least significant first. -/
def writeLE (w n : ℕ) : List UInt8 := (List.range w).map fun i => UInt8.ofNat (n / 256 ^ i)

@[simp] theorem length_writeLE (w n : ℕ) : (writeLE w n).length = w := by
  simp [writeLE]

/-- `Serializable for CompactInteger`: one byte below `0xfd`, else the marker `0xfd`, `0xfe`
or `0xff` followed by 2, 4 or 8 little-endian bytes. -/
def CompactInteger.serialize (n : UInt64) : List UInt8 :=
  if n.toNat ≤ 0xfc then writeLE 1 n.toNat
  else if n.toNat ≤ 0xffff then 0xfd :: writeLE 2 n.toNat
  else if n.toNat ≤ 0xffffffff then 0xfe :: writeLE 4 n.toNat
  else 0xff :: writeLE 8 n.toNat

/-- A count below `0xfd` is written as one byte. -/
theorem CompactInteger.length_serialize_of_le {n : ℕ} (hn : n ≤ 0xfc) :
    (CompactInteger.serialize (UInt64.ofNat n)).length = 1 := by
  have hsize : UInt64.size = 2 ^ 64 := rfl
  have hval : (UInt64.ofNat n).toNat = n := UInt64.toNat_ofNat_of_lt' (by omega)
  simp [CompactInteger.serialize, hval, hn]

/-- `Serializable for Bytes`: the length as a `CompactInteger`, then the bytes. -/
def serializeBytes (bytes : List UInt8) : List UInt8 :=
  CompactInteger.serialize (UInt64.ofNat bytes.length) ++ bytes

theorem length_serializeBytes_of_le {bytes : List UInt8} (h : bytes.length ≤ 0xfc) :
    (serializeBytes bytes).length = bytes.length + 1 := by
  rw [serializeBytes, List.length_append, CompactInteger.length_serialize_of_le h]
  omega

/-- `Stream::append_list`: the number of elements as a `CompactInteger`, then each element. -/
def serializeList {α : Type} (f : α → List UInt8) (l : List α) : List UInt8 :=
  CompactInteger.serialize (UInt64.ofNat l.length) ++ l.flatMap f

/-! ## Transactions -/

/-- `hash::H256`. -/
abbrev H256 := Vector UInt8 32

/-- `chain::OutPoint`: the hash of the transaction spent and the index of its output. -/
structure OutPoint where
  hash : H256
  index : UInt32
  deriving DecidableEq, Repr

/-- The derived `Serializable for OutPoint`: the hash, then the index. -/
def OutPoint.serialize (o : OutPoint) : List UInt8 := o.hash.toList ++ writeLE 4 o.index.toNat

/-- `chain::TransactionInput`. -/
structure TransactionInput where
  previousOutput : OutPoint
  scriptSig : List UInt8
  sequence : UInt32
  scriptWitness : List (List UInt8)
  deriving DecidableEq, Repr

/-- `TransactionInput::has_witness`. -/
def TransactionInput.hasWitness (i : TransactionInput) : Bool := !i.scriptWitness.isEmpty

/-- `Serializable for TransactionInput`: the outpoint, the script and the sequence; the
witness is not part of it. -/
def TransactionInput.serialize (i : TransactionInput) : List UInt8 :=
  i.previousOutput.serialize ++ serializeBytes i.scriptSig ++ writeLE 4 i.sequence.toNat

/-- `chain::TransactionOutput`. -/
structure TransactionOutput where
  value : UInt64
  scriptPubkey : List UInt8
  deriving DecidableEq, Repr

/-- `TransactionOutput::default`: the value `u64::MAX` and no script. -/
def TransactionOutput.default : TransactionOutput := ⟨0xffffffffffffffff, []⟩

/-- The derived `Serializable for TransactionOutput`. -/
def TransactionOutput.serialize (o : TransactionOutput) : List UInt8 :=
  writeLE 8 o.value.toNat ++ serializeBytes o.scriptPubkey

/-- `chain::Transaction`. -/
structure Transaction where
  version : Int32
  inputs : List TransactionInput
  outputs : List TransactionOutput
  lockTime : UInt32
  deriving DecidableEq, Repr

/-- `Transaction::has_witness`. -/
def Transaction.hasWitness (tx : Transaction) : Bool := tx.inputs.any TransactionInput.hasWitness

/-- `SERIALIZE_TRANSACTION_WITNESS`. -/
def serializeTransactionWitness : UInt32 := 0x40000000

/-- `Serializable for Transaction` on a stream with `flags`: the witness form, with the marker
and flag bytes `0` and `1` and the witnesses after the outputs, only when the flags ask for
witnesses and an input has one. -/
def Transaction.serializeWithFlags (flags : UInt32) (tx : Transaction) : List UInt8 :=
  if flags &&& serializeTransactionWitness != 0 && tx.hasWitness then
    writeLE 4 tx.version.toUInt32.toNat ++ [0, 1] ++
      serializeList TransactionInput.serialize tx.inputs ++
      serializeList TransactionOutput.serialize tx.outputs ++
      tx.inputs.flatMap (fun i => serializeList serializeBytes i.scriptWitness) ++
      writeLE 4 tx.lockTime.toNat
  else
    writeLE 4 tx.version.toUInt32.toNat ++ serializeList TransactionInput.serialize tx.inputs ++
      serializeList TransactionOutput.serialize tx.outputs ++ writeLE 4 tx.lockTime.toNat

/-- `serialize`: the transaction on a stream without flags. -/
def Transaction.serialize (tx : Transaction) : List UInt8 := tx.serializeWithFlags 0

/-- Without flags a transaction is written in the legacy form, whatever its witnesses. -/
theorem Transaction.serialize_eq (tx : Transaction) :
    tx.serialize = writeLE 4 tx.version.toUInt32.toNat ++
      serializeList TransactionInput.serialize tx.inputs ++
      serializeList TransactionOutput.serialize tx.outputs ++ writeLE 4 tx.lockTime.toNat := by
  have hflags : (0 : UInt32) &&& serializeTransactionWitness = 0 := by decide
  simp [Transaction.serialize, Transaction.serializeWithFlags, hflags]

theorem TransactionInput.length_serialize (i : TransactionInput) :
    i.serialize.length = 40 + (serializeBytes i.scriptSig).length := by
  simp only [TransactionInput.serialize, OutPoint.serialize, List.length_append,
    Vector.length_toList, length_writeLE]
  omega

/-- The length of a serialized transaction, input by input. -/
theorem Transaction.length_serialize (tx : Transaction) :
    tx.serialize.length = 8 + (CompactInteger.serialize (UInt64.ofNat tx.inputs.length)).length +
      (tx.inputs.map fun i => 40 + (serializeBytes i.scriptSig).length).sum +
      (serializeList TransactionOutput.serialize tx.outputs).length := by
  simp only [Transaction.serialize_eq, serializeList, List.length_append, length_writeLE,
    List.length_flatMap, TransactionInput.length_serialize]
  omega

end Keystore.Btc

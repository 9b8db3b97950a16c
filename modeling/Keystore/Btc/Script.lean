import Keystore.Btc.Keys

/-!
# `btcscript`: script building, instruction decoding and the legacy signature hash

The parts of the vendored parity-bitcoin `script` crate the keystore uses. The builder writes
the P2PKH and P2SH scripts of the outputs and the signature script of the inputs.
`TransactionInputSigner::signature_hash_original` is the legacy (pre-segwit) signature hash of
one input: it blanks the scripts of the other inputs, puts the spent output's script, without
its `OP_CODESEPARATOR`s, on the input signed, and hashes the transaction followed by the
sighash type. Finding the separators decodes the script instruction by instruction.

## Main definitions

* `Keystore.Btc.Opcode` — an opcode is a byte that `Opcode::from_u8` knows.
* `Keystore.Btc.Builder`, with `pushOpcode`, `pushBytes` (`none` is its panic), `buildP2pkh`,
  `buildP2sh`.
* `Keystore.Btc.Script.getInstruction`, `Keystore.Btc.Script.withoutSeparators`.
* `Keystore.Btc.TransactionInputSigner.originalPreimage` — the bytes that
  `signature_hash_original` hashes, and `signatureHashOriginal` itself.

## Main results

* `Keystore.Btc.Builder.buildP2pkh_eq`, `Keystore.Btc.Builder.buildP2sh_eq` — the scripts
  built, byte by byte.
* `Keystore.Btc.Script.withoutSeparators_p2pkh` — a P2PKH script has no separator to remove.
* `Keystore.Btc.TransactionInputSigner.originalPreimage_all` — for `SIGHASH_ALL`, the
  preimage of input `i` is the transaction with the script on input `i` only, then the type.

## Design

The decoder reads the script at absolute positions, as the source does; the loop of
`without_separators` is well-founded on the bytes left, since every instruction is at least one
byte long (`Script.step_pos_of_getInstruction`).
-/

set_option autoImplicit false

namespace Keystore.Btc

open Rust

/-! ## Opcodes and the builder -/

/-- `script::Opcode`: the opcodes are the bytes `0x00` to `0xb9`, each standing for itself. -/
structure Opcode where
  byte : UInt8
  valid : byte ≤ 0xb9
  deriving DecidableEq

namespace Opcode

/-- `Opcode::from_u8`. -/
def fromU8 (u : UInt8) : Option Opcode := if h : u ≤ 0xb9 then some ⟨u, h⟩ else none

def opPushbytes1 : Opcode := ⟨0x01, by decide⟩
def opPushbytes75 : Opcode := ⟨0x4b, by decide⟩
def opPushdata1 : Opcode := ⟨0x4c, by decide⟩
def opPushdata2 : Opcode := ⟨0x4d, by decide⟩
def opPushdata4 : Opcode := ⟨0x4e, by decide⟩
def opDup : Opcode := ⟨0x76, by decide⟩
def opEqual : Opcode := ⟨0x87, by decide⟩
def opEqualverify : Opcode := ⟨0x88, by decide⟩
def opHash160 : Opcode := ⟨0xa9, by decide⟩
def opCodeseparator : Opcode := ⟨0xab, by decide⟩
def opChecksig : Opcode := ⟨0xac, by decide⟩

end Opcode

/-- `script::Script`: its bytes. -/
structure Script where
  data : List UInt8
  deriving DecidableEq, Repr

/-- `Script::to_bytes`. -/
def Script.toBytes (s : Script) : List UInt8 := s.data

/-- `script::Builder`: the bytes written so far. -/
structure Builder where
  data : List UInt8
  deriving DecidableEq, Repr

namespace Builder

/-- `Builder::default`. -/
def default : Builder := ⟨[]⟩

/-- `Builder::push_opcode`. -/
def pushOpcode (b : Builder) (opcode : Opcode) : Builder := ⟨b.data ++ [opcode.byte]⟩

/-- `Builder::push_bytes`: the opcode `OP_PUSHBYTES_len`, then the bytes; it panics unless
there are 1 to 75 of them. -/
def pushBytes (b : Builder) (bytes : List UInt8) : Option Builder :=
  let len := bytes.length
  if len < 1 ∨ len > 75 then none
  else some ⟨b.data ++ [UInt8.ofNat (Opcode.opPushbytes1.byte.toNat + len - 1)] ++ bytes⟩

/-- `Builder::into_script`. -/
def intoScript (b : Builder) : Script := ⟨b.data⟩

/-- `Builder::build_p2pkh`. -/
def buildP2pkh (address : Vector UInt8 20) : Option Script := do
  let b ← ((default.pushOpcode .opDup).pushOpcode .opHash160).pushBytes address.toList
  pure ((b.pushOpcode .opEqualverify).pushOpcode .opChecksig).intoScript

/-- `Builder::build_p2sh`. -/
def buildP2sh (address : Vector UInt8 20) : Option Script := do
  let b ← (default.pushOpcode .opHash160).pushBytes address.toList
  pure (b.pushOpcode .opEqual).intoScript

theorem pushBytes_eq_some (b : Builder) {bytes : List UInt8} (h1 : 1 ≤ bytes.length)
    (h75 : bytes.length ≤ 75) :
    b.pushBytes bytes = some ⟨b.data ++ [UInt8.ofNat bytes.length] ++ bytes⟩ := by
  have hop : Opcode.opPushbytes1.byte.toNat + bytes.length - 1 = bytes.length := by
    have hone : Opcode.opPushbytes1.byte.toNat = 1 := rfl
    omega
  simp only [pushBytes, hop]
  rw [if_neg (by omega)]

/-- A push that did not panic pushed 1 to 75 bytes after their count. -/
theorem pushBytes_eq_some_iff (b : Builder) {bytes : List UInt8} {b' : Builder} :
    b.pushBytes bytes = some b' ↔
      1 ≤ bytes.length ∧ bytes.length ≤ 75 ∧ b' = ⟨b.data ++ [UInt8.ofNat bytes.length] ++ bytes⟩ := by
  by_cases hlen : 1 ≤ bytes.length ∧ bytes.length ≤ 75
  · rw [pushBytes_eq_some b hlen.1 hlen.2, Option.some.injEq]
    constructor
    · rintro rfl; exact ⟨hlen.1, hlen.2, rfl⟩
    · rintro ⟨-, -, rfl⟩; rfl
  · have hnone : b.pushBytes bytes = none := by
      simp only [pushBytes]
      rw [if_pos (by omega)]
    rw [hnone]
    simp only [reduceCtorEq, false_iff]
    omega

theorem buildP2pkh_eq (address : Vector UInt8 20) :
    buildP2pkh address = some ⟨[0x76, 0xa9, 0x14] ++ address.toList ++ [0x88, 0xac]⟩ := by
  simp [buildP2pkh, pushBytes_eq_some, default, pushOpcode, intoScript, Opcode.opDup,
    Opcode.opHash160, Opcode.opEqualverify, Opcode.opChecksig]

theorem buildP2sh_eq (address : Vector UInt8 20) :
    buildP2sh address = some ⟨[0xa9, 0x14] ++ address.toList ++ [0x87]⟩ := by
  simp [buildP2sh, pushBytes_eq_some, default, pushOpcode, intoScript, Opcode.opHash160,
    Opcode.opEqual]

end Builder

/-! ## Decoding instructions -/

/-- The errors of `script::Error` that decoding raises. -/
inductive Script.Error
  | badOpcode
  deriving DecidableEq, Repr

/-- `script::Instruction`: the opcode, the bytes it spans, and the data it pushes. -/
structure Instruction where
  opcode : Opcode
  step : ℕ
  data : Option (List UInt8)

namespace Script

/-- `Script::get_opcode` at a position inside the script. -/
def getOpcode (s : Script) (position : ℕ) (h : position < s.data.length) : Except Error Opcode :=
  match Opcode.fromU8 s.data[position] with
  | some opcode => .ok opcode
  | none => .error .badOpcode

/-- `Script::take`: `len` bytes from `offset`, if the script has them. -/
def take (s : Script) (offset len : ℕ) : Except Error (List UInt8) :=
  if offset + len > s.data.length then .error .badOpcode else .ok ((s.data.drop offset).take len)

/-- `read_usize`: the first `size` bytes as a little-endian number. -/
def readUsize (data : List UInt8) (size : ℕ) : Except Error ℕ :=
  if data.length < size then .error .badOpcode
  else .ok (((data.take size).zipIdx).foldl (fun acc (x, i) => acc + x.toNat * 2 ^ (i * 8)) 0)

/-- `Script::get_instruction`: a `PUSHDATA` opcode reads a 1-, 2- or 4-byte length and pushes
that many bytes; an opcode up to `OP_PUSHBYTES_75` pushes as many bytes as its value; any
other opcode is one byte. Data running past the end is `BadOpcode`. -/
def getInstruction (s : Script) (position : ℕ) (h : position < s.data.length) :
    Except Error Instruction := do
  let opcode ← s.getOpcode position h
  if opcode = .opPushdata1 ∨ opcode = .opPushdata2 ∨ opcode = .opPushdata4 then
    let len := if opcode = .opPushdata1 then 1 else if opcode = .opPushdata2 then 2 else 4
    let slice ← s.take (position + 1) len
    let n ← readUsize slice len
    let bytes ← s.take (position + 1 + len) n
    pure ⟨opcode, len + n + 1, some bytes⟩
  else if opcode.byte ≤ Opcode.opPushbytes75.byte then
    let bytes ← s.take (position + 1) opcode.byte.toNat
    pure ⟨opcode, opcode.byte.toNat + 1, some bytes⟩
  else pure ⟨opcode, 1, none⟩

/-- Every instruction spans at least one byte. -/
theorem step_pos_of_getInstruction {s : Script} {position : ℕ} {h : position < s.data.length}
    {instruction : Instruction} (hi : s.getInstruction position h = .ok instruction) :
    0 < instruction.step := by
  simp only [getInstruction, bind_eq_ok] at hi
  obtain ⟨opcode, -, hi⟩ := hi
  -- the three kinds of instruction: pushed data with its length, pushed bytes, a plain opcode
  split at hi
  · simp only [bind_eq_ok] at hi
    obtain ⟨_, -, _, -, _, -, hi⟩ := hi
    rw [← Except.ok.inj hi]
    simp
  · split at hi
    · simp only [bind_eq_ok] at hi
      obtain ⟨_, -, hi⟩ := hi
      rw [← Except.ok.inj hi]
      simp
    · rw [← Except.ok.inj hi]
      simp

/-- The loop of `Script::without_separators` from `pc`, having kept `result`: every
instruction but `OP_CODESEPARATOR` is copied; a byte that does not decode is copied alone. -/
def withoutSeparatorsFrom (s : Script) (pc : ℕ) (result : List UInt8) : List UInt8 :=
  if h : pc < s.data.length then
    match hi : s.getInstruction pc h with
    | .ok instruction =>
      withoutSeparatorsFrom s (pc + instruction.step)
        (if instruction.opcode ≠ .opCodeseparator then
          result ++ (s.data.drop pc).take instruction.step
        else result)
    | .error _ => withoutSeparatorsFrom s (pc + 1) (result ++ [s.data[pc]])
  else result
termination_by s.data.length - pc
decreasing_by
  · have := step_pos_of_getInstruction hi
    omega
  · omega

/-- `Script::without_separators`. -/
def withoutSeparators (s : Script) : Script := ⟨s.withoutSeparatorsFrom 0 []⟩

/-- An opcode above the push opcodes is an instruction of one byte. -/
theorem getInstruction_of_gt {s : Script} {pc : ℕ} (h : pc < s.data.length) {b : UInt8}
    (hb : s.data[pc] = b) (hlo : 0x4e < b) (hhi : b ≤ 0xb9) :
    s.getInstruction pc h = .ok ⟨⟨b, hhi⟩, 1, none⟩ := by
  have hlo' : 0x4e < b.toNat := hlo
  have hpush : ¬ (⟨b, hhi⟩ = Opcode.opPushdata1 ∨ ⟨b, hhi⟩ = Opcode.opPushdata2 ∨
      ⟨b, hhi⟩ = Opcode.opPushdata4) := by
    simp only [Opcode.opPushdata1, Opcode.opPushdata2, Opcode.opPushdata4, Opcode.mk.injEq]
    rintro (rfl | rfl | rfl) <;> simp at hlo'
  have hbytes : ¬ b ≤ Opcode.opPushbytes75.byte := by
    simp only [Opcode.opPushbytes75, UInt8.le_iff_toNat_le]
    simp only [UInt8.toNat_ofNat] at hlo' ⊢
    omega
  simp only [getInstruction, getOpcode, hb, Opcode.fromU8, dif_pos hhi, bind, Except.bind]
  rw [if_neg hpush, if_neg hbytes]
  rfl

/-- An opcode up to `OP_PUSHBYTES_75` pushes the bytes after it, when the script has them. -/
theorem getInstruction_of_le {s : Script} {pc : ℕ} (h : pc < s.data.length) {b : UInt8}
    (hb : s.data[pc] = b) (hle : b ≤ 0x4b) (hlen : pc + 1 + b.toNat ≤ s.data.length) :
    ∃ opcode : Opcode, opcode.byte = b ∧ s.getInstruction pc h =
      .ok ⟨opcode, b.toNat + 1, some ((s.data.drop (pc + 1)).take b.toNat)⟩ := by
  have hle' : b.toNat ≤ 0x4b := hle
  have hhi : b ≤ 0xb9 := by
    simp only [UInt8.le_iff_toNat_le] at hle' ⊢
    simp only [UInt8.toNat_ofNat] at hle' ⊢
    omega
  refine ⟨⟨b, hhi⟩, rfl, ?_⟩
  have hpush : ¬ (⟨b, hhi⟩ = Opcode.opPushdata1 ∨ ⟨b, hhi⟩ = Opcode.opPushdata2 ∨
      ⟨b, hhi⟩ = Opcode.opPushdata4) := by
    simp only [Opcode.opPushdata1, Opcode.opPushdata2, Opcode.opPushdata4, Opcode.mk.injEq]
    rintro (rfl | rfl | rfl) <;> simp at hle'
  simp only [getInstruction, getOpcode, hb, Opcode.fromU8, dif_pos hhi, bind, Except.bind]
  rw [if_neg hpush, if_pos (show b ≤ Opcode.opPushbytes75.byte from hle)]
  have hin : ¬ s.data.length < pc + 1 + b.toNat := by omega
  simp [take, hin, pure, Except.pure]

/-- One turn of the loop on an instruction other than `OP_CODESEPARATOR`: its bytes are
copied. -/
theorem withoutSeparatorsFrom_of_ok {s : Script} {pc : ℕ} (h : pc < s.data.length)
    {instruction : Instruction} (hi : s.getInstruction pc h = .ok instruction)
    (hsep : instruction.opcode ≠ .opCodeseparator) (result : List UInt8) :
    s.withoutSeparatorsFrom pc result =
      s.withoutSeparatorsFrom (pc + instruction.step)
        (result ++ (s.data.drop pc).take instruction.step) := by
  rw [withoutSeparatorsFrom, dif_pos h]
  split
  · next instruction' hi' =>
    rw [hi] at hi'
    cases hi'
    rw [if_pos hsep]
  · next hi' =>
    rw [hi] at hi'
    cases hi'

/-- The loop stops at the end of the script. -/
theorem withoutSeparatorsFrom_of_le {s : Script} {pc : ℕ} (h : s.data.length ≤ pc)
    (result : List UInt8) : s.withoutSeparatorsFrom pc result = result := by
  rw [withoutSeparatorsFrom, dif_neg (by omega)]

/-- **A P2PKH script has no separator to remove.** Its five instructions, `OP_DUP`,
`OP_HASH160`, the push of the 20-byte hash, `OP_EQUALVERIFY` and `OP_CHECKSIG`, are copied
one after the other. -/
theorem withoutSeparators_p2pkh (hash : Vector UInt8 20) :
    (⟨[0x76, 0xa9, 0x14] ++ hash.toList ++ [0x88, 0xac]⟩ : Script).withoutSeparators =
      ⟨[0x76, 0xa9, 0x14] ++ hash.toList ++ [0x88, 0xac]⟩ := by
  set s : Script := ⟨[0x76, 0xa9, 0x14] ++ hash.toList ++ [0x88, 0xac]⟩ with hs
  have hlen : s.data.length = 25 := by simp [hs]
  -- none of the script's opcodes is OP_CODESEPARATOR
  have hsep : ∀ op : Opcode, op.byte ≠ 0xab → op ≠ .opCodeseparator := by
    rintro op hne rfl
    exact hne rfl
  have h0 : s.data[0] = 0x76 := by simp [hs]
  have h1 : s.data[1] = 0xa9 := by simp [hs]
  have h2 : s.data[2] = 0x14 := by simp [hs]
  have h23 : s.data[23] = 0x88 := by simp [hs, List.getElem_append_right]
  have h24 : s.data[24] = 0xac := by simp [hs, List.getElem_append_right]
  obtain ⟨push, hpush, hi2⟩ := getInstruction_of_le (by omega) h2 (by decide) (by simp [hlen])
  -- the five instructions, one turn of the loop each
  rw [withoutSeparators, withoutSeparatorsFrom_of_ok (by omega)
    (getInstruction_of_gt (by omega) h0 (by decide) (by decide)) (hsep _ (by decide))]
  dsimp only
  rw [withoutSeparatorsFrom_of_ok (by omega)
    (getInstruction_of_gt (by omega) h1 (by decide) (by decide)) (hsep _ (by decide))]
  dsimp only
  rw [withoutSeparatorsFrom_of_ok (by omega) hi2 (hsep _ (by rw [hpush]; decide))]
  simp only [show (20 : UInt8).toNat = 20 from rfl]
  rw [withoutSeparatorsFrom_of_ok (by omega)
    (getInstruction_of_gt (by omega) h23 (by decide) (by decide)) (hsep _ (by decide))]
  dsimp only
  rw [withoutSeparatorsFrom_of_ok (by omega)
    (getInstruction_of_gt (by omega) h24 (by decide) (by decide)) (hsep _ (by decide))]
  dsimp only
  rw [withoutSeparatorsFrom_of_le (by omega)]
  simp [hs, List.take_append, List.drop_append]

end Script

/-! ## The legacy signature hash -/

/-- `sign::SignatureVersion`. -/
inductive SignatureVersion
  | base
  | witnessV0
  | forkId
  deriving DecidableEq, Repr

/-- `sign::SighashBase`. -/
inductive SighashBase
  | all
  | none
  | single
  deriving DecidableEq, Repr

/-- `sign::Sighash`. -/
structure Sighash where
  base : SighashBase
  anyoneCanPay : Bool
  forkId : Bool
  deriving DecidableEq, Repr

/-- `Sighash::from_u32`: the flags `0x80` and, under `ForkId`, `0x40`, and the base in the low
five bits, `All` unless they are `2` or `3`. -/
def Sighash.fromU32 (version : SignatureVersion) (u : UInt32) : Sighash :=
  let anyoneCanPay := u &&& 0x80 == 0x80
  let forkId := version == .forkId && u &&& 0x40 == 0x40
  let base : SighashBase := match (u &&& 0x1f).toNat with
    | 2 => .none
    | 3 => .single
    | _ => .all
  ⟨base, anyoneCanPay, forkId⟩

/-- `SIGHASH_ALL` read by `Sighash::from_u32` under the base signature version. -/
theorem Sighash.fromU32_one : Sighash.fromU32 .base 1 = ⟨.all, false, false⟩ := by decide

/-- `sign::UnsignedTransactionInput`. -/
structure UnsignedTransactionInput where
  previousOutput : OutPoint
  sequence : UInt32
  deriving DecidableEq, Repr

/-- `sign::TransactionInputSigner`. -/
structure TransactionInputSigner where
  version : Int32
  inputs : List UnsignedTransactionInput
  outputs : List TransactionOutput
  lockTime : UInt32
  deriving DecidableEq, Repr

namespace TransactionInputSigner

/-- `From<Transaction> for TransactionInputSigner`: the inputs lose their scripts. -/
def ofTransaction (t : Transaction) : TransactionInputSigner :=
  ⟨t.version, t.inputs.map fun i => ⟨i.previousOutput, i.sequence⟩, t.outputs, t.lockTime⟩

/-- The transaction that `signature_hash_original` serializes for input `inputIndex`: the
script, without separators, on that input and no script on the others (or that input alone
under `ANYONECANPAY`); under `NONE` and `SINGLE` the other inputs' sequences are zero, and the
outputs are all of them, those up to the input's with the others defaulted, or none. -/
def originalTransaction (self : TransactionInputSigner) (inputIndex : ℕ) (scriptPubkey : Script)
    (sighash : Sighash) (h : inputIndex < self.inputs.length) : Transaction :=
  let scriptPubkey := scriptPubkey.withoutSeparators
  let inputs : List TransactionInput :=
    if sighash.anyoneCanPay then
      let input := self.inputs[inputIndex]
      [⟨input.previousOutput, scriptPubkey.toBytes, input.sequence, []⟩]
    else
      self.inputs.zipIdx.map fun (input, n) =>
        ⟨input.previousOutput, if n = inputIndex then scriptPubkey.toBytes else [],
          match sighash.base with
          | .single | .none => if n ≠ inputIndex then 0 else input.sequence
          | .all => input.sequence,
          []⟩
  let outputs : List TransactionOutput :=
    match sighash.base with
    | .all => self.outputs
    | .single => ((self.outputs.take (inputIndex + 1)).zipIdx).map fun (out, n) =>
        if n = inputIndex then out else TransactionOutput.default
    | .none => []
  ⟨self.version, inputs, outputs, self.lockTime⟩

/-- The bytes that `signature_hash_original` hashes: the transaction above followed by the
sighash type; `none` where it returns the constant hash `1` instead, for an input out of range
or a `SINGLE` input without its output. -/
def originalPreimage (self : TransactionInputSigner) (inputIndex : ℕ) (scriptPubkey : Script)
    (sighashtype : UInt32) (sighash : Sighash) : Option (List UInt8) :=
  if h : inputIndex < self.inputs.length then
    if sighash.base = .single ∧ self.outputs.length ≤ inputIndex then none
    else some ((self.originalTransaction inputIndex scriptPubkey sighash h).serialize ++
      writeLE 4 sighashtype.toNat)
  else none

/-- `1u8.into()`: the hash whose first byte is `1`. -/
def hashOne : H256 := (Vector.replicate 32 0).set 0 1

/-- `TransactionInputSigner::signature_hash_original`. -/
def signatureHashOriginal (crates : Crates) (self : TransactionInputSigner) (inputIndex : ℕ)
    (scriptPubkey : Script) (sighashtype : UInt32) (sighash : Sighash) : H256 :=
  match self.originalPreimage inputIndex scriptPubkey sighashtype sighash with
  | some out => dhash256 crates out
  | none => hashOne

/-- **The legacy `SIGHASH_ALL` preimage.** For an input in range, it is the transaction with
every output, the script without separators on that input and no script on the others, each
input keeping its outpoint and sequence, followed by the four bytes of the type. -/
theorem originalPreimage_all (self : TransactionInputSigner) {inputIndex : ℕ}
    (h : inputIndex < self.inputs.length) (scriptPubkey : Script) (sighashtype : UInt32) :
    self.originalPreimage inputIndex scriptPubkey sighashtype ⟨.all, false, false⟩ =
      some ((Transaction.mk self.version
        (self.inputs.zipIdx.map fun (input, n) =>
          ⟨input.previousOutput,
            if n = inputIndex then scriptPubkey.withoutSeparators.toBytes else [],
            input.sequence, []⟩)
        self.outputs self.lockTime).serialize ++ writeLE 4 sighashtype.toNat) := by
  simp [originalPreimage, h, originalTransaction]

end TransactionInputSigner

end Keystore.Btc

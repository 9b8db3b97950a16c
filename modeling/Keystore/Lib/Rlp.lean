import Mathlib
import Keystore.Lib.Radix

/-!
# Recursive length prefix

RLP writes a tree of byte strings as bytes. A string of one byte below `0x80` is itself; any
other string is a header, then its bytes; a list is a header, then its items one after the
other. A header of a payload shorter than 56 bytes is one byte, the offset (`0x80` for a
string, `0xc0` for a list) plus the length; a longer payload has the offset plus 55 plus the
number of bytes of its length, then the length in big-endian bytes. Numbers are strings:
their big-endian bytes with no leading zero, so that `0` is the empty string.

This module gives the items and numbers of the format, and a reference encoder and decoder
that follow its definition. A program that calls an RLP library takes the library as a
parameter whose laws are the round trips proved here; the reference implementation shows that
the laws can be met, and runs the program on concrete inputs.

## Main definitions

* `Rlp.Item` — a byte string or a list of items; `Rlp.uint`, a number as a string.
* `Rlp.beBytes`, `Rlp.natOfBytes`, `Rlp.fixedBytes` — a number as minimal big-endian bytes,
  back, and as bytes of a fixed width.
* `Rlp.encode` — the encoding of an item.
* `Rlp.decodeItem`, `Rlp.decode` — a decoder, with fuel, that reads one item off the front
  of its input.
* `Rlp.Item.toBytes?`, `Rlp.Item.toNat?` — an item read as a string, or as a number of at
  most a given number of bytes with no leading zero.

## Main results

* `Rlp.natOfBytes_beBytes`, `Rlp.length_beBytes_le` — the bytes of a number read back as it,
  and there are at most `k` of them below `256 ^ k`.
* `Rlp.decodeItem_encode` — the decoder reads an encoded item back off the front of any
  input, given fuel twice its length.
* `Rlp.decode_encode` — the round trip, for encodings shorter than `2 ^ 64` bytes (the
  length of a payload takes at most 8 bytes).
* `Rlp.toNat?_uint` — a number round-trips through its string.
* `Rlp.fixedBytes_natOfBytes` — fixed-width bytes round-trip through the number they write.

## Design

The decoder is not structurally recursive on its input, so it takes fuel: one unit per item
read and per list entered. Twice the length of the input is always enough.
-/

set_option autoImplicit false

namespace Rlp

/-- An RLP item. -/
inductive Item
  | bytes (data : List UInt8)
  | list (items : List Item)
  deriving Repr

/-! ## Numbers as bytes -/

/-- The big-endian bytes of a number, with no leading zero; `0` has none. -/
def beBytes (n : ℕ) : List UInt8 := ((Nat.digits 256 n).map UInt8.ofNat).reverse

/-- The number that big-endian bytes write. -/
def natOfBytes (bytes : List UInt8) : ℕ := Radix.value 256 (bytes.map UInt8.toNat)

theorem map_toNat_beBytes (n : ℕ) : (beBytes n).map UInt8.toNat = (Nat.digits 256 n).reverse := by
  -- every digit is below `256`, so it survives the cast to a byte
  have hdigits : ∀ d ∈ Nat.digits 256 n, (UInt8.toNat ∘ UInt8.ofNat) d = id d := fun d hd => by
    have := Nat.digits_lt_base (by norm_num) hd
    simp [UInt8.toNat_ofNat', Nat.mod_eq_of_lt this]
  rw [beBytes, List.map_reverse, List.map_map, List.map_congr_left hdigits, List.map_id]

@[simp] theorem natOfBytes_beBytes (n : ℕ) : natOfBytes (beBytes n) = n := by
  rw [natOfBytes, map_toNat_beBytes, Radix.value_eq_ofDigits, List.reverse_reverse,
    Nat.ofDigits_digits]

@[simp] theorem length_beBytes (n : ℕ) : (beBytes n).length = (Nat.digits 256 n).length := by
  simp [beBytes]

theorem length_beBytes_le {n k : ℕ} (h : n < 256 ^ k) : (beBytes n).length ≤ k := by
  rw [length_beBytes, Nat.digits_length_le_iff (by norm_num)]
  exact h

@[simp] theorem beBytes_eq_nil_iff {n : ℕ} : beBytes n = [] ↔ n = 0 := by
  simp [beBytes, Nat.digits_eq_nil_iff_eq_zero]

/-- The first byte of a positive number is not zero. -/
theorem head_beBytes_ne_zero {n : ℕ} {b : UInt8} {bs : List UInt8} (h : beBytes n = b :: bs) :
    b.toNat ≠ 0 := by
  have hn : n ≠ 0 := fun h0 => by simp [beBytes_eq_nil_iff.mpr h0] at h
  -- the first byte is the last digit
  have hrev := map_toNat_beBytes n
  rw [h, List.map_cons] at hrev
  have hdigits : Nat.digits 256 n = (bs.map UInt8.toNat).reverse ++ [b.toNat] := by
    rw [← List.reverse_reverse (Nat.digits 256 n), ← hrev, List.reverse_cons]
  have hlast := Nat.getLast_digit_ne_zero 256 hn
  simpa [hdigits] using hlast

theorem natOfBytes_append_singleton (bytes : List UInt8) (b : UInt8) :
    natOfBytes (bytes ++ [b]) = natOfBytes bytes * 256 + b.toNat := by
  simp [natOfBytes, Radix.value]

theorem natOfBytes_lt (bytes : List UInt8) : natOfBytes bytes < 256 ^ bytes.length := by
  induction bytes using List.reverseRecOn with
  | nil => simp [natOfBytes]
  | append_singleton bytes b ih =>
    have hb := b.toNat_lt
    rw [natOfBytes_append_singleton, List.length_append, List.length_singleton, pow_succ]
    omega

theorem natOfBytes_append (l₁ l₂ : List UInt8) :
    natOfBytes (l₁ ++ l₂) = natOfBytes l₁ * 256 ^ l₂.length + natOfBytes l₂ := by
  rw [natOfBytes, List.map_append, Radix.value, List.foldl_append, ← Radix.value,
    Radix.foldl_horner, List.length_map]
  rfl

@[simp] theorem natOfBytes_replicate_zero (k : ℕ) : natOfBytes (List.replicate k 0) = 0 := by
  induction k with
  | zero => rfl
  | succ k ih => rw [List.replicate_succ', natOfBytes_append, ih]; rfl

/-- The low byte of a number comes last. -/
theorem beBytes_mul_add (m : ℕ) (b : UInt8) (h : b.toNat ≠ 0 ∨ m ≠ 0) :
    beBytes (m * 256 + b.toNat) = beBytes m ++ [b] := by
  have hdigits : Nat.digits 256 (b.toNat + 256 * m) = b.toNat :: Nat.digits 256 m :=
    Nat.digits_add 256 (by norm_num) b.toNat m b.toNat_lt h
  rw [beBytes, beBytes, show m * 256 + b.toNat = b.toNat + 256 * m by ring, hdigits]
  simp

/-! ## Fixed-width big-endian bytes -/

/-- A number as exactly `width` big-endian bytes, zeros first. -/
def fixedBytes (width n : ℕ) : List UInt8 :=
  List.replicate (width - (beBytes n).length) 0 ++ beBytes n

theorem length_fixedBytes {width n : ℕ} (h : n < 256 ^ width) :
    (fixedBytes width n).length = width := by
  have := length_beBytes_le h
  simp only [fixedBytes, List.length_append, List.length_replicate]
  omega

@[simp] theorem natOfBytes_fixedBytes (width n : ℕ) : natOfBytes (fixedBytes width n) = n := by
  simp [fixedBytes, natOfBytes_append]

/-- **Bytes read as a number and written back at their width are themselves.** Leading zeros
are the padding. -/
theorem fixedBytes_natOfBytes (bytes : List UInt8) :
    fixedBytes bytes.length (natOfBytes bytes) = bytes := by
  induction bytes using List.reverseRecOn with
  | nil => simp [fixedBytes, natOfBytes]
  | append_singleton bytes b ih =>
    rw [natOfBytes_append_singleton, List.length_append, List.length_singleton]
    by_cases h : b.toNat ≠ 0 ∨ natOfBytes bytes ≠ 0
    · -- the last byte is the low byte of the number
      rw [fixedBytes, beBytes_mul_add _ _ h, List.length_append, List.length_singleton,
        show bytes.length + 1 - ((beBytes (natOfBytes bytes)).length + 1) =
          bytes.length - (beBytes (natOfBytes bytes)).length by omega,
        ← List.append_assoc]
      exact congrArg (· ++ [b]) ih
    · -- a zero number: all the bytes are zeros
      obtain ⟨hb, hm⟩ : b.toNat = 0 ∧ natOfBytes bytes = 0 := by omega
      have hb0 : b = 0 := UInt8.toNat_inj.mp hb
      rw [hm, fixedBytes] at ih ⊢
      simp only [beBytes_eq_nil_iff.mpr rfl, List.length_nil, Nat.sub_zero, List.append_nil] at ih
      simp [hb0, List.replicate_succ', ih]

/-- Bytes padded with zeros in front up to a width are the number they hold, at that width. -/
theorem replicate_append_eq_fixedBytes {bytes : List UInt8} {width : ℕ}
    (h : bytes.length ≤ width) :
    List.replicate (width - bytes.length) 0 ++ bytes = fixedBytes width (natOfBytes bytes) := by
  have hlen : (beBytes (natOfBytes bytes)).length ≤ bytes.length :=
    length_beBytes_le (natOfBytes_lt bytes)
  calc List.replicate (width - bytes.length) 0 ++ bytes
      = List.replicate (width - bytes.length) 0 ++ fixedBytes bytes.length (natOfBytes bytes) := by
        rw [fixedBytes_natOfBytes]
    _ = fixedBytes width (natOfBytes bytes) := by
        rw [fixedBytes, fixedBytes, ← List.append_assoc, List.replicate_append_replicate]
        congr 2
        omega

/-! ## The encoding -/

/-- The header of a payload of `len` bytes, after `offset`: one byte below 56 bytes, and
otherwise one byte that counts the bytes of the length, then the length. -/
def encodeLength (len offset : ℕ) : List UInt8 :=
  if len < 56 then [UInt8.ofNat (offset + len)]
  else UInt8.ofNat (offset + 55 + (beBytes len).length) :: beBytes len

/-- A byte string: a single byte below `0x80` is itself, and any other string has a header. -/
def encodeBytes (data : List UInt8) : List UInt8 :=
  match data with
  | [b] => if b.toNat < 0x80 then [b] else encodeLength 1 0x80 ++ [b]
  | data => encodeLength data.length 0x80 ++ data

mutual

/-- The encoding of an item. -/
def encode : Item → List UInt8
  | .bytes data => encodeBytes data
  | .list items => encodeLength (encodeList items).length 0xc0 ++ encodeList items

/-- The payload of a list: its items' encodings, one after the other. -/
def encodeList : List Item → List UInt8
  | [] => []
  | item :: items => encode item ++ encodeList items

end

@[simp] theorem encode_bytes (data : List UInt8) : encode (.bytes data) = encodeBytes data := by
  rw [encode]

@[simp] theorem encode_list (items : List Item) :
    encode (.list items) = encodeLength (encodeList items).length 0xc0 ++ encodeList items := by
  rw [encode]

@[simp] theorem encodeList_nil : encodeList [] = [] := by rw [encodeList]

@[simp] theorem encodeList_cons (item : Item) (items : List Item) :
    encodeList (item :: items) = encode item ++ encodeList items := by
  rw [encodeList]

theorem length_encodeLength_pos (len offset : ℕ) : 0 < (encodeLength len offset).length := by
  unfold encodeLength
  split <;> simp

theorem length_encodeBytes_pos (data : List UInt8) : 0 < (encodeBytes data).length := by
  unfold encodeBytes
  split
  · split <;> simp
  · simp [length_encodeLength_pos]

theorem length_encode_pos (item : Item) : 0 < (encode item).length := by
  cases item with
  | bytes data => simpa using length_encodeBytes_pos data
  | list items => simp [length_encodeLength_pos]

/-! ## The decoder -/

/-- `n` bytes off the front of `input`, if it has that many. -/
def split (n : ℕ) (input : List UInt8) : Option (List UInt8 × List UInt8) :=
  if n ≤ input.length then some (input.take n, input.drop n) else none

@[simp] theorem split_append {n : ℕ} {pre : List UInt8} (suffix : List UInt8)
    (h : pre.length = n) : split n (pre ++ suffix) = some (pre, suffix) := by
  subst h
  simp [split]

/-- The payload that a header byte `b` after `offset` announces, and the input after it. -/
def readPayload (offset : ℕ) (b : UInt8) (input : List UInt8) :
    Option (List UInt8 × List UInt8) :=
  if b.toNat < offset + 56 then split (b.toNat - offset) input
  else do
    let (lenBytes, input) ← split (b.toNat - offset - 55) input
    split (natOfBytes lenBytes) input

mutual

/-- One item off the front of the input, and the input after it. -/
def decodeItem : ℕ → List UInt8 → Option (Item × List UInt8)
  | 0, _ => none
  | _ + 1, [] => none
  | fuel + 1, b :: input =>
    if b.toNat < 0x80 then some (.bytes [b], input)
    else if b.toNat < 0xc0 then
      (readPayload 0x80 b input).map fun (data, rest) => (.bytes data, rest)
    else do
      let (payload, rest) ← readPayload 0xc0 b input
      let items ← decodeItems fuel payload
      some (.list items, rest)

/-- The items of a payload, which must be read to its end. -/
def decodeItems : ℕ → List UInt8 → Option (List Item)
  | _, [] => some []
  | 0, _ :: _ => none
  | fuel + 1, b :: input => do
    let (item, rest) ← decodeItem fuel (b :: input)
    let items ← decodeItems fuel rest
    some (item :: items)

end

/-- The item that the whole input encodes. -/
def decode (input : List UInt8) : Option Item :=
  match decodeItem (2 * input.length) input with
  | some (item, []) => some item
  | _ => none

/-! ## The round trip -/

/-- A header written after `offset` (`0x80` or `0xc0`) reads back the payload that follows
it, when the payload is shorter than `2 ^ 64` bytes. -/
theorem readPayload_encodeLength {offset : ℕ} (hoffset : offset = 0x80 ∨ offset = 0xc0)
    {payload : List UInt8} (hlen : payload.length < 2 ^ 64) (rest : List UInt8) :
    ∃ b hdr, encodeLength payload.length offset = b :: hdr ∧
      offset ≤ b.toNat ∧ b.toNat < offset + 64 ∧
      readPayload offset b (hdr ++ payload ++ rest) = some (payload, rest) := by
  unfold encodeLength
  by_cases hshort : payload.length < 56
  · -- one byte: the offset plus the length
    have hb : (UInt8.ofNat (offset + payload.length)).toNat = offset + payload.length := by
      rw [UInt8.toNat_ofNat']; omega
    refine ⟨_, [], if_pos hshort, by omega, by omega, ?_⟩
    rw [readPayload, hb, if_pos (by omega), show offset + payload.length - offset = payload.length
      by omega, List.nil_append, split_append _ rfl]
  · -- the number of bytes of the length, at most 8, then the length
    have hk : (beBytes payload.length).length ≤ 8 := length_beBytes_le (by simpa using hlen)
    have hk0 : (beBytes payload.length).length ≠ 0 := by
      intro h0
      rw [List.length_eq_zero_iff, beBytes_eq_nil_iff] at h0
      omega
    have hb : (UInt8.ofNat (offset + 55 + (beBytes payload.length).length)).toNat =
        offset + 55 + (beBytes payload.length).length := by
      rw [UInt8.toNat_ofNat']; omega
    refine ⟨_, _, if_neg hshort, by omega, by omega, ?_⟩
    have hnot : ¬ offset + 55 + (beBytes payload.length).length < offset + 56 := by omega
    simp only [readPayload, hb, hnot, if_false, List.append_assoc,
      show offset + 55 + (beBytes payload.length).length - offset - 55 =
        (beBytes payload.length).length by omega, split_append _ rfl]
    simp

/-- A string with a header reads back. -/
theorem decodeItem_header_bytes {data : List UInt8} (hlen : data.length < 2 ^ 64)
    (rest : List UInt8) (fuel : ℕ) :
    decodeItem (fuel + 1) (encodeLength data.length 0x80 ++ data ++ rest) =
      some (.bytes data, rest) := by
  obtain ⟨b, hdr, henc, hlo, hhi, hread⟩ := readPayload_encodeLength (Or.inl rfl) hlen rest
  rw [henc, List.cons_append, List.cons_append, decodeItem, if_neg (by omega), if_pos (by omega),
    hread]
  rfl

/-- A list reads back, once its payload reads back as its items. -/
theorem decodeItem_header_list {payload : List UInt8} (hlen : payload.length < 2 ^ 64)
    (rest : List UInt8) {fuel : ℕ} {items : List Item}
    (hitems : decodeItems fuel payload = some items) :
    decodeItem (fuel + 1) (encodeLength payload.length 0xc0 ++ payload ++ rest) =
      some (.list items, rest) := by
  obtain ⟨b, hdr, henc, hlo, hhi, hread⟩ := readPayload_encodeLength (Or.inr rfl) hlen rest
  rw [henc, List.cons_append, List.cons_append, decodeItem, if_neg (by omega), if_neg (by omega),
    hread]
  simp [hitems]

mutual

/-- **The decoder reads an encoded item back**, off the front of any input, with fuel twice
the encoding's length.

**Proof sketch.** Mutual recursion with `decodeItems_encodeList` over the item. A string's
header reads back its payload (`readPayload_encodeLength`); a list's header reads back the
encoding of its items, which `decodeItems_encodeList` reads with the fuel left. -/
theorem decodeItem_encode : ∀ (item : Item) (rest : List UInt8) (fuel : ℕ),
    (encode item).length < 2 ^ 64 → 2 * (encode item).length ≤ fuel →
      decodeItem fuel (encode item ++ rest) = some (item, rest)
  | .bytes data, rest, fuel, hlen, hfuel => by
    obtain ⟨fuel, rfl⟩ : ∃ f, fuel = f + 1 :=
      Nat.exists_eq_add_one.mpr (by have := length_encode_pos (.bytes data); omega)
    rw [encode_bytes] at hlen ⊢
    have hdata : data.length < 2 ^ 64 := by
      have : data.length ≤ (encodeBytes data).length := by
        unfold encodeBytes; split
        · split <;> simp
        · simp
      omega
    unfold encodeBytes
    split
    · -- one byte: itself below `0x80`, and a header otherwise
      split
      · simp [decodeItem, *]
      · exact decodeItem_header_bytes hdata rest fuel
    · exact decodeItem_header_bytes hdata rest fuel
  | .list items, rest, fuel, hlen, hfuel => by
    have hpos := length_encodeLength_pos (encodeList items).length 0xc0
    simp only [encode_list, List.length_append] at hlen hfuel
    obtain ⟨fuel, rfl⟩ : ∃ f, fuel = f + 1 := Nat.exists_eq_add_one.mpr (by omega)
    rw [encode_list]
    exact decodeItem_header_list (by omega) rest
      (decodeItems_encodeList items fuel (by omega) (by omega))

/-- The payload of a list reads back as its items. -/
theorem decodeItems_encodeList : ∀ (items : List Item) (fuel : ℕ),
    (encodeList items).length < 2 ^ 64 → 2 * (encodeList items).length + 1 ≤ fuel →
      decodeItems fuel (encodeList items) = some items
  | [], fuel, _, _ => by
    rw [encodeList_nil, decodeItems]
  | item :: items, fuel, hlen, hfuel => by
    have hpos := length_encode_pos item
    simp only [encodeList_cons, List.length_append] at hlen hfuel ⊢
    obtain ⟨fuel, rfl⟩ : ∃ f, fuel = f + 1 := Nat.exists_eq_add_one.mpr (by omega)
    -- the payload starts with the item's first byte
    obtain ⟨b, input, hbi⟩ : ∃ b input, encode item ++ encodeList items = b :: input := by
      obtain ⟨b, bs, h⟩ := List.exists_cons_of_length_pos hpos
      exact ⟨b, bs ++ encodeList items, by rw [h, List.cons_append]⟩
    rw [hbi, decodeItems, ← hbi, decodeItem_encode item _ fuel (by omega) (by omega)]
    simp [decodeItems_encodeList items fuel (by omega) (by omega)]

end

/-- **RLP round trip.** An encoding shorter than `2 ^ 64` bytes decodes as its item. -/
theorem decode_encode {item : Item} (hlen : (encode item).length < 2 ^ 64) :
    decode (encode item) = some item := by
  have h := decodeItem_encode item [] (2 * (encode item).length) hlen le_rfl
  rw [List.append_nil] at h
  simp [decode, h]

/-! ## Reading the fields of an item -/

/-- A number as an item: its string. -/
def uint (n : ℕ) : Item := .bytes (beBytes n)

/-- The string of an item. -/
def Item.toBytes? : Item → Option (List UInt8)
  | .bytes data => some data
  | .list _ => none

/-- An item as a number of at most `width` bytes: a string, with no leading zero. -/
def Item.toNat? (width : ℕ) : Item → Option ℕ
  | .bytes data => if data.length ≤ width ∧ data.head? ≠ some 0 then some (natOfBytes data) else none
  | .list _ => none

/-- A number below `256 ^ width` reads back from its string. -/
theorem toNat?_uint {n width : ℕ} (h : n < 256 ^ width) : (uint n).toNat? width = some n := by
  have hhead : (beBytes n).head? ≠ some 0 := by
    cases hb : beBytes n with
    | nil => simp
    | cons b bs =>
      have := head_beBytes_ne_zero hb
      simp only [List.head?_cons, ne_eq, Option.some.injEq]
      intro h0
      simp [h0] at this
  rw [uint, Item.toNat?, if_pos ⟨length_beBytes_le h, hhead⟩, natOfBytes_beBytes]

end Rlp

import Keystore.Rust.Core
import Keystore.Lib.Buffered

/-!
# `utils`: the storage hex codec and the key cipher

`encode_hex` and `decode_hex` turn the encrypted private keys into the strings stored in the
database and back; `encrypt` and `decrypt` are AES-256-CBC with PKCS#7 padding from the
`rust-crypto` crate, driven through a 4096-byte output buffer. The cipher is not in the
repository, so it is a parameter (`Keystore.Aes256Cbc`), and what the key storage relies on
is stated as a hypothesis about it (`Keystore.Aes256Cbc.Inverts`).

## Main definitions

* `Keystore.pushHex` — the loop shared by `encode_hex` and `blockchain::utils::bytes_to_hex`.
* `Keystore.encodeHex`, `Keystore.decodeHex` — `utils::encode_hex`, `utils::decode_hex`
  (`none` is a panic).
* `Keystore.Aes256Cbc` — the cipher of `rust-crypto`, as a parameter.
* `Keystore.encrypt`, `Keystore.decrypt` — `utils::encrypt`, `utils::decrypt`: the buffer loop
  of `Buffered.Transformer.drain` around the cipher.

## Main results

* `Keystore.encodeHex_toList` — `encode_hex` writes two lowercase digits per byte.
* `Keystore.decodeHex_encodeHex` — `decode_hex` inverts `encode_hex`, without panicking.
* `Keystore.decrypt_encrypt` — under `Aes256Cbc.Inverts`, `decrypt` inverts `encrypt` for a
  32-byte key and a 16-byte IV, whatever the 4096-byte buffer makes each call return.
-/

set_option autoImplicit false

namespace Keystore

open Rust

/-! ## Encoding -/

/-- The loop `for byte in bytes { res.push_str(&format!("{:02x}", byte)) }`. -/
def pushHex (res : String) (bytes : List UInt8) : String :=
  bytes.foldl (fun res byte => res ++ lowerHex02 byte) res

/-- `utils::encode_hex`. -/
def encodeHex (bytes : List UInt8) : String := pushHex "" bytes

/-- The two digit characters of a byte. -/
def hexPair (b : UInt8) : List Char := [hexDigitChar (b.toNat / 16), hexDigitChar (b.toNat % 16)]

theorem lowerHex02_toList (b : UInt8) : (lowerHex02 b).toList = hexPair b :=
  String.toList_ofList

theorem pushHex_toList (res : String) (bytes : List UInt8) :
    (pushHex res bytes).toList = res.toList ++ bytes.flatMap hexPair := by
  induction bytes generalizing res with
  | nil => simp [pushHex]
  | cons b bs ih =>
    have step : pushHex res (b :: bs) = pushHex (res ++ lowerHex02 b) bs := rfl
    rw [step, ih, String.toList_append, lowerHex02_toList, List.flatMap_cons, List.append_assoc]

theorem encodeHex_toList (bytes : List UInt8) : (encodeHex bytes).toList = bytes.flatMap hexPair := by
  simp [encodeHex, pushHex_toList]

theorem hexPair_ascii (b : UInt8) : ∀ c ∈ hexPair b, c.utf8Size = 1 := by
  have hhi : b.toNat / 16 < 16 := by have := b.toNat_lt; omega
  have hlo : b.toNat % 16 < 16 := Nat.mod_lt _ (by norm_num)
  simp [hexPair, hexDigitChar_utf8Size hhi, hexDigitChar_utf8Size hlo]

/-- A hex string is ASCII. -/
theorem flatMap_hexPair_ascii (bytes : List UInt8) : ∀ c ∈ bytes.flatMap hexPair, c.utf8Size = 1 := by
  intro c hc
  obtain ⟨b, -, hb⟩ := List.mem_flatMap.mp hc
  exact hexPair_ascii b c hb

theorem length_flatMap_hexPair (bytes : List UInt8) :
    (bytes.flatMap hexPair).length = 2 * bytes.length := by
  induction bytes with
  | nil => rfl
  | cons b bs ih => simp [hexPair, ih]; omega

theorem length_encodeHex (bytes : List UInt8) : (encodeHex bytes).length = 2 * bytes.length := by
  rw [← String.length_toList, encodeHex_toList, length_flatMap_hexPair]

theorem encodeHex_ascii (bytes : List UInt8) : ∀ c ∈ (encodeHex bytes).toList, c.utf8Size = 1 := by
  rw [encodeHex_toList]
  exact flatMap_hexPair_ascii bytes

/-- The bytes of the digit pair of `b`. -/
def hexPairBytes (b : UInt8) : List UInt8 := [hexDigitByte (b.toNat / 16), hexDigitByte (b.toNat % 16)]

theorem flatMap_utf8_hexPair (bytes : List UInt8) :
    (bytes.flatMap hexPair).flatMap String.utf8EncodeChar = bytes.flatMap hexPairBytes := by
  induction bytes with
  | nil => rfl
  | cons b bs ih =>
    have hhi : b.toNat / 16 < 16 := by have := b.toNat_lt; omega
    have hlo : b.toNat % 16 < 16 := Nat.mod_lt _ (by norm_num)
    simp [hexPair, hexPairBytes, utf8EncodeChar_hexDigitChar hhi, utf8EncodeChar_hexDigitChar hlo, ih]

/-- Two digit characters formatted into a string and parsed in radix 16 give the byte back. -/
theorem u8FromStrRadix_hexPair (b : UInt8) :
    u8FromStrRadix (asBytes (String.ofList (hexPair b))) 16 = .ok b := by
  have hhi : b.toNat / 16 < 16 := by have := b.toNat_lt; omega
  have hlo : b.toNat % 16 < 16 := Nat.mod_lt _ (by norm_num)
  simp only [asBytes, String.toList_ofList, hexPair, List.flatMap_cons, List.flatMap_nil,
    utf8EncodeChar_hexDigitChar hhi, utf8EncodeChar_hexDigitChar hlo, List.singleton_append,
    List.append_nil]
  exact u8FromStrRadix_hexDigitBytes b

/-! ## Decoding -/

/-- One chunk of `decode_hex`: both bytes are pushed as characters (`u8 → char` reads a byte
as the character with that code) and the string is parsed in radix 16. The `unwrap` panics
on a parse error, and `chunk[1]` panics on the one-byte chunk of an odd-length input. -/
def decodeHexChunk (chunk : List UInt8) : Option UInt8 :=
  match chunk with
  | [b0, b1] =>
    match u8FromStrRadix (asBytes (String.ofList [Char.ofNat b0.toNat, Char.ofNat b1.toNat])) 16 with
    | .ok v => some v
    | .error _ => none
  | _ => none

/-- `utils::decode_hex`; `none` is a panic. -/
def decodeHex (hexStr : String) : Option (List UInt8) :=
  (chunks2 (asBytes hexStr)).mapM decodeHexChunk

theorem decodeHexChunk_hexPairBytes (b : UInt8) : decodeHexChunk (hexPairBytes b) = some b := by
  have hhi : b.toNat / 16 < 16 := by have := b.toNat_lt; omega
  have hlo : b.toNat % 16 < 16 := Nat.mod_lt _ (by norm_num)
  have key := u8FromStrRadix_hexPair b
  simp only [hexPair] at key
  simp only [decodeHexChunk, hexPairBytes, ofNat_hexDigitByte hhi, ofNat_hexDigitByte hlo, key]

theorem chunks2_flatMap_hexPairBytes (bytes : List UInt8) :
    chunks2 (bytes.flatMap hexPairBytes) = bytes.map hexPairBytes :=
  chunks2_flatMap_pair _ _ bytes

theorem mapM_decodeHexChunk (bytes : List UInt8) :
    (bytes.map hexPairBytes).mapM decodeHexChunk = some bytes := by
  induction bytes with
  | nil => rfl
  | cons b bs ih => simp [List.mapM_cons, decodeHexChunk_hexPairBytes, ih]

/-- **`decode_hex` inverts `encode_hex`**, and never panics on its output. -/
theorem decodeHex_encodeHex (bytes : List UInt8) : decodeHex (encodeHex bytes) = some bytes := by
  rw [decodeHex, asBytes, encodeHex_toList, flatMap_utf8_hexPair, chunks2_flatMap_hexPairBytes,
    mapM_decodeHexChunk]

/-! ## The cipher -/

/-- `crypto::symmetriccipher::SymmetricCipherError`. -/
inductive SymmetricCipherError
  | invalidLength
  | invalidPadding
  deriving DecidableEq, Repr

/-- AES-256 in CBC mode with PKCS#7 padding from `rust-crypto`, as `utils` uses it.
`cbc_encryptor(KeySize256, key, iv, PkcsPadding)` builds an encryptor from the key and the IV
(`none`: it panics); one call `encryptor.encrypt(&mut read_buffer, &mut write_buffer, true)`
on the loop's 4096-byte write buffer is one step of `encryptor`. Decryption is the same. -/
structure Aes256Cbc where
  Encryptor : Type
  Decryptor : Type
  cbcEncryptor : List UInt8 → List UInt8 → Option Encryptor
  cbcDecryptor : List UInt8 → List UInt8 → Option Decryptor
  encryptor : Buffered.Transformer Encryptor UInt8 UInt8 SymmetricCipherError
  decryptor : Buffered.Transformer Decryptor UInt8 UInt8 SymmetricCipherError

/-- `utils::encrypt`: the loop that calls the encryptor until it has read all of `data`,
collecting what each call wrote; `try!` returns the first error. The outer `none` is a panic
of the constructor. -/
def encrypt (aes : Aes256Cbc) (data key iv : List UInt8) :
    Option (Except SymmetricCipherError (List UInt8)) :=
  (aes.cbcEncryptor key iv).map fun encryptor => aes.encryptor.drain encryptor data []

/-- `utils::decrypt`, the same loop around the decryptor. -/
def decrypt (aes : Aes256Cbc) (encryptedData key iv : List UInt8) :
    Option (Except SymmetricCipherError (List UInt8)) :=
  (aes.cbcDecryptor key iv).map fun decryptor => aes.decryptor.drain decryptor encryptedData []

/-- What the key storage assumes of `rust-crypto`. The encryptor and the decryptor stream
whole-message functions `enc` and `dec` through any output buffer
(`Buffered.Transformer.Computes`); for a 32-byte key and a 16-byte IV both constructors
succeed, and `dec` inverts `enc` on every message. -/
def Aes256Cbc.Inverts (aes : Aes256Cbc) : Prop :=
  ∃ (enc : aes.Encryptor → List UInt8 → Except SymmetricCipherError (List UInt8))
    (dec : aes.Decryptor → List UInt8 → Except SymmetricCipherError (List UInt8)),
    aes.encryptor.Computes enc ∧ aes.decryptor.Computes dec ∧
    ∀ key iv : List UInt8, key.length = 32 → iv.length = 16 →
      ∃ e d, aes.cbcEncryptor key iv = some e ∧ aes.cbcDecryptor key iv = some d ∧
        ∀ data, ∃ c, enc e data = .ok c ∧ dec d c = .ok data

/-- **`decrypt` inverts `encrypt`.** Under `Aes256Cbc.Inverts`, for a 32-byte key and a
16-byte IV, `encrypt` succeeds and `decrypt` of its result gives the data back.

**Proof sketch.** By `Buffered.Transformer.drain_eq_of_computes`, each buffer loop returns the
whole-message function from its initial state, and these invert each other. -/
theorem decrypt_encrypt {aes : Aes256Cbc} (haes : aes.Inverts) (data : List UInt8)
    {key iv : List UInt8} (hkey : key.length = 32) (hiv : iv.length = 16) :
    ∃ c, encrypt aes data key iv = some (.ok c) ∧ decrypt aes c key iv = some (.ok data) := by
  obtain ⟨enc, dec, henc, hdec, hinv⟩ := haes
  obtain ⟨e, d, he, hd, hed⟩ := hinv key iv hkey hiv
  obtain ⟨c, hc, hdc⟩ := hed data
  refine ⟨c, ?_, ?_⟩
  · rw [encrypt, he, Option.map_some, Buffered.Transformer.drain_eq_of_computes henc, hc]
    rfl
  · rw [decrypt, hd, Option.map_some, Buffered.Transformer.drain_eq_of_computes hdec, hdc]
    rfl

end Keystore

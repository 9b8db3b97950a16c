import Keystore.Utils

/-!
# `models::key`, `models::user`, `models::currency`: keys and their storage codec

A `Key` holds a private key as a lowercase hex string. It is stored as an `EncryptedKey`,
whose private key is the hex of a fresh 16-byte IV followed by the hex of the AES-256-CBC
ciphertext of the key's bytes, under the service's AES key (itself a hex string). Reading a
key back slices the stored string at 32 characters, decodes both halves and decrypts; each
step panics (`none`) on a malformed value.

## Main definitions

* `Keystore.Currency`, `Keystore.UserId`, `Keystore.User` — `models::currency`, `models::user`.
* `Keystore.PrivateKey.fromEncrypted`, `Keystore.EncryptedPrivateKey.fromPrivateKey` — the
  private key codec; the IV drawn from `OsRng` is an argument.
* `Keystore.Key.fromEncrypted`, `Keystore.NewEncryptedKey.fromNewKey` — the same on records.
* `Keystore.PrivateKey.IsLowerHex` — the private key is the hex encoding of some bytes.

## Main results

* `Keystore.fromEncrypted_fromPrivateKey` — for a 32-byte AES key, encrypting a hex private key
  gives the IV's 32 hex digits followed by the ciphertext's, and reading that back gives the
  private key, without a panic.
* `Keystore.fromEncrypted_fromNewKey` — the same for whole records.
-/

set_option autoImplicit false

namespace Keystore

open Rust

/-! ## Identifiers, users and currencies -/

/-- `uuid::Uuid`. -/
structure Uuid where
  bits : BitVec 128
  deriving DecidableEq, Repr

/-- `std::time::SystemTime`, as nanoseconds since the Unix epoch. -/
structure SystemTime where
  nanos : ℕ
  deriving DecidableEq, Repr

/-- `models::UserId`. -/
structure UserId where
  inner : Uuid
  deriving DecidableEq, Repr

/-- `models::AuthenticationToken`. -/
structure AuthenticationToken where
  inner : String
  deriving DecidableEq, Repr

/-- `models::User`. -/
structure User where
  id : UserId
  name : String
  authenticationToken : AuthenticationToken
  createdAt : SystemTime
  updatedAt : SystemTime
  deriving DecidableEq, Repr

/-- `models::Currency`. -/
inductive Currency
  | eth
  | stq
  | btc
  deriving DecidableEq, Repr

/-- `ToSql<VarChar, Pg> for Currency`: the bytes written to a `VARCHAR` column. -/
def Currency.toSql : Currency → List UInt8
  | .eth => asBytes "eth"
  | .stq => asBytes "stq"
  | .btc => asBytes "btc"

/-- The errors of `FromSql<VarChar, Pg> for Currency`: `Unrecognized enum variant: ..` with the
bytes read, and `Unexpected null for non-null column`. -/
inductive CurrencyFromSqlError
  | unrecognizedEnumVariant (data : List UInt8)
  | unexpectedNull
  deriving DecidableEq, Repr

/-- `FromSql<VarChar, Pg> for Currency`. -/
def Currency.fromSql : Option (List UInt8) → Except CurrencyFromSqlError Currency
  | some data =>
    if data = asBytes "eth" then .ok .eth
    else if data = asBytes "stq" then .ok .stq
    else if data = asBytes "btc" then .ok .btc
    else .error (.unrecognizedEnumVariant data)
  | none => .error .unexpectedNull

/-! ## Private keys and their encryption -/

/-- `models::KeyId`. -/
structure KeyId where
  inner : Uuid
  deriving DecidableEq, Repr

/-- `models::PrivateKey`: a hex encoded private key. -/
structure PrivateKey where
  inner : String
  deriving DecidableEq, Repr

/-- `models::EncryptedPrivateKey`: a hex encoded encrypted private key. -/
structure EncryptedPrivateKey where
  inner : String
  deriving DecidableEq, Repr

/-- `models::BlockchainAddress`: a hex encoded blockchain address. -/
structure BlockchainAddress where
  inner : String
  deriving DecidableEq, Repr

/-- `PrivateKey::from_encrypted`: decode the AES key, slice the stored string into the IV's
32 digits and the ciphertext's, decode both, decrypt and encode the plaintext. Each
`decode_hex`, both slices and the `unwrap` of `decrypt` may panic (`none`). -/
def PrivateKey.fromEncrypted (aes : Aes256Cbc) (encryptedPk : EncryptedPrivateKey)
    (aesKey : String) : Option PrivateKey := do
  let key ← decodeHex aesKey
  let encrypted := encryptedPk.inner
  let iv ← decodeHex (← strSlice encrypted 0 32)
  let encrypted ← decodeHex (← strSliceFrom encrypted 32)
  let decrypted ← (← decrypt aes encrypted key iv).toOption
  pure ⟨encodeHex decrypted⟩

/-- `EncryptedPrivateKey::from_private_key`, with the 16 bytes that `OsRng` fills the IV with
as an argument: decode the AES key and the private key, encrypt, and write the IV's hex
followed by the ciphertext's. -/
def EncryptedPrivateKey.fromPrivateKey (aes : Aes256Cbc) (pk : PrivateKey) (aesKey : String)
    (iv : Vector UInt8 16) : Option EncryptedPrivateKey := do
  let key ← decodeHex aesKey
  let decrypted ← decodeHex pk.inner
  let encrypted ← (← encrypt aes decrypted key iv.toList).toOption
  pure ⟨encodeHex iv.toList ++ encodeHex encrypted⟩

/-- The private key is the lowercase hex encoding of some bytes: decoding it and encoding the
bytes again give it back. Every key the blockchain services generate is of this form. -/
def PrivateKey.IsLowerHex (pk : PrivateKey) : Prop :=
  (decodeHex pk.inner).map encodeHex = some pk.inner

instance : DecidablePred PrivateKey.IsLowerHex :=
  fun pk => inferInstanceAs (Decidable ((decodeHex pk.inner).map encodeHex = some pk.inner))

theorem PrivateKey.isLowerHex_iff {pk : PrivateKey} :
    pk.IsLowerHex ↔ ∃ bytes, pk = ⟨encodeHex bytes⟩ := by
  constructor
  · intro h
    obtain ⟨bytes, -, hbytes⟩ := Option.map_eq_some_iff.mp h
    exact ⟨bytes, by rw [hbytes]⟩
  · rintro ⟨bytes, rfl⟩
    simp [PrivateKey.IsLowerHex, decodeHex_encodeHex]

example : PrivateKey.IsLowerHex ⟨"00ff"⟩ ∧ ¬ PrivateKey.IsLowerHex ⟨"00FF"⟩ := by decide

section Codec

variable {aes : Aes256Cbc}

/-- Reading back a stored private key: if the ciphertext `c` decrypts to `data` under `key` and
the 16-byte `iv`, then the string of the IV's hex and the ciphertext's decodes to the hex of
`data`.

**Proof sketch.** The IV's hex is 32 ASCII characters, so the two slices at 32 are exactly the
two hex strings (`strSlice_append_of_ascii`), each of which `decode_hex` reads back. -/
theorem fromEncrypted_encodeHex {key iv c data : List UInt8} (hiv : iv.length = 16)
    (hdec : decrypt aes c key iv = some (.ok data)) :
    PrivateKey.fromEncrypted aes ⟨encodeHex iv ++ encodeHex c⟩ (encodeHex key) =
      some ⟨encodeHex data⟩ := by
  have hlen : (encodeHex iv).length = 32 := by rw [length_encodeHex, hiv]
  have hiv' : strSlice (encodeHex iv ++ encodeHex c) 0 32 = some (encodeHex iv) :=
    hlen ▸ strSlice_append_of_ascii (encodeHex_ascii iv) (encodeHex_ascii c)
  have hc' : strSliceFrom (encodeHex iv ++ encodeHex c) 32 = some (encodeHex c) :=
    hlen ▸ strSliceFrom_append_of_ascii (encodeHex_ascii iv) (encodeHex_ascii c)
  simp [PrivateKey.fromEncrypted, decodeHex_encodeHex, hiv', hc', hdec, Except.toOption]

/-- Storing a hex private key: with the ciphertext `c` of its bytes, the stored string is the
IV's hex followed by the ciphertext's. -/
theorem fromPrivateKey_encodeHex {key data c : List UInt8} (iv : Vector UInt8 16)
    (henc : encrypt aes data key iv.toList = some (.ok c)) :
    EncryptedPrivateKey.fromPrivateKey aes ⟨encodeHex data⟩ (encodeHex key) iv =
      some ⟨encodeHex iv.toList ++ encodeHex c⟩ := by
  simp [EncryptedPrivateKey.fromPrivateKey, decodeHex_encodeHex, henc, Except.toOption]

/-- **The private key codec round-trips.** Under `Aes256Cbc.Inverts`, for a 32-byte AES key,
the encrypted form of the hex of `data` is the IV's 32 hex digits followed by the hex of the
ciphertext, and reading it back gives the hex of `data`, without a panic on either side. -/
theorem fromEncrypted_fromPrivateKey (haes : aes.Inverts) {key : List UInt8}
    (hkey : key.length = 32) (data : List UInt8) (iv : Vector UInt8 16) :
    ∃ c, encrypt aes data key iv.toList = some (.ok c) ∧
      EncryptedPrivateKey.fromPrivateKey aes ⟨encodeHex data⟩ (encodeHex key) iv =
        some ⟨encodeHex iv.toList ++ encodeHex c⟩ ∧
      (encodeHex iv.toList).length = 32 ∧
      PrivateKey.fromEncrypted aes ⟨encodeHex iv.toList ++ encodeHex c⟩ (encodeHex key) =
        some ⟨encodeHex data⟩ := by
  obtain ⟨c, henc, hdec⟩ := decrypt_encrypt haes data hkey iv.length_toList
  refine ⟨c, henc, fromPrivateKey_encodeHex iv henc, ?_, fromEncrypted_encodeHex iv.length_toList hdec⟩
  rw [length_encodeHex, iv.length_toList]

end Codec

/-! ## Key records -/

/-- `models::Key`: a key as the services see it, with its private key in the clear. -/
structure Key where
  id : KeyId
  privateKey : PrivateKey
  blockchainAddress : BlockchainAddress
  currency : Currency
  ownerId : UserId
  createdAt : SystemTime
  updatedAt : SystemTime
  deriving DecidableEq, Repr

/-- `models::NewKey`: the payload of a key to store. -/
structure NewKey where
  id : KeyId
  privateKey : PrivateKey
  blockchainAddress : BlockchainAddress
  currency : Currency
  ownerId : UserId
  deriving DecidableEq, Repr

/-- `models::EncryptedKey`: a row of the `keys` table. -/
structure EncryptedKey where
  id : KeyId
  privateKey : EncryptedPrivateKey
  blockchainAddress : BlockchainAddress
  currency : Currency
  ownerId : UserId
  createdAt : SystemTime
  updatedAt : SystemTime
  deriving DecidableEq, Repr

/-- `models::NewEncryptedKey`: the row to insert into the `keys` table. -/
structure NewEncryptedKey where
  id : KeyId
  privateKey : EncryptedPrivateKey
  blockchainAddress : BlockchainAddress
  currency : Currency
  ownerId : UserId
  deriving DecidableEq, Repr

/-- `Key::from_encrypted`: decrypt the private key, keep the other columns. -/
def Key.fromEncrypted (aes : Aes256Cbc) (encryptedKey : EncryptedKey) (aesKey : String) :
    Option Key := do
  let privateKey ← PrivateKey.fromEncrypted aes encryptedKey.privateKey aesKey
  pure { id := encryptedKey.id, privateKey, blockchainAddress := encryptedKey.blockchainAddress,
         currency := encryptedKey.currency, ownerId := encryptedKey.ownerId,
         createdAt := encryptedKey.createdAt, updatedAt := encryptedKey.updatedAt }

/-- `NewEncryptedKey::from_new_key`: encrypt the private key with the IV `iv`, keep the other
fields. -/
def NewEncryptedKey.fromNewKey (aes : Aes256Cbc) (newKey : NewKey) (aesKey : String)
    (iv : Vector UInt8 16) : Option NewEncryptedKey := do
  let privateKey ← EncryptedPrivateKey.fromPrivateKey aes newKey.privateKey aesKey iv
  pure { id := newKey.id, privateKey, blockchainAddress := newKey.blockchainAddress,
         currency := newKey.currency, ownerId := newKey.ownerId }

/-- The row Postgres keeps for an inserted `NewEncryptedKey`: the timestamps are filled in by
the column defaults. -/
def NewEncryptedKey.toEncryptedKey (row : NewEncryptedKey) (createdAt updatedAt : SystemTime) :
    EncryptedKey :=
  { id := row.id, privateKey := row.privateKey, blockchainAddress := row.blockchainAddress,
    currency := row.currency, ownerId := row.ownerId, createdAt, updatedAt }

/-- The key a `NewKey` becomes once stored with the given timestamps. -/
def NewKey.toKey (newKey : NewKey) (createdAt updatedAt : SystemTime) : Key :=
  { id := newKey.id, privateKey := newKey.privateKey, blockchainAddress := newKey.blockchainAddress,
    currency := newKey.currency, ownerId := newKey.ownerId, createdAt, updatedAt }

section Records

variable {aes : Aes256Cbc} {aesKey : String}

/-- `Key::from_encrypted` decrypts the private key and changes no other column. -/
theorem Key.fromEncrypted_eq_some {encryptedKey : EncryptedKey} {key : Key} :
    Key.fromEncrypted aes encryptedKey aesKey = some key ↔
      PrivateKey.fromEncrypted aes encryptedKey.privateKey aesKey = some key.privateKey ∧
      key.id = encryptedKey.id ∧ key.blockchainAddress = encryptedKey.blockchainAddress ∧
      key.currency = encryptedKey.currency ∧ key.ownerId = encryptedKey.ownerId ∧
      key.createdAt = encryptedKey.createdAt ∧ key.updatedAt = encryptedKey.updatedAt := by
  cases key
  simp only [Key.fromEncrypted, Option.bind_eq_bind, Option.bind_eq_some_iff, Option.pure_def,
    Option.some.injEq, Key.mk.injEq]
  constructor
  · rintro ⟨pk, hpk, rfl, rfl, rfl, rfl, rfl, rfl, rfl⟩
    exact ⟨hpk, rfl, rfl, rfl, rfl, rfl, rfl⟩
  · rintro ⟨hpk, rfl, rfl, rfl, rfl, rfl, rfl⟩
    exact ⟨_, hpk, rfl, rfl, rfl, rfl, rfl, rfl, rfl⟩

/-- **Stored records round-trip.** Under `Aes256Cbc.Inverts`, for a 32-byte AES key and a hex
private key, `from_new_key` succeeds, and whatever timestamps the database gives the row,
`Key::from_encrypted` reads back the payload with those timestamps. -/
theorem fromEncrypted_fromNewKey (haes : aes.Inverts) {key : List UInt8} (hkey : key.length = 32)
    {newKey : NewKey} (hpk : newKey.privateKey.IsLowerHex) (iv : Vector UInt8 16) :
    ∃ row, NewEncryptedKey.fromNewKey aes newKey (encodeHex key) iv = some row ∧
      ∀ createdAt updatedAt,
        Key.fromEncrypted aes (row.toEncryptedKey createdAt updatedAt) (encodeHex key) =
          some (newKey.toKey createdAt updatedAt) := by
  obtain ⟨bytes, hbytes⟩ := PrivateKey.isLowerHex_iff.mp hpk
  obtain ⟨c, -, henc, -, hdec⟩ := fromEncrypted_fromPrivateKey haes hkey bytes iv
  refine ⟨{ id := newKey.id, privateKey := ⟨encodeHex iv.toList ++ encodeHex c⟩,
            blockchainAddress := newKey.blockchainAddress, currency := newKey.currency,
            ownerId := newKey.ownerId }, ?_, ?_⟩
  · simp [NewEncryptedKey.fromNewKey, hbytes, henc]
  · intro createdAt updatedAt
    rw [Key.fromEncrypted_eq_some]
    exact ⟨by simpa [NewEncryptedKey.toEncryptedKey, NewKey.toKey, hbytes] using hdec,
      rfl, rfl, rfl, rfl, rfl, rfl⟩

end Records

end Keystore

import Keystore.Models.Key
import Keystore.Lib.Codec

/-!
# `repos::keys`: the encrypted `keys` table

`KeysRepoImpl` keeps keys in the Postgres table `keys`, the private key encrypted under the
repository's AES key (`models::key`), and decrypts every row it reads. The table is modelled
with its unique indices as fields (`KeysTable`), so a table that breaks them cannot be built;
an insert that would break one fails with `UniqueViolation`, and one whose owner is not a user
fails with `ForeignKeyViolation`. Postgres returns the rows of a query without `ORDER BY` in no
promised order, so every read takes the order of the scan as an argument, which may be any
permutation of the rows.

## Main definitions

* `Keystore.Repos.KeysTable` — the `keys` table with its unique indices.
* `Keystore.Repos.KeysTable.insert` — `INSERT .. RETURNING *`.
* `Keystore.Repos.KeysRepoImpl.all`, `.list`, `.findByAddress`, `.create` — the repository.
* `Keystore.Repos.KeysRepoImpl.runCreates` — a sequence of `create` calls.
* `Keystore.Repos.KeysRepo` — the interface `repos::KeysRepo`, and
  `Keystore.Repos.KeysRepoImpl.toKeysRepo`, its implementation over the table.

## Main results

The table refines the list of keys in the clear that its rows decrypt to
(`Codec.Decodes`):

* `Keystore.Repos.KeysRepoImpl.create_refines` — a `create` appends the payload, stamped with
  the insert time, to the keys in the clear, or fails and changes nothing.
* `Keystore.Repos.KeysRepoImpl.all_refines`, `.list_refines`, `.findByAddress_refines` — each
  read returns, in the scan's order, the keys in the clear that its query selects.
* `Keystore.Repos.KeysRepoImpl.runCreates_refines` — over any run of `create` calls with hex
  private keys from the empty table, the table decrypts to the keys that were created, in
  order, and no call panics.
-/

set_option autoImplicit false

namespace Keystore.Repos

open Codec

/-! ## Errors -/

/-- diesel's `DatabaseErrorKind`, as far as `ErrorKind::from_diesel` tells them apart;
`unknown` also stands for the other errors of a query. -/
inductive DatabaseErrorKind
  | uniqueViolation
  | foreignKeyViolation
  | unknown
  deriving DecidableEq, Repr

/-- `repos::ErrorKind`. A constraint violation carries the field and the code of its validation
error; the message and the details that Postgres adds are left out. -/
inductive ErrorKind
  | constraints (field code : String)
  | internal
  deriving DecidableEq, Repr

/-- `repos::Error`, reduced to its kind. -/
structure Error where
  kind : ErrorKind
  deriving DecidableEq, Repr

/-- `ErrorKind::from_diesel`: a unique violation becomes the validation error `not unique` on
the field `database`, anything else is internal. -/
def ErrorKind.fromDiesel : DatabaseErrorKind → ErrorKind
  | .uniqueViolation => .constraints "database" "not unique"
  | _ => .internal

/-! ## The `keys` table -/

/-- The columns of a row that the unique indices of the `keys` migration cover: the primary
key `id`, `(private_key, currency)` and `(blockchain_address, currency)`. -/
def Unique (rows : List EncryptedKey) : Prop :=
  (rows.map (·.id)).Nodup ∧ (rows.map fun r => (r.privateKey, r.currency)).Nodup ∧
    (rows.map fun r => (r.blockchainAddress, r.currency)).Nodup

/-- The `keys` table: its rows in the order they were inserted, which keep the unique
indices. -/
structure KeysTable where
  rows : List EncryptedKey
  unique : Unique rows

/-- The empty table of a fresh migration. -/
def KeysTable.empty : KeysTable := ⟨[], by simp [Unique]⟩

/-- `row` repeats a value of a unique index of the rows. -/
def conflicts (rows : List EncryptedKey) (row : EncryptedKey) : Bool :=
  rows.any fun r => r.id == row.id || (r.privateKey == row.privateKey && r.currency == row.currency) ||
    (r.blockchainAddress == row.blockchainAddress && r.currency == row.currency)

/-- Appending a row whose column `f` differs from every row's keeps the column's values
distinct. -/
theorem nodup_map_append {β : Type} {rows : List EncryptedKey} {row : EncryptedKey}
    (f : EncryptedKey → β) (hnodup : (rows.map f).Nodup) (hne : ∀ r ∈ rows, f r ≠ f row) :
    ((rows ++ [row]).map f).Nodup := by
  rw [List.map_append, List.nodup_append]
  refine ⟨hnodup, List.nodup_singleton _, ?_⟩
  rintro _ ha _ hb rfl
  obtain ⟨r, hr, rfl⟩ := List.mem_map.mp ha
  rw [List.map_singleton, List.mem_singleton] at hb
  exact hne r hr hb

/-- A row that repeats no value of a unique index keeps the indices unique when appended. -/
theorem unique_append {rows : List EncryptedKey} {row : EncryptedKey} (hu : Unique rows)
    (hc : conflicts rows row = false) : Unique (rows ++ [row]) := by
  -- no row shares the new row's id, its private key and currency, or its address and currency
  have hc' : ∀ r ∈ rows, ¬(r.id = row.id ∨ (r.privateKey = row.privateKey ∧ r.currency = row.currency) ∨
      (r.blockchainAddress = row.blockchainAddress ∧ r.currency = row.currency)) := by
    intro r hr h
    exact List.any_eq_false.mp hc r hr (by simpa [conflicts, or_assoc] using h)
  obtain ⟨hid, hpk, haddr⟩ := hu
  refine ⟨nodup_map_append _ hid ?_, nodup_map_append _ hpk ?_, nodup_map_append _ haddr ?_⟩
  · exact fun r hr h => hc' r hr (.inl h)
  · exact fun r hr h => hc' r hr (.inr (.inl (Prod.mk.inj h)))
  · exact fun r hr h => hc' r hr (.inr (.inr (Prod.mk.inj h)))

/-- `INSERT INTO keys .. RETURNING *` at the transaction time `now`: a row that repeats a
unique index is rejected, then one whose owner is not among the users' ids (the foreign key
to `users`); otherwise the row, with both timestamps set by the column defaults, is appended
and returned. -/
def KeysTable.insert (t : KeysTable) (userIds : List UserId) (row : NewEncryptedKey)
    (now : SystemTime) : Except DatabaseErrorKind (KeysTable × EncryptedKey) :=
  if hc : conflicts t.rows (row.toEncryptedKey now now) = true then .error .uniqueViolation
  else if row.ownerId ∉ userIds then .error .foreignKeyViolation
  else
    .ok (⟨t.rows ++ [row.toEncryptedKey now now], unique_append t.unique (by simpa using hc)⟩,
      row.toEncryptedKey now now)

/-- An insert either fails or appends the row it returns. -/
theorem KeysTable.insert_eq_ok {t t' : KeysTable} {userIds : List UserId} {row : NewEncryptedKey}
    {now : SystemTime} {inserted : EncryptedKey}
    (h : t.insert userIds row now = .ok (t', inserted)) :
    inserted = row.toEncryptedKey now now ∧ t'.rows = t.rows ++ [inserted] := by
  unfold KeysTable.insert at h
  split_ifs at h
  cases h
  exact ⟨rfl, rfl⟩

/-! ## Queries -/

/-- `keys.filter(owner_id.eq(owner)).offset(offset).limit(limit)` on a scan meeting the rows in
the order `scan`. Postgres refuses a negative `OFFSET` or `LIMIT`. -/
def selectByOwner (scan : List EncryptedKey) (owner : UserId) (offset limit : Int64) :
    Except DatabaseErrorKind (List EncryptedKey) :=
  if offset < 0 ∨ limit < 0 then .error .unknown
  else .ok (((scan.filter (·.ownerId == owner)).drop offset.toNatClampNeg).take limit.toNatClampNeg)

/-- `keys.filter(blockchain_address.eq(address)).limit(1)` on a scan meeting the rows in the
order `scan`. -/
def selectByAddress (scan : List EncryptedKey) (address : BlockchainAddress) :
    List EncryptedKey :=
  (scan.filter (·.blockchainAddress == address)).take 1

/-! ## The repository -/

/-- `repos::KeysRepoImpl`. -/
structure KeysRepoImpl where
  aesKey : String

namespace KeysRepoImpl

variable (aes : Aes256Cbc) (repo : KeysRepoImpl)

/-- `KeysRepoImpl::all`: every row, decrypted. -/
def all (scan : List EncryptedKey) : Option (Except Error (List Key)) :=
  (scan.mapM (Key.fromEncrypted aes · repo.aesKey)).map .ok

/-- `KeysRepoImpl::list`: the rows of one owner after `offset`, at most `limit` of them,
decrypted; a failed query is an internal error. -/
def list (scan : List EncryptedKey) (currentUserId : UserId) (offset limit : Int64) :
    Option (Except Error (List Key)) :=
  match selectByOwner scan currentUserId offset limit with
  | .error _ => some (.error ⟨.internal⟩)
  | .ok encryptedKeys => (encryptedKeys.mapM (Key.fromEncrypted aes · repo.aesKey)).map .ok

/-- `KeysRepoImpl::find_by_address`: the first row with the address, of any owner, decrypted. -/
def findByAddress (scan : List EncryptedKey) (_currentUserId : UserId)
    (address : BlockchainAddress) : Option (Except Error (Option Key)) :=
  ((selectByAddress scan address).head?.mapM (Key.fromEncrypted aes · repo.aesKey)).map .ok

/-- `KeysRepoImpl::create`: encrypt the payload with the IV `iv`, insert it at time `now`, and
decrypt the row the insert returns. A rejected insert is the error `from_diesel` makes of it
and leaves the table as it was. -/
def create (userIds : List UserId) (payload : NewKey) (iv : Vector UInt8 16) (now : SystemTime)
    (t : KeysTable) : Option (Except Error Key × KeysTable) := do
  let row ← NewEncryptedKey.fromNewKey aes payload repo.aesKey iv
  match t.insert userIds row now with
  | .error kind => pure (.error ⟨ErrorKind.fromDiesel kind⟩, t)
  | .ok (t', inserted) => do
    let key ← Key.fromEncrypted aes inserted repo.aesKey
    pure (.ok key, t')

/-- One call of `create`: the payload, the IV that `OsRng` draws and the database clock. -/
structure CreateCall where
  payload : NewKey
  iv : Vector UInt8 16
  now : SystemTime

/-- A sequence of `create` calls, with what each returned; `none` if one panics. -/
def runCreates (userIds : List UserId) : List CreateCall → KeysTable →
    Option (KeysTable × List (Except Error Key))
  | [], t => some (t, [])
  | call :: calls, t => do
    let (result, t') ← repo.create aes userIds call.payload call.iv call.now t
    let (t'', results) ← runCreates userIds calls t'
    pure (t'', result :: results)

end KeysRepoImpl

/-! ## The `KeysRepo` interface -/

/-- `repos::KeysRepo`: the repository as the services call it, over a store `σ`. Each call
also draws an `ι` from its environment (a clock, random bytes, the order of a scan); `none` is
a panic. -/
structure KeysRepo (σ ι : Type) where
  list : σ → ι → UserId → Int64 → Int64 → Option (Except Error (List Key))
  all : σ → ι → Option (Except Error (List Key))
  create : σ → ι → NewKey → Option (Except Error Key × σ)
  findByAddress : σ → ι → UserId → BlockchainAddress → Option (Except Error (Option Key))

/-- What one call of `KeysRepoImpl` draws from its environment: the order in which a scan meets
the rows, the IV that `OsRng` fills and the database clock. -/
structure KeysRepoImpl.Env where
  scan : List EncryptedKey → List EncryptedKey
  iv : Vector UInt8 16
  now : SystemTime

/-- `impl KeysRepo for KeysRepoImpl`, over a database whose `users` table holds `userIds`. -/
def KeysRepoImpl.toKeysRepo (aes : Aes256Cbc) (repo : KeysRepoImpl) (userIds : List UserId) :
    KeysRepo KeysTable KeysRepoImpl.Env where
  list t env := repo.list aes (env.scan t.rows)
  all t env := repo.all aes (env.scan t.rows)
  create t env payload := repo.create aes userIds payload env.iv env.now t
  findByAddress t env := repo.findByAddress aes (env.scan t.rows)

/-! ## Refinement of the keys in the clear -/

section Refinement

variable {aes : Aes256Cbc} {repo : KeysRepoImpl}

/-- The row decoder of the repository. -/
abbrev decodeRow (aes : Aes256Cbc) (repo : KeysRepoImpl) (row : EncryptedKey) : Option Key :=
  Key.fromEncrypted aes row repo.aesKey

theorem ownerId_eq_of_decodeRow {row : EncryptedKey} {key : Key}
    (h : decodeRow aes repo row = some key) : key.ownerId = row.ownerId :=
  (Key.fromEncrypted_eq_some.mp h).2.2.2.2.1

theorem blockchainAddress_eq_of_decodeRow {row : EncryptedKey} {key : Key}
    (h : decodeRow aes repo row = some key) : key.blockchainAddress = row.blockchainAddress :=
  (Key.fromEncrypted_eq_some.mp h).2.2.1

variable {t : KeysTable} {keys : List Key} {scan : List EncryptedKey}

/-- **`all` reads the keys in the clear**, in the scan's order. -/
theorem KeysRepoImpl.all_refines (h : Decodes (decodeRow aes repo) t.rows keys)
    (hscan : scan.Perm t.rows) :
    ∃ ks : List Key, repo.all aes scan = some (.ok ks) ∧ ks.Perm keys := by
  obtain ⟨ks, hks, hperm⟩ := h.perm hscan
  exact ⟨ks, by rw [KeysRepoImpl.all, decodes_iff_mapM.mp hks]; rfl, hperm⟩

/-- **`list` reads the owner's keys in the clear** after `offset`, at most `limit` of them, in
the scan's order; a negative offset or limit is an internal error. -/
theorem KeysRepoImpl.list_refines (h : Decodes (decodeRow aes repo) t.rows keys)
    (hscan : scan.Perm t.rows) (owner : UserId) (offset limit : Int64) :
    ∃ ks : List Key, ks.Perm keys ∧
      repo.list aes scan owner offset limit =
        if offset < 0 ∨ limit < 0 then some (.error ⟨.internal⟩)
        else some (.ok (((ks.filter (·.ownerId == owner)).drop offset.toNatClampNeg).take
          limit.toNatClampNeg)) := by
  obtain ⟨ks, hks, hperm⟩ := h.perm hscan
  refine ⟨ks, hperm, ?_⟩
  unfold KeysRepoImpl.list selectByOwner
  split_ifs with hneg
  · rfl
  · have hsel := ((hks.filter (p := (·.ownerId == owner)) (q := (·.ownerId == owner))
      (fun _ _ hcv => by rw [ownerId_eq_of_decodeRow hcv])).drop offset.toNatClampNeg).take
        limit.toNatClampNeg
    simp only [decodes_iff_mapM.mp hsel, Option.map_some]

/-- **`find_by_address` reads a key in the clear with the address**, the first one the scan
meets, whoever owns it. -/
theorem KeysRepoImpl.findByAddress_refines (h : Decodes (decodeRow aes repo) t.rows keys)
    (hscan : scan.Perm t.rows) (currentUserId : UserId) (address : BlockchainAddress) :
    ∃ ks : List Key, ks.Perm keys ∧
      repo.findByAddress aes scan currentUserId address =
        some (.ok (ks.filter (·.blockchainAddress == address)).head?) := by
  obtain ⟨ks, hks, hperm⟩ := h.perm hscan
  refine ⟨ks, hperm, ?_⟩
  have hsel := (hks.filter (p := (·.blockchainAddress == address))
    (q := (·.blockchainAddress == address))
    (fun _ _ hcv => by rw [blockchainAddress_eq_of_decodeRow hcv])).take 1
  rw [KeysRepoImpl.findByAddress, selectByAddress, hsel.mapM_head?, List.head?_take]
  rfl

section Create

variable {key : List UInt8} (haes : aes.Inverts) (hkey : key.length = 32)
  (hrepo : repo.aesKey = encodeHex key)
include haes hkey hrepo

/-- **A `create` refines appending to the keys in the clear.** For a hex private key the call
does not panic; it returns the payload stamped with the insert time and appends it to the keys
in the clear, or returns an error and leaves the table as it was.

**Proof sketch.** `from_new_key` succeeds (`fromEncrypted_fromNewKey`); on a rejected insert the
table is unchanged; otherwise the insert appends the row it returns (`KeysTable.insert_eq_ok`),
which decrypts to the stamped payload. -/
theorem KeysRepoImpl.create_refines (h : Decodes (decodeRow aes repo) t.rows keys)
    (userIds : List UserId) {payload : NewKey} (hpk : payload.privateKey.IsLowerHex)
    (iv : Vector UInt8 16) (now : SystemTime) :
    ∃ result t', repo.create aes userIds payload iv now t = some (result, t') ∧
      (∀ k, result = .ok k → k = payload.toKey now now) ∧
      Decodes (decodeRow aes repo) t'.rows (keys ++ result.toOption.toList) := by
  obtain ⟨row, hrow, hread⟩ := fromEncrypted_fromNewKey haes hkey hpk iv
  rw [← hrepo] at hrow hread
  cases hins : t.insert userIds row now with
  | error kind =>
    -- a rejected insert: the error, and the table as it was
    refine ⟨.error ⟨ErrorKind.fromDiesel kind⟩, t, ?_, ?_, ?_⟩
    · simp [KeysRepoImpl.create, hrow, hins]
    · intro k hk
      cases hk
    · simpa [Except.toOption] using h
  | ok res =>
    obtain ⟨t', inserted⟩ := res
    obtain ⟨rfl, hrows⟩ := KeysTable.insert_eq_ok hins
    refine ⟨.ok (payload.toKey now now), t', ?_, ?_, ?_⟩
    · simp [KeysRepoImpl.create, hrow, hins, hread]
    · intro k hk
      cases hk
      rfl
    · rw [hrows]
      exact h.append (decodes_cons.mpr ⟨hread now now, decodes_nil⟩)

/-- **Runs of `create` refine the list of created keys.** From a table that decrypts to `keys`,
a run of `create` calls with hex private keys does not panic, every key it returns is its
payload stamped with its insert time, and the final table decrypts to `keys` followed by the
keys returned, in order.

**Proof sketch.** Induction on the calls, with `create_refines` as the step. -/
theorem KeysRepoImpl.runCreates_refines (h : Decodes (decodeRow aes repo) t.rows keys)
    (userIds : List UserId) (calls : List KeysRepoImpl.CreateCall)
    (hcalls : ∀ call ∈ calls, call.payload.privateKey.IsLowerHex) :
    ∃ t' results, repo.runCreates aes userIds calls t = some (t', results) ∧
      List.Forall₂ (fun call result => ∀ k, result = .ok k → k = call.payload.toKey call.now call.now)
        calls results ∧
      Decodes (decodeRow aes repo) t'.rows (keys ++ results.filterMap Except.toOption) := by
  induction calls generalizing t keys with
  | nil => exact ⟨t, [], rfl, List.Forall₂.nil, by simpa using h⟩
  | cons call calls ih =>
    obtain ⟨result, t₁, hcreate, hresult, h₁⟩ :=
      KeysRepoImpl.create_refines haes hkey hrepo h userIds (hcalls call List.mem_cons_self)
        call.iv call.now
    obtain ⟨t', results, hrun, hresults, h'⟩ :=
      ih h₁ (fun c hc => hcalls c (List.mem_cons_of_mem call hc))
    refine ⟨t', result :: results, ?_, List.Forall₂.cons hresult hresults, ?_⟩
    · simp [KeysRepoImpl.runCreates, hcreate, hrun]
    · cases result with
      | error e => simpa [List.filterMap_cons, Except.toOption] using h'
      | ok k => simpa [List.filterMap_cons, Except.toOption] using h'

end Create

end Refinement

/-! ## Encrypted key storage -/

/-- **Encrypted key storage round-trips.** Under `Aes256Cbc.Inverts`, with the hex of a 32-byte
AES key:

* the encrypted form of the hex of any bytes is the IV's hex, 32 characters, followed by the
  hex of the ciphertext, and `PrivateKey::from_encrypted` reads it back without a panic;
* a run of `KeysRepoImpl::create` calls with hex private keys from the empty table does not
  panic, every key a call returns is its payload with the insert time, and, whatever order the
  scans meet the rows in, `all`, `list` and `find_by_address` read exactly the keys created,
  with their private keys. -/
theorem keyStorage_roundTrip (aes : Aes256Cbc) (haes : aes.Inverts) {key : List UInt8}
    (hkey : key.length = 32) :
    (∀ (bytes : List UInt8) (iv : Vector UInt8 16), ∃ c,
      encrypt aes bytes key iv.toList = some (.ok c) ∧
      EncryptedPrivateKey.fromPrivateKey aes ⟨encodeHex bytes⟩ (encodeHex key) iv =
        some ⟨encodeHex iv.toList ++ encodeHex c⟩ ∧
      (encodeHex iv.toList).length = 32 ∧
      PrivateKey.fromEncrypted aes ⟨encodeHex iv.toList ++ encodeHex c⟩ (encodeHex key) =
        some ⟨encodeHex bytes⟩) ∧
    ∀ (userIds : List UserId) (calls : List KeysRepoImpl.CreateCall),
      (∀ call ∈ calls, call.payload.privateKey.IsLowerHex) →
      ∃ t results, (KeysRepoImpl.mk (encodeHex key)).runCreates aes userIds calls KeysTable.empty =
          some (t, results) ∧
        List.Forall₂ (fun call result => ∀ k, result = .ok k → k = call.payload.toKey call.now call.now)
          calls results ∧
        (∀ scan : List EncryptedKey, scan.Perm t.rows →
          (∃ ks : List Key, (KeysRepoImpl.mk (encodeHex key)).all aes scan = some (.ok ks) ∧
            ks.Perm (results.filterMap Except.toOption)) ∧
          (∀ owner offset limit, ∃ ks : List Key, ks.Perm (results.filterMap Except.toOption) ∧
            (KeysRepoImpl.mk (encodeHex key)).list aes scan owner offset limit =
              if offset < 0 ∨ limit < 0 then some (.error ⟨.internal⟩)
              else some (.ok (((ks.filter (·.ownerId == owner)).drop offset.toNatClampNeg).take
                limit.toNatClampNeg))) ∧
          (∀ currentUserId address, ∃ ks : List Key, ks.Perm (results.filterMap Except.toOption) ∧
            (KeysRepoImpl.mk (encodeHex key)).findByAddress aes scan currentUserId address =
              some (.ok (ks.filter (·.blockchainAddress == address)).head?))) := by
  refine ⟨fun bytes iv => fromEncrypted_fromPrivateKey haes hkey bytes iv, ?_⟩
  intro userIds calls hcalls
  -- the empty table decrypts to no keys; the run appends the keys it creates
  have hempty : Decodes (decodeRow aes ⟨encodeHex key⟩) KeysTable.empty.rows [] := decodes_nil
  obtain ⟨t, results, hrun, hresults, hdec⟩ :=
    KeysRepoImpl.runCreates_refines haes hkey rfl hempty userIds calls hcalls
  rw [List.nil_append] at hdec
  refine ⟨t, results, hrun, hresults, fun scan hscan => ⟨?_, ?_, ?_⟩⟩
  · exact KeysRepoImpl.all_refines hdec hscan
  · exact fun owner offset limit => KeysRepoImpl.list_refines hdec hscan owner offset limit
  · exact fun currentUserId address =>
      KeysRepoImpl.findByAddress_refines hdec hscan currentUserId address

/-- The cipher that leaves data as it is: both constructors accept any key and IV, and each
transformer writes its input in one call. -/
def plainCipher : Aes256Cbc where
  Encryptor := Unit
  Decryptor := Unit
  cbcEncryptor _ _ := some ()
  cbcDecryptor _ _ := some ()
  encryptor := Buffered.Transformer.oneShot fun _ data => .ok data
  decryptor := Buffered.Transformer.oneShot fun _ data => .ok data

theorem plainCipher_inverts : plainCipher.Inverts :=
  ⟨_, _, Buffered.Transformer.oneShot_computes _, Buffered.Transformer.oneShot_computes _,
    fun _ _ _ _ => ⟨(), (), rfl, rfl, fun data => ⟨data, rfl, rfl⟩⟩⟩

theorem keyStorage_roundTrip_plainCipher :
    plainCipher.Inverts ∧ (List.replicate 32 (7 : UInt8)).length = 32 ∧
    (∀ (bytes : List UInt8) (iv : Vector UInt8 16), ∃ c,
      encrypt plainCipher bytes (List.replicate 32 7) iv.toList = some (.ok c) ∧
      EncryptedPrivateKey.fromPrivateKey plainCipher ⟨encodeHex bytes⟩
          (encodeHex (List.replicate 32 7)) iv =
        some ⟨encodeHex iv.toList ++ encodeHex c⟩ ∧
      (encodeHex iv.toList).length = 32 ∧
      PrivateKey.fromEncrypted plainCipher ⟨encodeHex iv.toList ++ encodeHex c⟩
          (encodeHex (List.replicate 32 7)) =
        some ⟨encodeHex bytes⟩) ∧
    ∀ (userIds : List UserId) (calls : List KeysRepoImpl.CreateCall),
      (∀ call ∈ calls, call.payload.privateKey.IsLowerHex) →
      ∃ t results, (KeysRepoImpl.mk (encodeHex (List.replicate 32 7))).runCreates plainCipher
          userIds calls KeysTable.empty = some (t, results) ∧
        List.Forall₂ (fun call result => ∀ k, result = .ok k → k = call.payload.toKey call.now call.now)
          calls results ∧
        (∀ scan : List EncryptedKey, scan.Perm t.rows →
          (∃ ks : List Key,
            (KeysRepoImpl.mk (encodeHex (List.replicate 32 7))).all plainCipher scan =
              some (.ok ks) ∧ ks.Perm (results.filterMap Except.toOption)) ∧
          (∀ owner offset limit, ∃ ks : List Key, ks.Perm (results.filterMap Except.toOption) ∧
            (KeysRepoImpl.mk (encodeHex (List.replicate 32 7))).list plainCipher scan owner
                offset limit =
              if offset < 0 ∨ limit < 0 then some (.error ⟨.internal⟩)
              else some (.ok (((ks.filter (·.ownerId == owner)).drop offset.toNatClampNeg).take
                limit.toNatClampNeg))) ∧
          (∀ currentUserId address, ∃ ks : List Key, ks.Perm (results.filterMap Except.toOption) ∧
            (KeysRepoImpl.mk (encodeHex (List.replicate 32 7))).findByAddress plainCipher scan
                currentUserId address =
              some (.ok (ks.filter (·.blockchainAddress == address)).head?))) :=
  ⟨plainCipher_inverts, rfl, keyStorage_roundTrip plainCipher plainCipher_inverts rfl⟩

end Keystore.Repos

import Keystore.Repos.Keys

/-!
# `repos::mocks`: the in-memory keys repository

`KeysRepoMock` keeps the keys in the clear in a vector behind a mutex, in the order they were
created. The key service's tests run against it. Its reads filter the vector; unlike
`KeysRepoImpl` it also restricts `find_by_address` to the current user, and it casts the
`i64` offset and limit with `as usize` instead of rejecting negative ones.

## Main definitions

* `Keystore.Repos.KeysRepoMock` — the store and its four methods.
* `Keystore.Repos.KeysRepoMock.toKeysRepo` — `impl KeysRepo for KeysRepoMock`; a call draws the
  two readings of `SystemTime::now()` that `create` makes.
-/

set_option autoImplicit false

namespace Keystore.Repos

/-- `repos::mocks::KeysRepoMock`: the keys in the order they were created. -/
structure KeysRepoMock where
  data : List Key
  deriving DecidableEq, Repr

namespace KeysRepoMock

/-- `KeysRepoMock::new`: no keys. -/
def new : KeysRepoMock := ⟨[]⟩

/-- `KeysRepoMock::all`. -/
def all (self : KeysRepoMock) : Except Error (List Key) := .ok self.data

/-- `KeysRepoMock::list`: the keys of `currentUserId`, skipping `offset as usize` of them and
taking `limit as usize`. -/
def list (self : KeysRepoMock) (currentUserId : UserId) (offset limit : Int64) :
    Except Error (List Key) :=
  .ok (((self.data.filter (·.ownerId == currentUserId)).drop
    (Rust.asUnsigned 64 offset.toInt).val).take (Rust.asUnsigned 64 limit.toInt).val)

/-- `KeysRepoMock::find_by_address`: the first key of `currentUserId` with the address. -/
def findByAddress (self : KeysRepoMock) (currentUserId : UserId) (address : BlockchainAddress) :
    Except Error (Option Key) :=
  .ok (((self.data.filter (·.ownerId == currentUserId)).filter
    (·.blockchainAddress == address)).take 1).head?

/-- `KeysRepoMock::create`: the payload, stamped with the two readings of the clock, is pushed
and returned. -/
def create (self : KeysRepoMock) (payload : NewKey) (createdAt updatedAt : SystemTime) :
    Except Error Key × KeysRepoMock :=
  (.ok (payload.toKey createdAt updatedAt), ⟨self.data ++ [payload.toKey createdAt updatedAt]⟩)

/-- `impl KeysRepo for KeysRepoMock`. A call draws the two clock readings `create` makes; the
mock never panics. -/
def toKeysRepo : KeysRepo KeysRepoMock (SystemTime × SystemTime) where
  list self _ currentUserId offset limit := some (self.list currentUserId offset limit)
  all self _ := some self.all
  create self clock payload := some (self.create payload clock.1 clock.2)
  findByAddress self _ currentUserId address := some (self.findByAddress currentUserId address)

end KeysRepoMock

end Keystore.Repos

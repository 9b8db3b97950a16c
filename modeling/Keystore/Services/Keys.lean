import Keystore.Repos.Mocks
import Keystore.Blockchain.Utils

/-!
# `services::keys`: creating and listing a user's keys

`KeysServiceImpl::create` authenticates the token, refuses a user other than the one in the
path, asks the blockchain service for a fresh key pair and stores it, owned by the
authenticated user; `list` authenticates the same way and reads the user's keys. The service
is generic in its keys repository (`Repos.KeysRepo`), and the database executor runs every
closure at once, as `DbExecutorMock` does; the futures are run to completion.

What a call draws from its environment is an argument: the randomness `ρ` of
`generate_key` and the environment `ι` of the repository's call.

## Main definitions

* `Keystore.Services.Error` — the service error: a kind and the context `ectx!` attached.
* `Keystore.Services.AuthServiceMock` — a map from tokens to users.
* `Keystore.Services.KeysServiceImpl.list`, `.create` — the service.
* `Keystore.Services.KeysServiceImpl.run` — a sequence of calls, with their replies.
* `Keystore.Services.RunSpec` — what the service is for: each reply, against the keys created
  before it.

## Main results

* `Keystore.Services.KeysServiceImpl.create_mock`, `.list_mock` — one call against the mock
  repository.
* `Keystore.Services.keysService_ownership` — over any run against the mock repository, the
  store is the list of keys created, and every reply meets `RunSpec`.
-/

set_option autoImplicit false

namespace Keystore.Services

open Repos

/-! ## Errors -/

/-- `services::ValidationError`; a validator error keeps its field and code. -/
inductive ValidationError
  | blockchain (error : Blockchain.ValidationError)
  | validator (field code : String)
  deriving DecidableEq, Repr

/-- `services::ErrorKind`. -/
inductive ErrorKind
  | unauthorized
  | malformedInput
  | notFound
  | validation (error : ValidationError)
  | internal
  deriving DecidableEq, Repr

/-- `services::ErrorContext`. -/
inductive ErrorContext
  | noAuthToken
  | notOwnResources
  | noWallet
  | noSystemUser
  | signingTransaction
  | notSupportedCurrency
  deriving DecidableEq, Repr

/-- `services::Error`: the kind `Error::kind` reports, with the context `ectx!` attached below
it, if any. -/
structure Error where
  kind : ErrorKind
  context : Option ErrorContext := none
  deriving DecidableEq, Repr

/-- `From<repos::ErrorKind> for ErrorKind`. -/
def ErrorKind.ofRepos : Repos.ErrorKind → ErrorKind
  | .internal => .internal
  | .constraints field code => .validation (.validator field code)

/-- `From<blockchain::ErrorKind> for ErrorKind`. -/
def ErrorKind.ofBlockchain : Blockchain.ErrorKind → ErrorKind
  | .internal => .internal
  | .invalidPrivateKey _ => .internal
  | .invalidUnsignedTransaction error => .validation (.blockchain error)
  | .validation error => .validation (.blockchain error)

/-! ## Authentication -/

/-- `services::mocks::AuthServiceMock`: the users of the allowed tokens. -/
structure AuthServiceMock where
  users : AuthenticationToken → Option User

/-- `AuthServiceMock::authenticate`: the user of the token, or `Unauthorized` with the context
`NoAuthToken` for a missing or unknown token. -/
def AuthServiceMock.authenticate (self : AuthServiceMock) (maybeToken : Option AuthenticationToken) :
    Except Error User :=
  match maybeToken.bind self.users with
  | some user => .ok user
  | none => .error ⟨.unauthorized, some .noAuthToken⟩

/-! ## The service -/

/-- `services::KeysServiceImpl` over a keys repository with store `σ` whose calls draw `ι`, and
a blockchain service whose `generate_key` draws `ρ`. -/
structure KeysServiceImpl (σ ι ρ : Type) where
  authenticate : Option AuthenticationToken → Except Error User
  generateKey : Currency → ρ → Except Blockchain.Error (PrivateKey × BlockchainAddress)
  keysRepo : KeysRepo σ ι

namespace KeysServiceImpl

variable {σ ι ρ : Type} (svc : KeysServiceImpl σ ι ρ)

/-- The first two steps that `list` and `create` share: authenticate the token, and refuse a
user other than the path's with `Unauthorized` and the context `NotOwnResources`. -/
def authorize (maybeToken : Option AuthenticationToken) (userId : UserId) : Except Error User :=
  match svc.authenticate maybeToken with
  | .error e => .error e
  | .ok user => if user.id ≠ userId then .error ⟨.unauthorized, some .notOwnResources⟩ else .ok user

/-- `KeysServiceImpl::list`: the repository's list for the authenticated user; a repository
error becomes `Internal`. -/
def list (s : σ) (env : ι) (maybeToken : Option AuthenticationToken) (userId : UserId)
    (offset limit : Int64) : Option (Except Error (List Key)) :=
  match svc.authorize maybeToken userId with
  | .error e => some (.error e)
  | .ok user =>
    (svc.keysRepo.list s env user.id offset limit).map (Except.mapError fun _ => ⟨.internal, none⟩)

/-- `KeysServiceImpl::create`: generate a key pair for the currency and store it with the
requested id, owned by the authenticated user. Errors of `generate_key` and of the repository
are converted into service errors; every failure leaves the store as it was. -/
def create (s : σ) (rnd : ρ) (env : ι) (maybeToken : Option AuthenticationToken) (userId : UserId)
    (currency : Currency) (id : KeyId) : Option (Except Error Key × σ) :=
  match svc.authorize maybeToken userId with
  | .error e => some (.error e, s)
  | .ok user =>
    match svc.generateKey currency rnd with
    | .error e => some (.error ⟨ErrorKind.ofBlockchain e.kind, none⟩, s)
    | .ok (privateKey, blockchainAddress) =>
      (svc.keysRepo.create s env
          { id, currency, ownerId := user.id, privateKey, blockchainAddress }).map
        fun (result, s') => (result.mapError fun e => ⟨ErrorKind.ofRepos e.kind, none⟩, s')

end KeysServiceImpl

/-! ## Runs -/

/-- A call of the key service, with its arguments. -/
inductive Call
  | list (maybeToken : Option AuthenticationToken) (userId : UserId) (offset limit : Int64)
  | create (maybeToken : Option AuthenticationToken) (userId : UserId) (currency : Currency)
      (id : KeyId)
  deriving DecidableEq, Repr

/-- What a call returned. -/
inductive Reply
  | list (result : Except Error (List Key))
  | create (result : Except Error Key)
  deriving DecidableEq, Repr

/-- The key a reply created, if it is a successful `create`. -/
def Reply.created : Reply → Option Key
  | .create (.ok key) => some key
  | _ => none

namespace KeysServiceImpl

variable {σ ι ρ : Type} (svc : KeysServiceImpl σ ι ρ)

/-- One call, with what it draws from its environment. -/
def step (s : σ) (call : Call) (rnd : ρ) (env : ι) : Option (Reply × σ) :=
  match call with
  | .list maybeToken userId offset limit =>
    (svc.list s env maybeToken userId offset limit).map fun result => (.list result, s)
  | .create maybeToken userId currency id =>
    (svc.create s rnd env maybeToken userId currency id).map fun (result, s') => (.create result, s')

/-- A sequence of calls, one after the other, with their replies; `none` if one panics. -/
def run : σ → List (Call × ρ × ι) → Option (List Reply × σ)
  | s, [] => some ([], s)
  | s, (call, rnd, env) :: calls => do
    let (reply, s') ← svc.step s call rnd env
    let (replies, s'') ← run s' calls
    pure (reply :: replies, s'')

end KeysServiceImpl

/-! ## What the service is for -/

/-- A reply meets its call, against the keys `created` before it, for the token map `users`:
a key is created only for a token whose user is the path's user, with the requested id and
currency, owned by that user; a list succeeds exactly when the token's user is the path's user,
and then returns that user's keys among `created`, in creation order, after the offset and at
most the limit, both read as `usize`. -/
def ReplySpec (users : AuthenticationToken → Option User) (created : List Key) : Call → Reply → Prop
  | .create maybeToken userId currency id, .create result =>
    ∀ key, result = .ok key →
      ∃ user, maybeToken.bind users = some user ∧ user.id = userId ∧ key.ownerId = userId ∧
        key.id = id ∧ key.currency = currency
  | .list maybeToken userId offset limit, .list result =>
    ((∃ keys, result = .ok keys) ↔ ∃ user, maybeToken.bind users = some user ∧ user.id = userId) ∧
    ∀ keys, result = .ok keys →
      keys = ((created.filter (·.ownerId == userId)).drop (Rust.asUnsigned 64 offset.toInt).val).take
        (Rust.asUnsigned 64 limit.toInt).val
  | _, _ => False

/-- Every reply of a run meets its call against the keys created before it, starting from
`created`. -/
def RunSpec (users : AuthenticationToken → Option User) : List Key → List Call → List Reply → Prop
  | _, [], [] => True
  | created, call :: calls, reply :: replies =>
    ReplySpec users created call reply ∧ RunSpec users (created ++ reply.created.toList) calls replies
  | _, _, _ => False

/-! ## Against the mock repository -/

/-- The key service over `KeysRepoMock` and `AuthServiceMock`, with any blockchain service. -/
def mockService {ρ : Type} (users : AuthenticationToken → Option User)
    (generateKey : Currency → ρ → Except Blockchain.Error (PrivateKey × BlockchainAddress)) :
    KeysServiceImpl KeysRepoMock (SystemTime × SystemTime) ρ :=
  ⟨(AuthServiceMock.mk users).authenticate, generateKey, KeysRepoMock.toKeysRepo⟩

section Mock

variable {ρ : Type} (users : AuthenticationToken → Option User)
  (generateKey : Currency → ρ → Except Blockchain.Error (PrivateKey × BlockchainAddress))

@[simp] theorem mockService_generateKey : (mockService users generateKey).generateKey = generateKey :=
  rfl

@[simp] theorem mockService_keysRepo :
    (mockService users generateKey).keysRepo = KeysRepoMock.toKeysRepo :=
  rfl

/-- `authorize` succeeds exactly for a token whose user is the path's user. -/
theorem authorize_mock_eq_ok {maybeToken : Option AuthenticationToken} {userId : UserId}
    {user : User} :
    (mockService users generateKey).authorize maybeToken userId = .ok user ↔
      maybeToken.bind users = some user ∧ user.id = userId := by
  simp only [KeysServiceImpl.authorize, mockService, AuthServiceMock.authenticate]
  cases maybeToken.bind users with
  | none => simp
  | some u =>
    by_cases hu : u.id = userId
    · -- the token's user is the path's user: `authorize` returns it
      simp only [hu, ne_eq, not_true_eq_false, if_false, Except.ok.injEq, Option.some.injEq]
      constructor
      · rintro rfl
        exact ⟨rfl, hu⟩
      · rintro ⟨rfl, -⟩
        rfl
    · simp only [ne_eq, hu, not_false_eq_true, if_true, Option.some.injEq]
      constructor
      · intro h
        cases h
      · rintro ⟨rfl, h⟩
        exact absurd h hu

/-- **One `create` against the mock.** It does not panic; a key it returns was created for a
token whose user is the path's user, with the requested id and currency, owned by that user,
and the store grows by exactly the key it returns, or stays as it was. -/
theorem KeysServiceImpl.create_mock (s : KeysRepoMock) (rnd : ρ) (clock : SystemTime × SystemTime)
    (maybeToken : Option AuthenticationToken) (userId : UserId) (currency : Currency) (id : KeyId) :
    ∃ result s', (mockService users generateKey).create s rnd clock maybeToken userId currency id =
        some (result, s') ∧
      s'.data = s.data ++ (Reply.create result).created.toList ∧
      ∀ key, result = .ok key →
        ∃ user, maybeToken.bind users = some user ∧ user.id = userId ∧ key.ownerId = userId ∧
          key.id = id ∧ key.currency = currency := by
  cases hauth : (mockService users generateKey).authorize maybeToken userId with
  | error e =>
    refine ⟨.error e, s, by simp [KeysServiceImpl.create, hauth], by simp [Reply.created], ?_⟩
    intro key hkey
    cases hkey
  | ok user =>
    obtain ⟨huser, rfl⟩ := (authorize_mock_eq_ok users generateKey).mp hauth
    cases hgen : generateKey currency rnd with
    | error e =>
      refine ⟨.error ⟨ErrorKind.ofBlockchain e.kind, none⟩, s, ?_, by simp [Reply.created], ?_⟩
      · simp [KeysServiceImpl.create, hauth, hgen]
      · intro key hkey
        cases hkey
    | ok pair =>
      obtain ⟨privateKey, blockchainAddress⟩ := pair
      -- the mock stores the payload stamped with the two clock readings
      let newKey : NewKey := { id, currency, ownerId := user.id, privateKey, blockchainAddress }
      refine ⟨.ok (newKey.toKey clock.1 clock.2), ⟨s.data ++ [newKey.toKey clock.1 clock.2]⟩, ?_,
        by simp [Reply.created], ?_⟩
      · simp [KeysServiceImpl.create, hauth, hgen, KeysRepoMock.toKeysRepo, KeysRepoMock.create,
          newKey, Except.mapError]
      · intro k hk
        cases hk
        exact ⟨user, huser, rfl, rfl, rfl, rfl⟩

/-- **One `list` against the mock.** It does not panic, succeeds exactly for a token whose user
is the path's user, and then returns that user's keys in the store's order, after the offset
and at most the limit. -/
theorem KeysServiceImpl.list_mock (s : KeysRepoMock) (clock : SystemTime × SystemTime)
    (maybeToken : Option AuthenticationToken) (userId : UserId) (offset limit : Int64) :
    ∃ result, (mockService users generateKey).list s clock maybeToken userId offset limit =
        some result ∧
      ((∃ keys, result = .ok keys) ↔ ∃ user, maybeToken.bind users = some user ∧ user.id = userId) ∧
      ∀ keys, result = .ok keys →
        keys = ((s.data.filter (·.ownerId == userId)).drop (Rust.asUnsigned 64 offset.toInt).val).take
          (Rust.asUnsigned 64 limit.toInt).val := by
  cases hauth : (mockService users generateKey).authorize maybeToken userId with
  | error e =>
    refine ⟨.error e, by simp [KeysServiceImpl.list, hauth], ?_, ?_⟩
    · constructor
      · rintro ⟨keys, hkeys⟩
        cases hkeys
      · rintro ⟨user, huser⟩
        rw [(authorize_mock_eq_ok users generateKey).mpr huser] at hauth
        cases hauth
    · intro keys hkeys
      cases hkeys
  | ok user =>
    obtain ⟨huser, rfl⟩ := (authorize_mock_eq_ok users generateKey).mp hauth
    refine ⟨.ok (((s.data.filter (·.ownerId == user.id)).drop
      (Rust.asUnsigned 64 offset.toInt).val).take (Rust.asUnsigned 64 limit.toInt).val), ?_,
      ⟨fun _ => ⟨user, huser, rfl⟩, fun _ => ⟨_, rfl⟩⟩, fun keys hkeys => by cases hkeys; rfl⟩
    simp [KeysServiceImpl.list, hauth, KeysRepoMock.toKeysRepo, KeysRepoMock.list,
      Except.mapError]

end Mock

/-- **Key ownership is kept over any run.** Against the mock repository, with any token map and
any blockchain service, a run of `create` and `list` calls from any store does not panic, the
final store is the initial one followed by the keys the run created, in order, and every reply
meets its call against the keys created before it (`RunSpec`): a create succeeds only for a
token whose user is the path's user, adds exactly the key it returns, owned by that user, with
the requested id and currency, and a failed one adds nothing; a list succeeds exactly for a
token whose user is the path's user, and returns that user's keys in creation order, after the
offset and at most the limit.

**Proof sketch.** Induction on the calls; `create_mock` and `list_mock` are the step, and the
store after each call is the creation log so far. -/
theorem keysService_ownership {ρ : Type} (users : AuthenticationToken → Option User)
    (generateKey : Currency → ρ → Except Blockchain.Error (PrivateKey × BlockchainAddress))
    (s : KeysRepoMock) (calls : List (Call × ρ × (SystemTime × SystemTime))) :
    ∃ replies s', (mockService users generateKey).run s calls = some (replies, s') ∧
      s'.data = s.data ++ replies.filterMap Reply.created ∧
      RunSpec users s.data (calls.map (·.1)) replies := by
  induction calls generalizing s with
  | nil => exact ⟨[], s, rfl, by simp, trivial⟩
  | cons entry calls ih =>
    obtain ⟨call, rnd, clock⟩ := entry
    -- one step: the reply meets its call, and the store grows by what it created
    have hstep : ∃ reply s₁, (mockService users generateKey).step s call rnd clock = some (reply, s₁) ∧
        s₁.data = s.data ++ reply.created.toList ∧ ReplySpec users s.data call reply := by
      cases call with
      | create maybeToken userId currency id =>
        obtain ⟨result, s₁, hcreate, hdata, hspec⟩ := KeysServiceImpl.create_mock users
          generateKey s rnd clock maybeToken userId currency id
        exact ⟨.create result, s₁, by simp [KeysServiceImpl.step, hcreate], hdata, hspec⟩
      | list maybeToken userId offset limit =>
        obtain ⟨result, hlist, hiff, hkeys⟩ := KeysServiceImpl.list_mock users
          generateKey s clock maybeToken userId offset limit
        exact ⟨.list result, s, by simp [KeysServiceImpl.step, hlist], by simp [Reply.created],
          hiff, hkeys⟩
    obtain ⟨reply, s₁, hstep, hdata₁, hspec⟩ := hstep
    obtain ⟨replies, s', hrun, hdata', hrest⟩ := ih s₁
    refine ⟨reply :: replies, s', ?_, ?_, hspec, ?_⟩
    · simp [KeysServiceImpl.run, hstep, hrun]
    · rw [hdata', hdata₁]
      cases h : reply.created <;> simp [h]
    · rw [← hdata₁]
      exact hrest

end Keystore.Services

import DocuAI.Auth.Tokens
import DocuAI.Library.Transition

/-!
# Calls of authentication

The calls `register`, `login`, `refresh` and `logout`, each of which sends its statements one at
a time, under READ COMMITTED.  The tables hold what is committed.  What an open transaction has
written is in the phase of its call until it commits, together with the lock on the row it has
updated: a statement that would change a locked row waits, and then looks at the row again.  The
update of `handleReuse`, which may wait for several rows, changes those rows only which it saw when
it started.

The last statement of a call, the event that is recorded after it and the return of the call are one
step here: what is done when its reply arrives, and that it may never arrive, is in
`DocuAI.Auth.Replies`.  All statements of a call before that one leave the tables alone until they
are committed with it, so a call that throws has changed nothing.

The clients choose the tokens they present.  Ids and generated tokens are distinct, and so are the
hashes of the latter.  The rows inserted so far and the rotations committed so far are part of the
state; no call reads them.
-/

namespace DocuAI

namespace AuthService

/-- The security events of the calls. -/
inductive SecurityEvent where
  | REGISTER_SUCCESS (userId sessionId : ℕ)
  | REGISTER_FAILED (reason : JsString)
  | LOGIN_SUCCESS (userId sessionId : ℕ)
  | LOGIN_FAILED (userId : Option ℕ) (reason : JsString)
  | REFRESH_TOKEN_REJECTED (userId sessionId : Option ℕ) (reason : JsString)
  | REFRESH_TOKEN_ROTATED (userId sessionId previousSessionId : ℕ)
  | REFRESH_TOKEN_REUSE_DETECTED (userId sessionId revokedSessions : ℕ)
  | LOGOUT (userId : ℕ) (sessionId : Option ℕ) (reason : JsString)
  deriving DecidableEq

/-! ### Calls -/

inductive Operation where
  | register (dto : RegisterDto)
  | login (dto : LoginDto)
  | refresh (rawToken : JsString)
  | logout (rawToken : JsString) (userId : ℕ)
  deriving DecidableEq

/-- What a call returns. -/
inductive Result where
  | session (tokens : TokenPairDto) (user : PublicUserDto)
  | rotated (tokens : TokenPairDto)
  | loggedOut
  deriving DecidableEq

/-- Where a call stands: the statement it sends next, with the time it has computed for it. -/
inductive Phase where
  /-- `register`: the email is looked up. -/
  | registering (dto : RegisterDto)
  /-- The transaction of `register` begins, and inserts the user. -/
  | creatingUser (dto : RegisterDto)
  | creatingSession (user : User)
  | committingUser (user : User) (row : RefreshToken) (token : JsString)
  /-- `login`: the user is looked up, and the password verified. -/
  | loggingIn (dto : LoginDto)
  | startingSession (user : User)
  /-- `refresh`: the token is looked up. -/
  | presenting (rawToken : JsString)
  /-- `refresh`: the user of the token is looked up. -/
  | joining (existing : RefreshToken)
  | checking (existing : RefreshToken) (user : User)
  | expiring (existing : RefreshToken) (revokedAt : ℕ)
  | suspending (existing : RefreshToken) (user : User) (revokedAt : ℕ)
  /-- The transaction of the rotation begins. -/
  | beginning (existing : RefreshToken)
  | rotating (existing : RefreshToken) (revokedAt : ℕ)
  /-- The transaction has revoked the token. -/
  | inserting (existing : RefreshToken) (revokedAt : ℕ)
  /-- The transaction has inserted the successor. -/
  | committing (existing : RefreshToken) (revokedAt : ℕ) (row : RefreshToken) (token : JsString)
  /-- The transaction has found the token revoked. -/
  | losing (existing : RefreshToken)
  /-- `handleReuse`: the update starts. -/
  | reusing (token : RefreshToken) (revokedAt : ℕ)
  /-- `handleReuse`: the update, which sees some rows, ends. -/
  | revoking (token : RefreshToken) (revokedAt : ℕ) (visible : List ℕ)
  /-- `logout`: the token is looked up. -/
  | loggingOut (rawToken : JsString) (userId : ℕ)
  | endingSession (existing : RefreshToken) (userId revokedAt : ℕ)
  | returned (result : Except AppException Result)
  /-- A statement failed, or the process died. -/
  | rejected
  deriving DecidableEq

/-- The row the open transaction of the call has updated. -/
def Phase.locks : Phase → Option ℕ
  | .inserting existing _ | .committing existing _ _ _ => some existing.id
  | _ => none

/-- The user the open transaction of the call has inserted. -/
def Phase.pendingUser : Phase → Option User
  | .creatingSession user | .committingUser user _ _ => some user
  | _ => none

/-- One call. -/
structure Call where
  id : ℕ
  operation : Operation
  ctx : SessionContext
  phase : Phase
  deriving DecidableEq

/-- A rotation that has been committed: the call, the token it revoked and its successor. -/
structure Rotation where
  callId : ℕ
  token : ℕ
  successor : ℕ
  deriving DecidableEq

structure State where
  now : ℕ
  users : Table User.id
  tokens : Table RefreshToken.id
  calls : Table Call.id
  /-- The rows of tokens inserted so far, by transactions that are still open too. -/
  inserted : List RefreshToken
  rotations : List Rotation
  events : List SecurityEvent

/-- What a call meets in a step, besides the state. -/
inductive Action where
  /-- The next statement. -/
  | advance
  /-- The insertion of a user, with its id and the hash of its password. -/
  | user (id : ℕ) (passwordHash : JsString)
  /-- The insertion of a refresh token, with its id and the generated token. -/
  | session (id : ℕ) (token : JsString)
  /-- The statement fails, or the process dies.  An open transaction is rolled back. -/
  | throw

inductive Label where
  /-- Time passes. -/
  | tick (ms : ℕ)
  /-- A client calls. -/
  | call (id : ℕ) (operation : Operation) (ctx : SessionContext)
  | step (callId : ℕ) (action : Action)
  /-- The status of an account is changed. -/
  | setStatus (userId : ℕ) (status : UserStatus)

/-- The first phase of a call. -/
def Operation.start : Operation → Phase
  | .register dto => .registering dto
  | .login dto => .loggingIn dto
  | .refresh rawToken => .presenting rawToken
  | .logout rawToken userId => .loggingOut rawToken userId

def State.record (s : State) (event : SecurityEvent) : State :=
  { s with events := s.events ++ [event] }

/-- The row is locked by an open transaction. -/
def State.locked (s : State) (tokenId : ℕ) : Bool :=
  s.calls.rows.any fun c => c.phase.locks = some tokenId

/-- A statement that revokes tokens, and the number of rows it changed.  It waits as long as a row
it would change is locked. -/
def State.revokeMany (s : State) (u : Update RefreshToken.id) : Option (State × ℕ) :=
  if s.tokens.rows.any fun r => u.guard r && s.locked r.id then none
  else
    let updated := s.tokens.updateMany u
    some ({ s with tokens := updated.1 }, updated.2)

section

variable (config : AuthConfig) (crypto : Crypto) (unicode : Unicode)

/-- The user with the email, among those committed. -/
def State.findByEmail (s : State) (email : JsString) : Option User :=
  s.users.rows.find? fun user => user.email = normalizeEmail unicode email

def State.findRefreshToken (s : State) (rawToken : JsString) : Option RefreshToken :=
  if looksLikeRefreshToken rawToken then
    s.tokens.rows.find? fun r => r.tokenHash = crypto.hashRefreshToken rawToken
  else none

/-- An open transaction has inserted a user with the email. -/
def State.registersEmail (s : State) (email : JsString) : Bool :=
  s.calls.rows.any fun c => c.phase.pendingUser.any fun user => user.email = email

/-- A row of `issueRefreshToken` is inserted. -/
def State.issueRefreshToken (s : State) (ctx : SessionContext) (id userId : ℕ) (token : JsString) :
    Option (State × RefreshToken) :=
  let row := issuedRefreshToken config crypto ctx id userId token s.now
  if isGeneratedRefreshToken token
      && s.inserted.all fun r => r.id ≠ row.id && r.tokenHash ≠ row.tokenHash then
    some ({ s with inserted := s.inserted ++ [row] }, row)
  else none

def buildTokenPair (userId : ℕ) (refreshToken : JsString) : TokenPairDto where
  sub := userId
  refreshToken := refreshToken
  expiresIn := config.accessTtlSeconds

/-- The reason recorded for an account that is not ACTIVE. -/
def statusReason : UserStatus → JsString
  | .SUSPENDED => js "suspended"
  | _ => js "deleted"

namespace Call

variable (s : State) (c : Call)

def rejectDuplicateEmail : State × Phase :=
  (s.record (.REGISTER_FAILED (js "email_already_exists")), .returned (.error emailAlreadyExists))

/-- `login`, up to the insertion of the token. -/
def authenticate (dto : LoginDto) : State × Phase :=
  let user := s.findByEmail unicode dto.email
  let passwordMatches := crypto.verify ((user.map User.passwordHash).getD crypto.decoyPasswordHash)
    dto.password
  match user with
  | none =>
      (s.record (.LOGIN_FAILED none (js "unknown_email")), .returned (.error invalidCredentials))
  | some user =>
      if !passwordMatches then
        (s.record (.LOGIN_FAILED (some user.id) (js "invalid_password")),
          .returned (.error invalidCredentials))
      else if user.status ≠ .ACTIVE then
        (s.record (.LOGIN_FAILED (some user.id) (statusReason user.status)),
          .returned (.error (accountStatusException user.status)))
      else (s, .startingSession user)

/-- `refresh`: what is done with a token that was found. -/
def check (existing : RefreshToken) (user : User) : Phase :=
  if existing.revokedAt.isSome then .reusing existing s.now
  else if existing.expiresAt ≤ s.now then .expiring existing s.now
  else if user.status ≠ .ACTIVE then .suspending existing user s.now
  else .beginning existing

/-- `refresh`: the update of the transaction, which waits for the lock on the row. -/
def rotate (existing : RefreshToken) (revokedAt : ℕ) : Option (State × Phase) :=
  if s.locked existing.id then none
  else if (s.tokens.updateMany (revokeOne existing.id revokedAt)).2 = 1 then
    some (s, .inserting existing revokedAt)
  else some (s, .losing existing)

/-- `refresh`: the commit of the rotation. -/
def commitRotation (existing : RefreshToken) (revokedAt : ℕ) (row : RefreshToken)
    (token : JsString) : Option (State × Phase) := do
  let published := (s.tokens.updateMany (publishRevoked existing.id revokedAt)).1
  let tokens ← published.create row
  let rotations := s.rotations ++ [{ callId := c.id, token := existing.id, successor := row.id }]
  some ({ s with tokens, rotations }.record
      (.REFRESH_TOKEN_ROTATED existing.userId row.id existing.id),
    .returned (.ok (.rotated (buildTokenPair config existing.userId token))))

/-- `register`: the commit of the user and its first session. -/
def commitUser (user : User) (row : RefreshToken) (token : JsString) : Option (State × Phase) := do
  let users ← s.users.create user
  let tokens ← s.tokens.create row
  some ({ s with users, tokens }.record (.REGISTER_SUCCESS user.id row.id),
    .returned (.ok (.session (buildTokenPair config user.id token) (toPublicUser user))))

/-- `login`: the insertion of the token. -/
def startSession (user : User) (id : ℕ) (token : JsString) : Option (State × Phase) := do
  let issued ← s.issueRefreshToken config crypto c.ctx id user.id token
  let tokens ← s.tokens.create issued.2
  some ({ issued.1 with tokens }.record (.LOGIN_SUCCESS user.id issued.2.id),
    .returned (.ok (.session (buildTokenPair config user.id token) (toPublicUser user))))

/-- The end of `handleReuse`. -/
def revokeFamily (token : RefreshToken) (revokedAt : ℕ) (visible : List ℕ) :
    Option (State × Phase) := do
  let revoked ← s.revokeMany (revokeAll visible token.userId revokedAt)
  some (revoked.1.record (.REFRESH_TOKEN_REUSE_DETECTED token.userId token.id revoked.2),
    .returned (.error refreshTokenReused))

/-- The next statement of a call. -/
def advance : Option (State × Phase) :=
  match c.phase with
  | .registering dto =>
      match s.findByEmail unicode dto.email with
      | some _ => some (rejectDuplicateEmail s)
      | none => some (s, .creatingUser dto)
  | .committingUser user row token => commitUser config s user row token
  | .loggingIn dto => some (authenticate crypto unicode s dto)
  | .presenting rawToken =>
      match s.findRefreshToken crypto rawToken with
      | none =>
          some (s.record (.REFRESH_TOKEN_REJECTED none none (js "unknown_token")),
            .returned (.error invalidRefreshToken))
      | some existing => some (s, .joining existing)
  | .joining existing =>
      match s.users.find existing.userId with
      | none => some (s, .rejected)
      | some user => some (s, .checking existing user)
  | .checking existing user => some (s, check s existing user)
  | .expiring existing revokedAt => do
      let revoked ← s.revokeMany (revokeOne existing.id revokedAt)
      some (revoked.1.record
          (.REFRESH_TOKEN_REJECTED (some existing.userId) (some existing.id) (js "expired")),
        .returned (.error refreshTokenExpired))
  | .suspending existing user revokedAt => do
      let revoked ← s.revokeMany (revokeOne existing.id revokedAt)
      some (revoked.1.record
          (.REFRESH_TOKEN_REJECTED (some user.id) none (statusReason user.status)),
        .returned (.error (accountStatusException user.status)))
  | .beginning existing => some (s, .rotating existing s.now)
  | .rotating existing revokedAt => rotate s existing revokedAt
  | .committing existing revokedAt row token => c.commitRotation config s existing revokedAt row token
  | .losing existing => some (s, .reusing existing s.now)
  | .reusing token revokedAt => some (s, .revoking token revokedAt (s.tokens.rows.map RefreshToken.id))
  | .revoking token revokedAt visible => revokeFamily s token revokedAt visible
  | .loggingOut rawToken userId =>
      match s.findRefreshToken crypto rawToken with
      | none =>
          some (s.record (.LOGOUT userId none (js "unknown_token")), .returned (.ok .loggedOut))
      | some existing =>
          if existing.userId ≠ userId then
            some (s.record (.LOGOUT userId none (js "token_belongs_to_other_user")),
              .returned (.ok .loggedOut))
          else some (s, .endingSession existing userId s.now)
  | .endingSession existing userId revokedAt => do
      let revoked ← s.revokeMany (revokeOne existing.id revokedAt)
      let reason := if revoked.2 = 1 then js "revoked" else js "already_revoked"
      some (revoked.1.record (.LOGOUT userId (some existing.id) reason),
        .returned (.ok .loggedOut))
  | _ => none

/-- One step of a call. -/
def act : Action → Option (State × Phase)
  | .advance => c.advance config crypto unicode s
  | .user id passwordHash =>
      match c.phase with
      | .creatingUser dto =>
          let user := createdUser unicode dto id passwordHash s.now
          if s.registersEmail user.email then none
          else if (s.findByEmail unicode dto.email).isSome then some (rejectDuplicateEmail s)
          else some (s, .creatingSession user)
      | _ => none
  | .session id token =>
      match c.phase with
      | .creatingSession user => do
          let issued ← s.issueRefreshToken config crypto c.ctx id user.id token
          some (issued.1, .committingUser user issued.2 token)
      | .startingSession user => c.startSession config crypto s user id token
      | .inserting existing revokedAt => do
          let ctx := { c.ctx with deviceName := c.ctx.deviceName.or existing.deviceName }
          let issued ← s.issueRefreshToken config crypto ctx id existing.userId token
          some (issued.1, .committing existing revokedAt issued.2 token)
      | _ => none
  | .throw =>
      match c.phase with
      | .returned _ | .rejected => none
      | _ => some (s, .rejected)

end Call

/-- One step of the system. -/
def step (s : State) : Label → Option State
  | .tick ms => some { s with now := s.now + ms }
  | .call id operation ctx => do
      let calls ← s.calls.create { id, operation, ctx, phase := operation.start }
      some { s with calls }
  | .step callId action => do
      let c ← s.calls.find callId
      let next ← c.act config crypto unicode s action
      some { next.1 with calls := s.calls.put { c with phase := next.2 } }
  | .setStatus userId status =>
      let change : Update User.id :=
        { guard := fun user => user.id = userId
          data := fun user => { user with status, updatedAt := s.now } }
      some { s with users := (s.users.updateMany change).1 }

/-- The calls of authentication.  Runs start without sessions and calls. -/
def system : TransitionSystem State Label where
  init s :=
    s.tokens.rows = [] ∧ s.calls.rows = [] ∧ s.inserted = [] ∧ s.rotations = [] ∧ s.events = []
  step := step config crypto unicode

end

/-! ### What a step of a call can be -/

/-- The token a `refresh` has found. -/
def Phase.existing : Phase → Option RefreshToken
  | .joining existing | .checking existing _ | .expiring existing _ | .suspending existing _ _
  | .beginning existing | .rotating existing _ | .inserting existing _ | .committing existing _ _ _
  | .losing existing | .reusing existing _ | .revoking existing _ _ => some existing
  | _ => none

/-- The token the open transaction of the call has inserted. -/
def Phase.pending : Phase → Option RefreshToken
  | .committingUser _ row _ | .committing _ _ row _ => some row
  | _ => none

/-- The token a `refresh` has found to be revoked. -/
def Phase.reused : Phase → Option RefreshToken
  | .losing existing | .reusing existing _ | .revoking existing _ _ => some existing
  | _ => none

/-- The phases after the first in which a call neither works on a token, nor has rotated one or found
it reused. -/
def Phase.plain : Phase → Bool
  | .committingUser _ _ _ | .presenting _ => false
  | .returned (.ok (.rotated _)) => false
  | .returned (.error error) => error ≠ refreshTokenReused
  | phase => phase.existing.isNone

variable {config : AuthConfig} {crypto : Crypto} {unicode : Unicode}

/-- The row may be inserted: its id and its hash are new. -/
def State.Fresh (s : State) (row : RefreshToken) : Prop :=
  ∀ r ∈ s.inserted, r.id ≠ row.id ∧ r.tokenHash ≠ row.tokenHash

/-- The steps of a call, by what they do to tokens. -/
inductive Call.Acts (crypto : Crypto) (s : State) (c : Call) : State → Phase → Prop where
  | plain {events : List SecurityEvent} {phase : Phase} (hplain : phase.plain = true) :
      Acts crypto s c { s with events } phase
  | finds {rawToken : JsString} {existing : RefreshToken} (hphase : c.phase = .presenting rawToken)
      (hfind : s.findRefreshToken crypto rawToken = some existing) :
      Acts crypto s c s (.joining existing)
  /-- The call goes on with the token it has found. -/
  | follows {existing : RefreshToken} {phase : Phase} (hbefore : c.phase.existing = some existing)
      (hafter : phase.existing = some existing) (hlocks : phase.locks = none)
      (hreused : phase.reused = none ∨ existing.revokedAt ≠ none ∨ c.phase.reused = some existing
        ∨ ∀ row, s.tokens.find existing.id = some row → row.revokedAt ≠ none) :
      Acts crypto s c s phase
  | locks {existing : RefreshToken} {revokedAt : ℕ} (hphase : c.phase = .rotating existing revokedAt)
      (hfree : s.locked existing.id = false)
      (hlive : ∃ row, s.tokens.find existing.id = some row ∧ row.revokedAt = none) :
      Acts crypto s c s (.inserting existing revokedAt)
  /-- An open transaction inserts a token. -/
  | inserts {row : RefreshToken} {phase : Phase} (hfresh : s.Fresh row) (hrow : row.revokedAt = none)
      (hpending : phase.pending = some row)
      (hnext : (∃ user token, phase = .committingUser user row token)
        ∨ ∃ existing revokedAt token, c.phase = .inserting existing revokedAt
          ∧ row.userId = existing.userId ∧ phase = .committing existing revokedAt row token) :
      Acts crypto s c { s with inserted := s.inserted ++ [row] } phase
  /-- A token is inserted and committed at once. -/
  | starts {row : RefreshToken} {tokens : Table RefreshToken.id} {events : List SecurityEvent}
      {phase : Phase} (hfresh : s.Fresh row) (hrow : row.revokedAt = none)
      (hcreate : s.tokens.create row = some tokens) (hplain : phase.plain = true) :
      Acts crypto s c { s with inserted := s.inserted ++ [row], tokens, events } phase
  /-- The token of a new user is committed. -/
  | enrolls {user : User} {row : RefreshToken} {token : JsString} {users : Table User.id}
      {tokens : Table RefreshToken.id} {events : List SecurityEvent} {phase : Phase}
      (hphase : c.phase = .committingUser user row token)
      (hcreate : s.tokens.create row = some tokens) (hplain : phase.plain = true) :
      Acts crypto s c { s with users, tokens, events } phase
  | revokes {selects : RefreshToken → Bool} {revokedAt : ℕ} {events : List SecurityEvent}
      {phase : Phase}
      (hfree : ∀ r ∈ s.tokens.rows, (revoke selects revokedAt).guard r = true →
        s.locked r.id = false)
      (hplain : phase.plain = true) :
      Acts crypto s c
        { s with tokens := (s.tokens.updateMany (revoke selects revokedAt)).1, events } phase
  | revokesFamily {token : RefreshToken} {revokedAt : ℕ} {visible : List ℕ}
      {events : List SecurityEvent} (hphase : c.phase = .revoking token revokedAt visible)
      (hfree : ∀ r ∈ s.tokens.rows, (revokeAll visible token.userId revokedAt).guard r = true →
        s.locked r.id = false) :
      Acts crypto s c
        { s with
          tokens := (s.tokens.updateMany (revokeAll visible token.userId revokedAt)).1, events }
        (.returned (.error refreshTokenReused))
  /-- A rotation is committed. -/
  | commits {existing : RefreshToken} {revokedAt : ℕ} {row : RefreshToken} {token : JsString}
      {tokens : Table RefreshToken.id} {events : List SecurityEvent} {tokenPair : TokenPairDto}
      (hphase : c.phase = .committing existing revokedAt row token)
      (hcreate : (s.tokens.updateMany (publishRevoked existing.id revokedAt)).1.create row
        = some tokens) :
      Acts crypto s c
        { s with
          tokens
          rotations := s.rotations
            ++ [{ callId := c.id, token := existing.id, successor := row.id }]
          events }
        (.returned (.ok (.rotated tokenPair)))

section

variable {s s' : State} {c : Call} {phase : Phase}

/-- A statement that revokes tokens only runs when none of its rows is locked. -/
theorem revokeMany_eq_some {u : Update RefreshToken.id} {result : State × ℕ}
    (h : s.revokeMany u = some result) :
  (∀ r ∈ s.tokens.rows, u.guard r = true → s.locked r.id = false)
    ∧ result = ({ s with tokens := (s.tokens.updateMany u).1 }, (s.tokens.updateMany u).2)
  := by
  unfold State.revokeMany at h
  split at h
  · cases h
  · rename_i hfree
    refine ⟨?_, (Option.some.inj h).symm⟩
    simpa [List.any_eq_true] using hfree

/-- The row `issueRefreshToken` inserts is new, and not revoked. -/
theorem issueRefreshToken_eq_some {ctx : SessionContext} {id userId : ℕ} {token : JsString}
    {result : State × RefreshToken}
    (h : s.issueRefreshToken config crypto ctx id userId token = some result) :
  s.Fresh result.2 ∧ result.2.revokedAt = none ∧ result.2.userId = userId
    ∧ result.1 = { s with inserted := s.inserted ++ [result.2] }
  := by
  unfold State.issueRefreshToken at h
  simp only at h
  split at h
  · rename_i hfresh
    obtain rfl := Option.some.inj h
    simp only [Bool.and_eq_true, List.all_eq_true, decide_eq_true_eq] at hfresh
    exact ⟨hfresh.2, rfl, rfl, rfl⟩
  · cases h

theorem Phase.plain_error {error : AppException} (h : error.code ≠ .AUTH_REFRESH_TOKEN_REUSED) :
  (Phase.returned (.error error)).plain = true
  := by
  simp only [plain, decide_eq_true_eq]
  rintro rfl
  apply h rfl

theorem plain_accountStatus (status : UserStatus) :
  (Phase.returned (.error (accountStatusException status))).plain = true
  := by
  apply Phase.plain_error
  cases status <;> simp [accountStatusException]

theorem plain_rejectDuplicateEmail (s : State) :
  (Call.rejectDuplicateEmail s).2.plain = true
  := by
  apply Phase.plain_error
  simp [emailAlreadyExists]

/-- The update of one row that is not revoked finds that row. -/
theorem revokeOne_count {id revokedAt : ℕ} :
  (s.tokens.updateMany (revokeOne id revokedAt)).2 = 1
    ↔ ∃ row, s.tokens.find id = some row ∧ row.revokedAt = none
  := by
  have hguard : ∀ r, (revokeOne id revokedAt).guard r = true → r.id = id := by
    intro r h
    simp only [revokeOne, revoke, Bool.and_eq_true, decide_eq_true_eq] at h
    exact h.1
  rw [Table.count_eq_one_iff hguard]
  apply exists_congr
  intro row
  apply and_congr_right
  intro hfind
  simp [revokeOne, revoke, Table.key_of_find hfind]

theorem Call.authenticate_acts {dto : LoginDto}
    (h : authenticate crypto unicode s dto = (s', phase)) :
  c.Acts crypto s s' phase
  := by
  unfold authenticate at h
  simp only at h
  split at h
  · obtain ⟨rfl, rfl⟩ := Prod.mk.inj h
    exact .plain (Phase.plain_error (by simp [invalidCredentials]))
  · split at h
    · obtain ⟨rfl, rfl⟩ := Prod.mk.inj h
      exact .plain (Phase.plain_error (by simp [invalidCredentials]))
    · split at h
      · obtain ⟨rfl, rfl⟩ := Prod.mk.inj h
        exact .plain (plain_accountStatus _)
      · obtain ⟨rfl, rfl⟩ := Prod.mk.inj h
        exact .plain rfl

theorem Call.check_acts {existing : RefreshToken} {user : User}
    (hphase : c.phase = .checking existing user) :
  c.Acts crypto s s (check s existing user)
  := by
  have hbefore : c.phase.existing = some existing := by rw [hphase]; rfl
  unfold check
  split
  · rename_i hrevoked
    exact .follows hbefore rfl rfl (.inr (.inl (Option.isSome_iff_ne_none.mp hrevoked)))
  · split
    · exact .follows hbefore rfl rfl (.inl rfl)
    · split
      · exact .follows hbefore rfl rfl (.inl rfl)
      · exact .follows hbefore rfl rfl (.inl rfl)

theorem Call.rotate_acts {existing : RefreshToken} {revokedAt : ℕ}
    (hphase : c.phase = .rotating existing revokedAt)
    (h : rotate s existing revokedAt = some (s', phase)) :
  c.Acts crypto s s' phase
  := by
  unfold rotate at h
  split at h
  · cases h
  · rename_i hfree
    rw [Bool.not_eq_true] at hfree
    split at h
    · rename_i hcount
      obtain ⟨rfl, rfl⟩ := Prod.mk.inj (Option.some.inj h)
      exact .locks hphase hfree (revokeOne_count.mp hcount)
    · rename_i hcount
      obtain ⟨rfl, rfl⟩ := Prod.mk.inj (Option.some.inj h)
      have hbefore : c.phase.existing = some existing := by rw [hphase]; rfl
      refine .follows hbefore rfl rfl (.inr (.inr (.inr ?_)))
      intro row hrow hlive
      apply hcount (revokeOne_count.mpr ⟨row, hrow, hlive⟩)

/-- A statement that revokes tokens, and a phase after it. -/
theorem Call.revokeMany_acts {selects : RefreshToken → Bool} {revokedAt : ℕ}
    {result : State × ℕ} {event : SecurityEvent}
    (h : s.revokeMany (revoke selects revokedAt) = some result) (hplain : phase.plain = true) :
  c.Acts crypto s (result.1.record event) phase
  := by
  obtain ⟨hfree, rfl⟩ := revokeMany_eq_some h
  exact .revokes hfree hplain

theorem Call.revokeFamily_acts {token : RefreshToken} {revokedAt : ℕ} {visible : List ℕ}
    (hphase : c.phase = .revoking token revokedAt visible)
    (h : revokeFamily s token revokedAt visible = some (s', phase)) :
  c.Acts crypto s s' phase
  := by
  obtain ⟨revoked, hrevoked, h⟩ := Option.bind_eq_some_iff.mp h
  obtain ⟨rfl, rfl⟩ := Prod.mk.inj (Option.some.inj h)
  obtain ⟨hfree, rfl⟩ := revokeMany_eq_some hrevoked
  exact .revokesFamily hphase hfree

theorem Call.startSession_acts {user : User} {id : ℕ} {token : JsString}
    (h : c.startSession config crypto s user id token = some (s', phase)) :
  c.Acts crypto s s' phase
  := by
  obtain ⟨issued, hissued, h⟩ := Option.bind_eq_some_iff.mp h
  obtain ⟨tokens, hcreate, h⟩ := Option.bind_eq_some_iff.mp h
  obtain ⟨rfl, rfl⟩ := Prod.mk.inj (Option.some.inj h)
  obtain ⟨hfresh, hrow, -, hstate⟩ := issueRefreshToken_eq_some hissued
  rw [hstate]
  exact .starts hfresh hrow hcreate rfl

theorem Call.commitUser_acts {user : User} {row : RefreshToken} {token : JsString}
    (hphase : c.phase = .committingUser user row token)
    (h : commitUser config s user row token = some (s', phase)) :
  c.Acts crypto s s' phase
  := by
  obtain ⟨users, -, h⟩ := Option.bind_eq_some_iff.mp h
  obtain ⟨tokens, hcreate, h⟩ := Option.bind_eq_some_iff.mp h
  obtain ⟨rfl, rfl⟩ := Prod.mk.inj (Option.some.inj h)
  exact .enrolls hphase hcreate rfl

theorem Call.commitRotation_acts {existing row : RefreshToken} {revokedAt : ℕ} {token : JsString}
    (hphase : c.phase = .committing existing revokedAt row token)
    (h : c.commitRotation config s existing revokedAt row token = some (s', phase)) :
  c.Acts crypto s s' phase
  := by
  obtain ⟨tokens, hcreate, h⟩ := Option.bind_eq_some_iff.mp h
  obtain ⟨rfl, rfl⟩ := Prod.mk.inj (Option.some.inj h)
  exact .commits hphase hcreate

theorem Call.advance_acts (h : c.advance config crypto unicode s = some (s', phase)) :
  c.Acts crypto s s' phase
  := by
  cases hphase : c.phase with
  | registering dto =>
      simp only [advance, hphase] at h
      split at h
      · obtain ⟨rfl, rfl⟩ := Prod.mk.inj (Option.some.inj h)
        exact .plain (plain_rejectDuplicateEmail s)
      · obtain ⟨rfl, rfl⟩ := Prod.mk.inj (Option.some.inj h)
        exact .plain rfl
  | committingUser user row token =>
      simp only [advance, hphase] at h
      apply commitUser_acts hphase h
  | loggingIn dto =>
      simp only [advance, hphase] at h
      apply authenticate_acts (Option.some.inj h)
  | presenting rawToken =>
      simp only [advance, hphase] at h
      split at h
      · obtain ⟨rfl, rfl⟩ := Prod.mk.inj (Option.some.inj h)
        exact .plain (Phase.plain_error (by simp [invalidRefreshToken]))
      · rename_i existing hfind
        obtain ⟨rfl, rfl⟩ := Prod.mk.inj (Option.some.inj h)
        exact .finds hphase hfind
  | joining existing =>
      simp only [advance, hphase] at h
      split at h
      · obtain ⟨rfl, rfl⟩ := Prod.mk.inj (Option.some.inj h)
        exact .plain rfl
      · obtain ⟨rfl, rfl⟩ := Prod.mk.inj (Option.some.inj h)
        exact .follows (by rw [hphase]; rfl) rfl rfl (.inl rfl)
  | checking existing user =>
      simp only [advance, hphase] at h
      obtain ⟨rfl, rfl⟩ := Prod.mk.inj (Option.some.inj h)
      apply check_acts hphase
  | expiring existing revokedAt =>
      simp only [advance, hphase] at h
      obtain ⟨revoked, hrevoked, h⟩ := Option.bind_eq_some_iff.mp h
      obtain ⟨rfl, rfl⟩ := Prod.mk.inj (Option.some.inj h)
      exact revokeMany_acts hrevoked (Phase.plain_error (by simp [refreshTokenExpired]))
  | suspending existing user revokedAt =>
      simp only [advance, hphase] at h
      obtain ⟨revoked, hrevoked, h⟩ := Option.bind_eq_some_iff.mp h
      obtain ⟨rfl, rfl⟩ := Prod.mk.inj (Option.some.inj h)
      exact revokeMany_acts hrevoked (plain_accountStatus _)
  | beginning existing =>
      simp only [advance, hphase] at h
      obtain ⟨rfl, rfl⟩ := Prod.mk.inj (Option.some.inj h)
      exact .follows (by rw [hphase]; rfl) rfl rfl (.inl rfl)
  | rotating existing revokedAt =>
      simp only [advance, hphase] at h
      apply rotate_acts hphase h
  | committing existing revokedAt row token =>
      simp only [advance, hphase] at h
      apply commitRotation_acts hphase h
  | losing existing =>
      simp only [advance, hphase] at h
      obtain ⟨rfl, rfl⟩ := Prod.mk.inj (Option.some.inj h)
      exact .follows (by rw [hphase]; rfl) rfl rfl (.inr (.inr (.inl (by rw [hphase]; rfl))))
  | reusing token revokedAt =>
      simp only [advance, hphase] at h
      obtain ⟨rfl, rfl⟩ := Prod.mk.inj (Option.some.inj h)
      exact .follows (by rw [hphase]; rfl) rfl rfl (.inr (.inr (.inl (by rw [hphase]; rfl))))
  | revoking token revokedAt visible =>
      simp only [advance, hphase] at h
      apply revokeFamily_acts hphase h
  | loggingOut rawToken userId =>
      simp only [advance, hphase] at h
      split at h
      · obtain ⟨rfl, rfl⟩ := Prod.mk.inj (Option.some.inj h)
        exact .plain rfl
      · split at h
        · obtain ⟨rfl, rfl⟩ := Prod.mk.inj (Option.some.inj h)
          exact .plain rfl
        · obtain ⟨rfl, rfl⟩ := Prod.mk.inj (Option.some.inj h)
          exact .plain rfl
  | endingSession existing userId revokedAt =>
      simp only [advance, hphase] at h
      obtain ⟨revoked, hrevoked, h⟩ := Option.bind_eq_some_iff.mp h
      obtain ⟨rfl, rfl⟩ := Prod.mk.inj (Option.some.inj h)
      exact revokeMany_acts hrevoked rfl
  | creatingUser _ | creatingSession _ | startingSession _ | inserting _ _ | returned _ | rejected =>
      simp only [advance, hphase, reduceCtorEq] at h

/-- What the insertion of a user does. -/
theorem Call.user_cases {id : ℕ} {passwordHash : JsString}
    (h : c.act config crypto unicode s (.user id passwordHash) = some (s', phase)) :
  (s', phase) = rejectDuplicateEmail s ∨ ∃ user, s' = s ∧ phase = .creatingSession user
  := by
  simp only [act] at h
  split at h
  · split at h
    · cases h
    · split at h
      · exact .inl (Option.some.inj h).symm
      · obtain ⟨rfl, rfl⟩ := Prod.mk.inj (Option.some.inj h)
        exact .inr ⟨_, rfl, rfl⟩
  · cases h

theorem Call.throw_cases (h : c.act config crypto unicode s .throw = some (s', phase)) :
  s' = s ∧ phase = .rejected
  := by
  simp only [act] at h
  split at h
  · cases h
  · cases h
  · obtain ⟨rfl, rfl⟩ := Prod.mk.inj (Option.some.inj h)
    exact ⟨rfl, rfl⟩

/-- Every step of a call is one of the kinds. -/
theorem Call.acts_of_act {action : Action}
    (h : c.act config crypto unicode s action = some (s', phase)) :
  c.Acts crypto s s' phase
  := by
  cases action with
  | advance => apply advance_acts h
  | user id passwordHash =>
      rcases user_cases h with hduplicate | ⟨user, rfl, rfl⟩
      · obtain ⟨rfl, rfl⟩ := Prod.mk.inj hduplicate
        exact .plain (plain_rejectDuplicateEmail s)
      · exact .plain rfl
  | session id token =>
      simp only [act] at h
      split at h
      · obtain ⟨issued, hissued, h⟩ := Option.bind_eq_some_iff.mp h
        obtain ⟨rfl, rfl⟩ := Prod.mk.inj (Option.some.inj h)
        obtain ⟨hfresh, hrow, -, hstate⟩ := issueRefreshToken_eq_some hissued
        rw [hstate]
        exact .inserts hfresh hrow rfl (.inl ⟨_, _, rfl⟩)
      · apply startSession_acts h
      · rename_i hphase
        obtain ⟨issued, hissued, h⟩ := Option.bind_eq_some_iff.mp h
        obtain ⟨rfl, rfl⟩ := Prod.mk.inj (Option.some.inj h)
        obtain ⟨hfresh, hrow, huser, hstate⟩ := issueRefreshToken_eq_some hissued
        rw [hstate]
        exact .inserts hfresh hrow rfl (.inr ⟨_, _, _, hphase, huser, rfl⟩)
      · cases h
  | throw =>
      obtain ⟨rfl, rfl⟩ := throw_cases h
      exact .plain rfl

end

/-- The steps of the system, by what they do to calls. -/
inductive CallStep (config : AuthConfig) (crypto : Crypto) (unicode : Unicode) (s : State) :
    Label → State → Prop where
  | other {label : Label} {now : ℕ} {users : Table User.id} (hlabel : ∀ id operation ctx,
      label ≠ .call id operation ctx) : CallStep config crypto unicode s label { s with now, users }
  | calls {id : ℕ} {operation : Operation} {ctx : SessionContext} {calls : Table Call.id}
      (hcreate : s.calls.create { id, operation, ctx, phase := operation.start } = some calls) :
      CallStep config crypto unicode s (.call id operation ctx) { s with calls }
  | acts {c : Call} {action : Action} {t : State} {phase : Phase}
      (hfind : s.calls.find c.id = some c)
      (hact : c.act config crypto unicode s action = some (t, phase)) :
      CallStep config crypto unicode s (.step c.id action)
        { t with calls := s.calls.put { c with phase } }

theorem callStep_of_step {s s' : State} {label : Label}
    (h : (system config crypto unicode).step s label = some s') :
  CallStep config crypto unicode s label s'
  := by
  change step config crypto unicode s label = some s' at h
  cases label with
  | tick ms =>
      obtain rfl := Option.some.inj h
      exact .other nofun
  | call id operation ctx =>
      obtain ⟨calls, hcreate, h⟩ := Option.bind_eq_some_iff.mp h
      obtain rfl := Option.some.inj h
      exact .calls hcreate
  | step callId action =>
      obtain ⟨c, hc, h⟩ := Option.bind_eq_some_iff.mp h
      obtain ⟨next, hact, h⟩ := Option.bind_eq_some_iff.mp h
      obtain rfl := Option.some.inj h
      obtain rfl := Table.key_of_find hc
      exact .acts hc hact
  | setStatus userId status =>
      obtain rfl := Option.some.inj h
      exact .other nofun

/-- The steps of the system, by what they do to tokens. -/
inductive Moves (crypto : Crypto) (s : State) : State → Prop where
  /-- Time passes, or the status of an account is changed. -/
  | other {now : ℕ} {users : Table User.id} : Moves crypto s { s with now, users }
  | calls {c : Call} {calls : Table Call.id} (hcreate : s.calls.create c = some calls)
      (hstart : c.phase = c.operation.start) : Moves crypto s { s with calls }
  | acts {c : Call} {t : State} {phase : Phase} (hfind : s.calls.find c.id = some c)
      (hacts : c.Acts crypto s t phase) :
      Moves crypto s { t with calls := s.calls.put { c with phase } }

/-- Every step of the system is one of the kinds. -/
theorem moves_of_step {s s' : State} {label : Label}
    (h : (system config crypto unicode).step s label = some s') :
  Moves crypto s s'
  := by
  cases callStep_of_step h with
  | other => exact .other
  | calls hcreate => exact .calls hcreate rfl
  | acts hfind hact => exact .acts hfind (Call.acts_of_act hact)

end AuthService

end DocuAI

import DocuAI.Auth.Accounts
import DocuAI.Auth.Registry
import DocuAI.Auth.Replies

/-!
# Access tokens

The access tokens that come with a session, and the guards of the protected routes.  Access tokens
are not stored, so ending a session does not end the access token that came with it: it only runs
out.  A token is signed when the reply to the last statement of its call arrives, which may be after
the session of the call has ended again.  So once all sessions of a user are over and no call is to
be answered that has opened one, and as long as the user does not sign in again, the user is let in
no longer than one lifetime of an access token.

Signing and verifying are done by libraries, which are a parameter.
-/

namespace DocuAI

/-- The codes of the errors with which the guards answer. -/
inductive AccessErrorCode where
  | AUTH_UNAUTHORIZED
  | AUTH_INVALID_TOKEN
  | app (code : ErrorCode)
  deriving DecidableEq

structure AccessException where
  status : HttpStatus
  code : AccessErrorCode
  message : JsString
  deriving DecidableEq

def authenticationRequired : AccessException :=
  ⟨.UNAUTHORIZED, .AUTH_UNAUTHORIZED, js "Authentication required"⟩

def invalidAccessToken : AccessException :=
  ⟨.UNAUTHORIZED, .AUTH_INVALID_TOKEN, js "Invalid or expired access token"⟩

/-- The payload of an access token.  The subject is a user, or nothing when it is no UUID. -/
structure JwtPayload where
  sub : Option ℕ
  deriving DecidableEq

/-- What the libraries do: `jwtService.sign`, with the lifetime of `signOptions` in seconds and at a
time in milliseconds, and the strategy `jwt`, which takes the token from the header of a request and
verifies it, or says why it does not.  Both use the secret of the server. -/
structure Jwt (Token : Type) where
  sign (sub expiresIn now : ℕ) : Token
  authenticate (token : Option Token) (now : ℕ) : Except JsString JwtPayload

/-- What is documented of the libraries.  Times are compared in whole seconds. -/
structure Jwt.Lawful {Token : Type} (jwt : Jwt Token) : Prop where
  missing : ∀ now, jwt.authenticate none now = .error (js "No auth token")
  signed : ∀ sub expiresIn signedAt now, jwt.authenticate (some (jwt.sign sub expiresIn signedAt)) now
    = if now / 1000 < signedAt / 1000 + expiresIn then .ok { sub := some sub }
      else .error (js "jwt expired")

/-- `validate` of the strategy, called only after signature and expiry have been verified.  Ids are
numbers here; the check that the subject is a UUID is `JwtStrategy.validate`. -/
def JwtPayload.validate (payload : JwtPayload) : Option ℕ :=
  payload.sub

/-- What the guard makes of the user, and of the message with which the strategy has failed. -/
def JwtAuthGuard.handleRequest (user : Option ℕ) (reason : JsString) : Except AccessException ℕ :=
  match user with
  | some userId => .ok userId
  | none =>
      if reason = js "No auth token" then .error authenticationRequired
      else .error invalidAccessToken

/-- The guard of every route that is not public: the user of the token. -/
def JwtAuthGuard.canActivate {Token : Type} (jwt : Jwt Token) (now : ℕ) (token : Option Token) :
    Except AccessException ℕ :=
  match jwt.authenticate token now with
  | .error reason => handleRequest none reason
  | .ok payload => handleRequest payload.validate []

/-- Loads the principal behind a validated access token. -/
def UsersService.getActiveUser (users : Table User.id) (userId : ℕ) : Except AccessException User :=
  match users.find userId with
  | none => .error authenticationRequired
  | some user =>
      if user.status ≠ .ACTIVE then
        let exception := accountStatusException user.status
        .error ⟨exception.status, .app exception.code, exception.message⟩
      else .ok user

/-- Both guards of a resource route.  The second one reads the account in a later statement. -/
def ActiveUserGuard.canActivate {Token : Type} (jwt : Jwt Token) (now : ℕ) (users : Table User.id)
    (token : Option Token) : Except AccessException User := do
  let userId ← JwtAuthGuard.canActivate jwt now token
  UsersService.getActiveUser users userId

section

variable {Token : Type} {jwt : Jwt Token}

theorem JwtAuthGuard.canActivate_eq_ok_iff {now userId : ℕ} {token : Option Token} :
  canActivate jwt now token = .ok userId ↔ jwt.authenticate token now = .ok { sub := some userId }
  := by
  unfold canActivate
  cases jwt.authenticate token now with
  | error reason =>
      simp only [handleRequest, reduceCtorEq, iff_false]
      split <;> nofun
  | ok payload =>
      obtain ⟨sub⟩ := payload
      cases sub with
      | none => simp [JwtPayload.validate, handleRequest, js]
      | some userId' => simp [JwtPayload.validate, handleRequest]

/-- Who is let in with a token that was signed. -/
theorem JwtAuthGuard.canActivate_sign (hjwt : jwt.Lawful) {sub expiresIn signedAt now userId : ℕ} :
  canActivate jwt now (some (jwt.sign sub expiresIn signedAt)) = .ok userId
    ↔ sub = userId ∧ now / 1000 < signedAt / 1000 + expiresIn
  := by
  rw [canActivate_eq_ok_iff, hjwt.signed]
  split <;> simp_all

theorem UsersService.getActiveUser_eq_ok_iff {users : Table User.id} {userId : ℕ} {user : User} :
  getActiveUser users userId = .ok user ↔ users.find userId = some user ∧ user.status = .ACTIVE
  := by
  unfold getActiveUser
  cases users.find userId with
  | none => simp
  | some user' =>
      by_cases hactive : user'.status = .ACTIVE
      · simp only [hactive, ne_eq, not_true_eq_false, if_false, Except.ok.injEq, Option.some.injEq]
        exact ⟨fun h => ⟨h, h ▸ hactive⟩, And.left⟩
      · simp only [hactive, ne_eq, not_false_eq_true, if_true, reduceCtorEq, Option.some.injEq,
          false_iff]
        rintro ⟨rfl, h⟩
        exact hactive h

/-- The resource routes are for the accounts that are active when the second guard reads them. -/
theorem ActiveUserGuard.canActivate_eq_ok_iff {now : ℕ} {users : Table User.id} {token : Option Token}
    {user : User} :
  canActivate jwt now users token = .ok user
    ↔ JwtAuthGuard.canActivate jwt now token = .ok user.id ∧ users.find user.id = some user
      ∧ user.status = .ACTIVE
  := by
  unfold canActivate
  cases htoken : JwtAuthGuard.canActivate jwt now token with
  | error exception => simp [bind, Except.bind]
  | ok userId =>
      change UsersService.getActiveUser users userId = .ok user ↔ _
      rw [UsersService.getActiveUser_eq_ok_iff, Except.ok.injEq]
      constructor
      · rintro ⟨hfind, hactive⟩
        obtain rfl := Table.key_of_find hfind
        exact ⟨rfl, hfind, hactive⟩
      · rintro ⟨rfl, h⟩
        exact h

end

namespace AuthService

variable {config : AuthConfig} {crypto : Crypto} {unicode : Unicode}

/-- The account whose tokens a call has to return. -/
def State.accountOf (s : State) (callId : ℕ) : Option ℕ :=
  (s.calls.find callId).bind fun c => c.phase.account

/-- The call opens a session of the user. -/
def OpensFor (t : Transition Server Server.Label) (callId userId : ℕ) : Prop :=
  (∃ action, t.label = .act (.step callId action))
    ∧ ∃ row ∈ t.target.auth.tokens.rows, row.userId = userId ∧ row.revokedAt = none
      ∧ t.source.auth.tokens.find row.id = none

/-- The access token of a user.  Its lifetime is among the options of the module. -/
def signAccessToken {Token : Type} (jwt : Jwt Token) (config : AuthConfig) (userId now : ℕ) : Token :=
  jwt.sign userId config.accessTtlSeconds now

/-- The call returns, and the token of the user is signed. -/
def HandsOut {Token : Type} (jwt : Jwt Token) (config : AuthConfig)
    (t : Transition Server Server.Label) (callId userId : ℕ) (token : Token) : Prop :=
  t.label = .arrive callId ∧ t.source.auth.accountOf callId = some userId
    ∧ token = signAccessToken jwt config userId t.source.auth.now

/-- All sessions of the user are over. -/
def SessionsEnded (s : State) (userId : ℕ) : Prop :=
  ∀ row ∈ s.tokens.rows, row.userId = userId → row.revokedAt ≠ none

section

variable {s s' : State} {c : Call} {phase : Phase} {label : Label} {userId : ℕ}

/-- A call that is to return tokens has opened a session of their user. -/
theorem Call.Takes.account_live (h : c.Takes config crypto unicode s s' phase)
    (hc : c ∈ s.calls.rows) (hsound : Sound crypto unicode s)
    (haccount : phase.account = some userId) :
  ∃ row ∈ s'.tokens.rows, row.userId = userId ∧ row.revokedAt = none
    ∧ s.tokens.find row.id = none
  := by
  cases h with
  | @commitsUser user row token users tokens hphase _ htokens =>
      have hvouched := hsound.vouched c hc
      rw [hphase] at hvouched
      obtain ⟨-, hlive⟩ := hsound.invariant.stored.pending c hc row (by rw [hphase]; rfl)
      have hrow : row ∈ tokens.rows := by
        rw [Table.rows_of_create htokens]
        exact List.mem_append_right _ List.mem_cons_self
      exact ⟨row, hrow, hvouched.2.trans (Option.some.inj haccount), hlive,
        Table.find_of_create htokens⟩
  | @startsSession user _ _ issued tokens _ hissued htokens =>
      obtain ⟨-, hlive, huser, -⟩ := issueRefreshToken_eq_some hissued
      have hrow : issued.2 ∈ tokens.rows := by
        rw [Table.rows_of_create htokens]
        exact List.mem_append_right _ List.mem_cons_self
      exact ⟨issued.2, hrow, huser.trans (Option.some.inj haccount), hlive,
        Table.find_of_create htokens⟩
  | @commits existing row revokedAt token tokens hphase htokens =>
      obtain ⟨-, hlive⟩ := hsound.invariant.stored.pending c hc row (by rw [hphase]; rfl)
      have howner := (hsound.invariant.knows c hc).committing _ _ _ _ hphase
      have hrow : row ∈ tokens.rows := by
        rw [Table.rows_of_create htokens]
        exact List.mem_append_right _ List.mem_cons_self
      have hnone := Table.find_of_create htokens
      rw [Table.find_updateMany, Option.map_eq_none_iff] at hnone
      exact ⟨row, hrow, howner.trans (Option.some.inj haccount), hlive, hnone⟩
  | _ => cases haccount

theorem SessionsEnded.revokeMany {selects : RefreshToken → Bool} {revokedAt : ℕ}
    {revoked : State × ℕ} (h : SessionsEnded s userId)
    (hrevoked : s.revokeMany (revoke selects revokedAt) = some revoked) :
  SessionsEnded revoked.1 userId
  := by
  obtain ⟨-, rfl⟩ := revokeMany_eq_some hrevoked
  intro row hrow huser
  obtain ⟨old, hold, rfl⟩ := List.mem_map.mp hrow
  unfold Update.apply at huser ⊢
  split at huser
  · rename_i hguard
    rw [if_pos hguard]
    exact Option.some_ne_none _
  · rename_i hguard
    rw [if_neg hguard]
    exact h old hold huser

theorem SessionsEnded.create {tokens : Table RefreshToken.id} {row : RefreshToken}
    (h : SessionsEnded s userId) (hcreate : s.tokens.create row = some tokens)
    (huser : row.userId ≠ userId) :
  ∀ r ∈ tokens.rows, r.userId = userId → r.revokedAt ≠ none
  := by
  intro r hr hid
  rw [Table.rows_of_create hcreate, List.mem_append, List.mem_singleton] at hr
  rcases hr with hr | rfl
  · exact h r hr hid
  · exact absurd hid huser

/-- Once all sessions of a user are over, only a call that signs the user in changes that. -/
theorem Call.Takes.ended_or_signedIn (h : c.Takes config crypto unicode s s' phase)
    (hc : c ∈ s.calls.rows) (hsound : Sound crypto unicode s) (hended : SessionsEnded s userId) :
  SessionsEnded s' userId ∨ phase.signedIn userId = true
  := by
  cases h with
  | @commitsUser user row token users tokens hphase _ htokens =>
      have hvouched := hsound.vouched c hc
      rw [hphase] at hvouched
      by_cases huser : user.id = userId
      · exact .inr (decide_eq_true huser)
      · exact .inl (hended.create htokens (hvouched.2 ▸ huser))
  | @startsSession user _ _ issued tokens _ hissued htokens =>
      obtain ⟨-, -, howner, -⟩ := issueRefreshToken_eq_some hissued
      by_cases huser : user.id = userId
      · exact .inr (decide_eq_true huser)
      · exact .inl (hended.create htokens (howner ▸ huser))
  | @commits existing row revokedAt token tokens hphase htokens =>
      -- The token has been live since the call locked it.
      obtain ⟨r, hr, hlive⟩ := hsound.invariant.locking.live c hc existing.id (by rw [hphase]; rfl)
      obtain ⟨-, r', -, hr', -, howner, -⟩ := (hsound.invariant.knows c hc).existing existing
        (by rw [hphase]; rfl)
      obtain rfl := Option.some.inj (hr.symm.trans hr')
      have huser : existing.userId ≠ userId := by
        intro huser
        exact hended r (Table.mem_of_find hr) (howner.trans huser) hlive
      have hrow := (hsound.invariant.knows c hc).committing _ _ _ _ hphase
      left
      intro x hx hid
      change x ∈ tokens.rows at hx
      rw [Table.rows_of_create htokens, List.mem_append, List.mem_singleton] at hx
      rcases hx with hx | rfl
      · obtain ⟨old, hold, rfl⟩ := List.mem_map.mp hx
        unfold Update.apply at hid ⊢
        split at hid
        · rename_i hguard
          rw [if_pos hguard]
          exact Option.some_ne_none _
        · rename_i hguard
          rw [if_neg hguard]
          exact hended old hold hid
      · exact absurd (hrow.symm.trans hid) huser
  | createsSession _ hissued | inserts _ hissued =>
      obtain ⟨-, -, -, hstate⟩ := issueRefreshToken_eq_some hissued
      rw [hstate]
      exact .inl hended
  | expires _ hrevoked | suspends _ hrevoked | revokesFamily _ hrevoked | endsSession _ hrevoked =>
      exact .inl (hended.revokeMany hrevoked)
  | _ => exact .inl hended

/-- A call is in its new phase after its step. -/
theorem find_put_self (calls : Table Call.id) (c : Call) (phase : Phase) :
  (calls.put { c with phase }).find c.id = some { c with phase }
  := (Table.find_put ..).trans (if_pos rfl)

/-- A call that has returned stays as it is. -/
theorem Steps.returned_stays (h : Steps config crypto unicode s label s') {id : ℕ}
    (hc : s.calls.find id = some c) {result : Except AppException Result}
    (hreturned : c.phase = .returned result) :
  s'.calls.find id = some c
  := by
  cases h with
  | tick | setStatus => exact hc
  | calls hcreate => exact Table.find_create_of_find hcreate hc
  | @takes c₀ action t phase hfind htakes =>
      rw [Table.find_put]
      split
      · rename_i hid
        change id = c₀.id at hid
        rw [← hid, hc] at hfind
        obtain rfl := Option.some.inj hfind
        exact absurd hreturned (htakes.not_returned result)
      · exact hc

theorem Phase.returned_of_signedIn (h : phase.signedIn userId = true) :
  ∃ result, phase = .returned result
  := by
  unfold Phase.signedIn at h
  split at h
  · exact ⟨_, rfl⟩
  · cases h

/-- Once all sessions of a user are over, they are after a step that does not sign the user in. -/
theorem Steps.sessionsEnded (h : Steps config crypto unicode s label s')
    (hsound : Sound crypto unicode s) (hended : SessionsEnded s userId)
    (hsigns : ∀ c ∈ s'.calls.rows, c.phase.signedIn userId = true → s.calls.find c.id = some c) :
  SessionsEnded s' userId
  := by
  cases h with
  | tick | calls | setStatus => exact hended
  | @takes c action t phase hfind htakes =>
      rcases htakes.ended_or_signedIn (Table.mem_of_find hfind) hsound hended with hkept | hsigned
      · exact hkept
      · have hmem := Table.mem_of_find (find_put_self s.calls c phase)
        have hthere := hsigns _ hmem hsigned
        obtain rfl := (Call.mk.inj (Option.some.inj (hfind.symm.trans hthere))).2.2.2
        obtain ⟨result, hreturned⟩ := Phase.returned_of_signedIn hsigned
        exact absurd hreturned (htakes.not_returned result)

theorem Call.Takes.now_eq (h : c.Takes config crypto unicode s s' phase) :
  s'.now = s.now
  := by
  cases h with
  | createsSession _ hissued | inserts _ hissued =>
      obtain ⟨-, -, -, hstate⟩ := issueRefreshToken_eq_some hissued
      rw [hstate]
  | startsSession _ hissued =>
      obtain ⟨-, -, -, hstate⟩ := issueRefreshToken_eq_some hissued
      rw [hstate]
      rfl
  | expires _ hrevoked | suspends _ hrevoked | revokesFamily _ hrevoked | endsSession _ hrevoked =>
      obtain ⟨-, rfl⟩ := revokeMany_eq_some hrevoked
      rfl
  | _ => rfl

theorem Steps.now_le (h : Steps config crypto unicode s label s') :
  s.now ≤ s'.now
  := by
  cases h with
  | tick ms => exact Nat.le_add_right _ _
  | takes _ htakes => exact htakes.now_eq.ge
  | calls | setStatus => exact Nat.le_refl _

end

section

variable {s s' : State} {ts : List (Transition State Label)} {userId : ℕ}

theorem now_le_of_run (hrun : (system config crypto unicode).Run s ts s') :
  s.now ≤ s'.now
  := hrun.invariant (I := fun s' => s.now ≤ s'.now) (Nat.le_refl _) fun _ _ hstep h =>
    h.trans (steps_of_step hstep).now_le

theorem returned_stays_of_run (hrun : (system config crypto unicode).Run s ts s') {c : Call} {id : ℕ}
    (hc : s.calls.find id = some c) {result : Except AppException Result}
    (hreturned : c.phase = .returned result) :
  s'.calls.find id = some c
  := hrun.invariant (I := fun s' => s'.calls.find id = some c) hc fun _ _ hstep h =>
    (steps_of_step hstep).returned_stays h hreturned

end

/-! ### Answers -/

/-- Every reply on its way is one to a call that is over, and has opened a session of the user whose
tokens it has to return. -/
def Answering (before : List (Transition Server Server.Label)) (s : Server) : Prop :=
  ∀ reply ∈ s.replies, ∃ c, s.auth.calls.find reply.callId = some c
    ∧ (∃ result, c.phase = .returned result)
    ∧ ∀ userId, c.phase.account = some userId → ∃ t ∈ before, OpensFor t reply.callId userId

/-- All sessions of the user are over, and no call is to be answered that has opened one. -/
structure Shut (userId : ℕ) (s : Server) : Prop where
  ended : SessionsEnded s.auth userId
  answered : ∀ reply ∈ s.replies, s.auth.accountOf reply.callId ≠ some userId

section

variable {s s' : Server} {ts : List (Transition Server Server.Label)} {userId : ℕ}

theorem Server.sound_of_run {s₀ : Server} (hrun : (Server.system config crypto unicode).Run s₀ ts s)
    (hinit : (Server.system config crypto unicode).init s₀) :
  Sound crypto unicode s.auth
  := by
  obtain ⟨us, hus⟩ := Server.calls_of_run hrun
  exact (AuthService.sound_of_run hus hinit.1).2

theorem answering_of_run {s₀ : Server} (hrun : (Server.system config crypto unicode).Run s₀ ts s)
    (hinit : (Server.system config crypto unicode).init s₀) :
  Answering ts s
  := by
  have hhistory : Sound crypto unicode s.auth ∧ Answering ts s := by
    refine hrun.history (I := fun before s => Sound crypto unicode s.auth ∧ Answering before s) ?_ ?_
    · refine ⟨sound_init hinit.1, ?_⟩
      rw [Answering, hinit.2.1]
      exact List.forall_mem_nil _
    · rintro before ⟨source, label, target⟩ hstep ⟨hsound, hanswering⟩
      have hold {reply : Reply} (hreply : reply ∈ source.replies) :
          ∃ c, source.auth.calls.find reply.callId = some c
            ∧ (∃ result, c.phase = .returned result)
            ∧ ∀ userId, c.phase.account = some userId →
              ∃ t ∈ before ++ [⟨source, label, target⟩], OpensFor t reply.callId userId := by
        obtain ⟨c, hc, hreturned, hopens⟩ := hanswering reply hreply
        refine ⟨c, hc, hreturned, fun userId haccount => ?_⟩
        obtain ⟨t, ht, hopensFor⟩ := hopens userId haccount
        exact ⟨t, List.mem_append_left _ ht, hopensFor⟩
      have hsteps : Server.Steps config crypto unicode source label target :=
        Server.steps_of_step hstep
      cases hsteps with
      | @acts label auth hauth =>
          have hcalls := steps_of_step hauth
          refine ⟨hsound.step hauth, ?_⟩
          intro reply hreply
          rcases List.mem_append.mp hreply with hreply | hreply
          · obtain ⟨c, hc, ⟨result, hreturned⟩, hopens⟩ := hold hreply
            exact ⟨c, hcalls.returned_stays hc hreturned, ⟨result, hreturned⟩, hopens⟩
          · obtain ⟨c, action, t, phase, hfind, htakes, rfl, rfl, hid, hreturned⟩ :=
              hcalls.of_mem_repliesTo hreply
            rw [hid]
            refine ⟨{ c with phase }, find_put_self .., hreturned, fun userId haccount => ?_⟩
            refine ⟨_, List.mem_append_right _ List.mem_cons_self, ⟨action, rfl⟩, ?_⟩
            exact htakes.account_live (Table.mem_of_find hfind) hsound haccount
      | arrives | loses =>
          exact ⟨hsound, fun reply hreply => hold (List.mem_of_mem_erase hreply)⟩
  exact hhistory.2

/-- Once a user is shut out, it stays so as long as no call signs the user in. -/
theorem shut_of_run {s₀ s₁ s₂ : Server} {before after : List (Transition Server Server.Label)}
    (hbefore : (Server.system config crypto unicode).Run s₀ before s₁)
    (hinit : (Server.system config crypto unicode).init s₀)
    (hafter : (Server.system config crypto unicode).Run s₁ after s₂) (hshut : Shut userId s₁)
    (hsigns : ∀ c ∈ s₂.auth.calls.rows, c.phase.signedIn userId = true →
      s₁.auth.calls.find c.id = some c) :
  ∀ t ∈ after, Shut userId t.source
  := by
  intro t ht
  refine hafter.invariant_source (Shut userId) hshut ?_ ht
  intro t ht hstep hsource
  obtain ⟨first, rest, -, hfirst, hrest⟩ := hafter.split_of_mem ht
  have hsound := Server.sound_of_run (hbefore.append hfirst) hinit
  have hanswering := answering_of_run (hbefore.append hfirst) hinit
  obtain ⟨source, label, target⟩ := t
  have hsteps : Server.Steps config crypto unicode source label target := Server.steps_of_step hstep
  cases hsteps with
  | @acts label auth hauth =>
      have hcalls := steps_of_step hauth
      have hended : SessionsEnded auth userId := by
        apply hcalls.sessionsEnded hsound hsource.ended
        -- A call that has signed the user in is there at the end, so it was there at the start.
        intro c hc hsigned
        obtain ⟨result, hreturned⟩ := Phase.returned_of_signedIn hsigned
        obtain ⟨_, hrest⟩ := Server.calls_of_run hrest
        obtain ⟨_, hfirst⟩ := Server.calls_of_run hfirst
        have hend := returned_stays_of_run hrest (Table.mem_rows_iff.mp hc) hreturned
        have hstart := hsigns c (Table.mem_of_find hend) hsigned
        exact returned_stays_of_run hfirst hstart hreturned
      refine ⟨hended, ?_⟩
      intro reply hreply
      rcases List.mem_append.mp hreply with hreply | hreply
      · obtain ⟨c, hc, ⟨result, hreturned⟩, -⟩ := hanswering reply hreply
        have hstays : auth.calls.find reply.callId = some c := hcalls.returned_stays hc hreturned
        have hanswered := hsource.answered reply hreply
        rw [State.accountOf, hc] at hanswered
        rw [State.accountOf, hstays]
        exact hanswered
      · obtain ⟨c, action, t, phase, hfind, htakes, -, rfl, hid, -⟩ := hcalls.of_mem_repliesTo hreply
        rw [State.accountOf, hid, find_put_self, Option.bind_some]
        intro haccount
        obtain ⟨row, hrow, huser, hlive, -⟩ :=
          htakes.account_live (Table.mem_of_find hfind) hsound haccount
        exact hended row hrow huser hlive
  | arrives | loses =>
      exact ⟨hsource.ended, fun reply hreply =>
        hsource.answered reply (List.mem_of_mem_erase hreply)⟩

theorem Server.now_le_of_run {s s' : Server}
    (hrun : (Server.system config crypto unicode).Run s ts s') :
  s.auth.now ≤ s'.auth.now
  := by
  obtain ⟨us, hus⟩ := Server.calls_of_run hrun
  exact AuthService.now_le_of_run hus

/-- A token is handed out for a reply on its way. -/
theorem Server.exists_reply {label : Server.Label} {callId : ℕ}
    (hstep : (Server.system config crypto unicode).step s label = some s')
    (hlabel : label = .arrive callId) :
  ∃ reply ∈ s.replies, reply.callId = callId
  := by
  have hsteps : Server.Steps config crypto unicode s label s' := Server.steps_of_step hstep
  cases hsteps with
  | arrives hreply => exact ⟨_, hreply, Server.Label.arrive.inj hlabel⟩
  | acts | loses => cases hlabel

end

/-- Access ends with the sessions.  Whoever is let in has a token that was handed out less than one
lifetime of an access token ago, by a call that had opened a session of the user before.  So one
lifetime after a state in which all sessions of a user were over and no call was to be answered that
had opened one, and unless a call has signed the user in since, no token that was ever handed out lets
anybody in as that user.

The token presented is not forged: it has been handed out if the libraries accept it. -/
theorem access_ends_with_sessions {Token : Type} {jwt : Jwt Token} (hjwt : jwt.Lawful)
    {s₀ s₁ s₂ : Server} {before after : List (Transition Server Server.Label)}
    (hbefore : (Server.system config crypto unicode).Run s₀ before s₁)
    (hinit : (Server.system config crypto unicode).init s₀)
    (hafter : (Server.system config crypto unicode).Run s₁ after s₂) {token : Option Token}
    (hgenuine : ∀ presented payload, token = some presented →
      jwt.authenticate token s₂.auth.now = .ok payload →
        ∃ t ∈ before ++ after, ∃ callId sub, HandsOut jwt config t callId sub presented)
    {userId : ℕ} :
  (JwtAuthGuard.canActivate jwt s₂.auth.now token = .ok userId →
    ∃ earlier t later callId presented, before ++ after = earlier ++ t :: later
      ∧ token = some presented ∧ HandsOut jwt config t callId userId presented
      ∧ s₂.auth.now < t.source.auth.now + 1000 * config.accessTtlSeconds
      ∧ ∃ u ∈ earlier, OpensFor u callId userId)
  ∧ ((∀ row ∈ s₁.auth.tokens.rows, row.userId = userId → row.revokedAt ≠ none) →
    (∀ reply ∈ s₁.replies, s₁.auth.accountOf reply.callId ≠ some userId) →
    (∀ c ∈ s₂.auth.calls.rows, c.phase.signedIn userId = true →
      s₁.auth.calls.find c.id = some c) →
      s₁.auth.now + 1000 * config.accessTtlSeconds ≤ s₂.auth.now →
        JwtAuthGuard.canActivate jwt s₂.auth.now token ≠ .ok userId)
  := by
  have hrun := hbefore.append hafter
  have hrecent : JwtAuthGuard.canActivate jwt s₂.auth.now token = .ok userId →
      ∃ t ∈ before ++ after, ∃ callId presented, token = some presented
        ∧ HandsOut jwt config t callId userId presented
        ∧ s₂.auth.now < t.source.auth.now + 1000 * config.accessTtlSeconds := by
    intro hok
    have hauthenticates := JwtAuthGuard.canActivate_eq_ok_iff.mp hok
    cases token with
    | none =>
        rw [hjwt.missing] at hauthenticates
        cases hauthenticates
    | some presented =>
        obtain ⟨t, ht, callId, sub, hlabel, haccount, rfl⟩ :=
          hgenuine presented _ rfl hauthenticates
        obtain ⟨rfl, hnow⟩ := (JwtAuthGuard.canActivate_sign hjwt).mp hok
        exact ⟨t, ht, callId, _, rfl, ⟨hlabel, haccount, rfl⟩, by omega⟩
  refine ⟨fun hok => ?_, fun hended hanswered hsigns hlate hok => ?_⟩
  · obtain ⟨t, ht, callId, presented, htoken, hhands, hnow⟩ := hrecent hok
    obtain ⟨earlier, later, hsplit, hearlier, -⟩ := hrun.split_of_mem ht
    refine ⟨earlier, t, later, callId, presented, hsplit, htoken, hhands, hnow, ?_⟩
    obtain ⟨hlabel, haccount, -⟩ := hhands
    obtain ⟨reply, hreply, rfl⟩ := Server.exists_reply (hrun.step_of_mem ht) hlabel
    obtain ⟨c, hc, -, hopens⟩ := answering_of_run hearlier hinit reply hreply
    rw [State.accountOf, hc] at haccount
    exact hopens userId haccount
  · obtain ⟨t, ht, callId, presented, -, ⟨hlabel, haccount, -⟩, hnow⟩ := hrecent hok
    rcases List.mem_append.mp ht with ht | ht
    · obtain ⟨_, _, -, -, hrest⟩ := hbefore.split_of_mem ht
      have hle := Server.now_le_of_run (.cons (hbefore.step_of_mem ht) hrest)
      omega
    · obtain ⟨reply, hreply, rfl⟩ := Server.exists_reply (hafter.step_of_mem ht) hlabel
      have hshut := shut_of_run hbefore hinit hafter ⟨hended, hanswered⟩ hsigns t ht
      exact hshut.answered reply hreply haccount

/-- The libraries, as far as they go by the subject and the time of a token. -/
def sampleJwt : Jwt (ℕ × ℕ) where
  sign sub expiresIn now := (sub, now / 1000 + expiresIn)
  authenticate token now :=
    match token with
    | none => .error (js "No auth token")
    | some (sub, exp) =>
        if now / 1000 < exp then .ok { sub := some sub } else .error (js "jwt expired")

theorem lawful_sampleJwt :
  sampleJwt.Lawful
  := ⟨fun _ => rfl, fun _ _ _ _ => rfl⟩

/-- User 7 registers and logs out.  Fifteen minutes later the access token of the registration no
longer lets anybody in. -/
theorem access_ends_with_sessions_of_registration :
  ∃ ts s₁ s₂, (Server.system sampleConfig sampleCrypto asciiUnicode).Run
      { auth := sampleState, replies := [], log := [], lost := [] } ts s₁
    ∧ (Server.system sampleConfig sampleCrypto asciiUnicode).step s₁ (.act (.tick 900000)) = some s₂
    ∧ (∃ t ∈ ts, HandsOut sampleJwt sampleConfig t 1 7 (7, 900))
    ∧ JwtAuthGuard.canActivate sampleJwt s₂.auth.now (some (7, 900)) ≠ .ok 7
  := by
  have hsome : ((Server.system sampleConfig sampleCrypto asciiUnicode).execute (fun _ => true)
      { auth := sampleState, replies := [], log := [], lost := [] }
      (registration.map .act)).any (fun s =>
        decide (s.auth.now = 0) && decide (s.auth.accountOf 1 = some 7)
        && ((Server.system sampleConfig sampleCrypto asciiUnicode).step s (.arrive 1)).any fun s' =>
          ((Server.system sampleConfig sampleCrypto asciiUnicode).execute (fun _ => true) s'
            [.act (.call 2 (.logout (sampleToken 0x41) 7) sampleContext), .act (.step 2 .advance),
              .act (.step 2 .advance), .arrive 2]).any fun s₁ =>
              s₁.auth.tokens.rows.all (fun row => row.revokedAt.isSome) && s₁.replies.isEmpty)
        = true := by
    decide +kernel
  obtain ⟨s, hs, hsome⟩ := (Option.any_eq_true _ _).mp hsome
  simp only [Bool.and_eq_true, decide_eq_true_eq] at hsome
  obtain ⟨⟨hnow, haccount⟩, hsome⟩ := hsome
  obtain ⟨s', hs', hsome⟩ := (Option.any_eq_true _ _).mp hsome
  obtain ⟨s₁, hs₁, hend⟩ := (Option.any_eq_true _ _).mp hsome
  simp only [Bool.and_eq_true, List.isEmpty_iff] at hend
  obtain ⟨hended, hreplies⟩ := hend
  obtain ⟨ts, hrun, -⟩ := TransitionSystem.run_of_execute hs
  obtain ⟨ts', hrun', -⟩ := TransitionSystem.run_of_execute hs₁
  have hbefore := hrun.append (.cons hs' hrun')
  have hhands : HandsOut sampleJwt sampleConfig ⟨s, .arrive 1, s'⟩ 1 7 (7, 900) := by
    refine ⟨rfl, haccount, ?_⟩
    rw [hnow]
    rfl
  have hmem : (⟨s, .arrive 1, s'⟩ : Transition Server Server.Label)
      ∈ ts ++ ⟨s, .arrive 1, s'⟩ :: ts' :=
    List.mem_append_right _ List.mem_cons_self
  have htick : (Server.system sampleConfig sampleCrypto asciiUnicode).step s₁ (.act (.tick 900000))
      = some { s₁ with
          auth := { s₁.auth with now := s₁.auth.now + 900000 }
          replies := s₁.replies ++ [] } := rfl
  refine ⟨_, s₁, _, hbefore, htick, ⟨_, hmem, hhands⟩, ?_⟩
  refine (access_ends_with_sessions lawful_sampleJwt hbefore ⟨⟨rfl, rfl, rfl, rfl, rfl⟩, rfl, rfl, rfl⟩
    (.cons htick (.nil _)) ?_).2 ?_ ?_ ?_ ?_
  · rintro presented payload hpresented -
    obtain rfl := Option.some.inj hpresented
    exact ⟨_, List.mem_append_left _ hmem, 1, 7, hhands⟩
  · intro row hrow _
    exact Option.isSome_iff_ne_none.mp (List.all_eq_true.mp hended row hrow)
  · rw [hreplies]
    exact List.forall_mem_nil _
  · exact fun c hc _ => Table.mem_rows_iff.mp hc
  · exact Nat.le_refl _

end AuthService

end DocuAI

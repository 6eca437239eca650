import DocuAI.Auth.Credentials
import DocuAI.Library.Simulation

/-!
# The registry of sessions

What the calls of authentication are for: a registry of sessions, each of one user, to which a
sign-in adds an open one, and in which an open one is exchanged for another, one is closed, or those
of a user are closed that had been opened at some earlier time.  The calls follow it, each committed
statement being one of these steps or none.  A refresh never adds to the sessions of a user, so a
user has no more open sessions than sign-ins.
-/

namespace DocuAI

/-- A session of a user. -/
structure Session where
  id : ℕ
  user : ℕ
  isOpen : Bool
  deriving DecidableEq

namespace SessionRegistry

inductive Label where
  | signIn (user id : ℕ)
  /-- An open session is closed and another one opened for its user. -/
  | rotate (old new : ℕ)
  | close (id : ℕ)
  /-- All sessions of the user are closed that are among the first ones opened.  The statement that
  closes them does not see those which are committed while it waits. -/
  | closeAll (user : ℕ) (seen : ℕ)
  deriving DecidableEq

/-- The sessions with the property are closed. -/
def closeWhere (p : Session → Bool) (sessions : List Session) : List Session :=
  sessions.map fun session => if p session then { session with isOpen := false } else session

def step (sessions : List Session) : Label → Option (List Session)
  | .signIn user id =>
      if sessions.any fun session => session.id = id then none
      else some (sessions ++ [⟨id, user, true⟩])
  | .rotate old new => do
      let session ← sessions.find? fun session => session.id = old
      if session.isOpen && !sessions.any fun session => session.id = new then
        some (closeWhere (fun session => session.id = old) sessions ++ [⟨new, session.user, true⟩])
      else none
  | .close id => some (closeWhere (fun session => session.id = id) sessions)
  | .closeAll user seen =>
      if seen ≤ sessions.length then
        some (closeWhere (fun session => session.user = user) (sessions.take seen)
          ++ sessions.drop seen)
      else none

/-- The registry, empty at the start. -/
def system : TransitionSystem (List Session) Label where
  init sessions := sessions = []
  step := step

/-- The number of open sessions of the user. -/
def openSessions (user : ℕ) (sessions : List Session) : ℕ :=
  sessions.countP fun session => session.user = user && session.isOpen

/-- The label is a sign-in of the user. -/
def Label.signsIn (user : ℕ) : Label → Bool
  | .signIn user' _ => user' = user
  | _ => false

/-- The open sessions of a user are those that stay open and those that are closed. -/
theorem openSessions_closeWhere (user : ℕ) (p : Session → Bool) (sessions : List Session) :
  openSessions user (closeWhere p sessions)
      + sessions.countP (fun session => p session && (session.user = user && session.isOpen))
    = openSessions user sessions
  := by
  unfold openSessions closeWhere
  induction sessions with
  | nil => rfl
  | cons session sessions ih =>
      rw [List.map_cons, List.countP_cons, List.countP_cons, List.countP_cons, ← ih]
      cases hp : p session with
      | false =>
          simp only [Bool.false_and, Bool.false_eq_true, if_false]
          omega
      | true =>
          simp only [Bool.true_and, Bool.and_false, Bool.false_eq_true, if_false, if_true]
          omega

theorem openSessions_append (user : ℕ) (sessions sessions' : List Session) :
  openSessions user (sessions ++ sessions')
    = openSessions user sessions + openSessions user sessions'
  := List.countP_append

theorem openSessions_singleton (user : ℕ) (session : Session) :
  openSessions user [session] = if session.user = user && session.isOpen then 1 else 0
  := List.countP_singleton

/-- A step opens a session of the user if it is a sign-in, and otherwise exchanges one at most. -/
theorem openSessions_step {sessions sessions' : List Session} {label : Label} (user : ℕ)
    (h : system.step sessions label = some sessions') :
  openSessions user sessions' ≤ openSessions user sessions + if label.signsIn user then 1 else 0
  := by
  change step sessions label = some sessions' at h
  cases label with
  | signIn user' id =>
      simp only [step] at h
      split at h
      · cases h
      · obtain rfl := Option.some.inj h
        rw [openSessions_append, openSessions_singleton]
        simp [Label.signsIn]
  | rotate old new =>
      obtain ⟨session, hfind, h⟩ := Option.bind_eq_some_iff.mp h
      split at h
      · rename_i henabled
        obtain rfl := Option.some.inj h
        simp only [Bool.and_eq_true] at henabled
        have hclose := openSessions_closeWhere user (fun session => session.id = old) sessions
        have hold : session.id = old := by simpa using List.find?_some hfind
        rw [openSessions_append, openSessions_singleton]
        by_cases huser : session.user = user
        · have hpos : 0 < sessions.countP (fun session => decide (session.id = old)
              && (session.user = user && session.isOpen)) := by
            rw [List.countP_pos_iff]
            exact ⟨session, List.mem_of_find?_eq_some hfind, by simp [hold, huser, henabled.1]⟩
          simp only [huser, decide_true, Bool.and_self, if_true]
          omega
        · simp only [huser, decide_false, Bool.false_and]
          simp only [Bool.false_eq_true, if_false]
          omega
      · cases h
  | close id =>
      obtain rfl := Option.some.inj h
      have hclose := openSessions_closeWhere user (fun session => session.id = id) sessions
      omega
  | closeAll user' seen =>
      simp only [step] at h
      split at h
      · obtain rfl := Option.some.inj h
        have hclose := openSessions_closeWhere user (fun session => session.user = user')
          (sessions.take seen)
        have hsplit : openSessions user sessions
            = openSessions user (sessions.take seen) + openSessions user (sessions.drop seen) := by
          rw [← openSessions_append, List.take_append_drop]
        rw [openSessions_append]
        omega
      · cases h

/-- In every run of the registry a user has no more open sessions than it had, and sign-ins. -/
theorem openSessions_run {sessions sessions' : List Session}
    {ts : List (Transition (List Session) Label)} (hrun : system.Run sessions ts sessions')
    (user : ℕ) :
  openSessions user sessions'
    ≤ openSessions user sessions + (ts.map Transition.label).countP (Label.signsIn user)
  := by
  have hle := hrun.le_add_countP (fun t => t.label.signsIn user) (openSessions user)
    fun t ht => openSessions_step user (hrun.step_of_mem ht)
  rw [List.countP_map]
  exact hle

end SessionRegistry

namespace AuthService

variable {config : AuthConfig} {crypto : Crypto} {unicode : Unicode}

/-- The session a row stands for. -/
def sessionOf (row : RefreshToken) : Session :=
  ⟨row.id, row.userId, row.revokedAt.isNone⟩

/-- The committed sessions. -/
def State.sessions (s : State) : List Session :=
  s.tokens.rows.map sessionOf

/-- What a call does to the sessions when it goes from one phase to another, and some rows have been
inserted. -/
def Phase.sessionStep (inserted : List RefreshToken) : Phase → Phase → Option SessionRegistry.Label
  | .committingUser _ row _, .returned (.ok _) => some (.signIn row.userId row.id)
  | .startingSession _, .returned (.ok _) =>
      inserted.getLast?.map fun row => .signIn row.userId row.id
  | .committing existing _ row _, .returned (.ok _) => some (.rotate existing.id row.id)
  | .expiring existing _, .returned _ | .suspending existing _ _, .returned _
  | .endingSession existing _ _, .returned _ => some (.close existing.id)
  | .revoking token _ visible, .returned _ => some (.closeAll token.userId visible.length)
  | _, _ => none

/-- What a transition does to the sessions. -/
def sessionStep (t : Transition State Label) : Option SessionRegistry.Label :=
  match t.label with
  | .step callId _ => do
      let c ← t.source.calls.find callId
      let c' ← t.target.calls.find callId
      c.phase.sessionStep t.target.inserted c'.phase
  | _ => none

section

variable {s s' : State} {c : Call} {phase : Phase}

/-- No session has the id of a row that is created. -/
theorem any_sessions_of_find {tokens : Table RefreshToken.id} {id : ℕ} {f : RefreshToken → Session}
    (hf : ∀ row, (f row).id = row.id) (hfind : tokens.find id = none) :
  ((tokens.rows.map f).any fun session => session.id = id) = false
  := by
  rw [List.any_map, List.any_eq_false]
  intro row hrow
  simp only [Function.comp_apply, hf, decide_eq_true_eq]
  intro hid
  exact Table.find_eq_none_iff.mp hfind (hid ▸ List.mem_map_of_mem hrow)

/-- A new row is a sign-in. -/
theorem sessions_create {tokens : Table RefreshToken.id} {row : RefreshToken}
    (hcreate : s.tokens.create row = some tokens) (hlive : row.revokedAt = none) :
  SessionRegistry.step s.sessions (.signIn row.userId row.id)
    = some (tokens.rows.map sessionOf)
  := by
  have hany := any_sessions_of_find (f := sessionOf) (fun _ => rfl) (Table.find_of_create hcreate)
  rw [SessionRegistry.step, State.sessions, hany, Table.rows_of_create hcreate, List.map_append,
    List.map_singleton]
  simp [sessionOf, hlive]

/-- An update that closes the sessions of some rows with a property. -/
theorem closeWhere_map_sessionOf {rows : List RefreshToken} {u : Update RefreshToken.id}
    {p : Session → Bool}
    (hu : ∀ row ∈ rows, sessionOf (u.apply row)
      = if p (sessionOf row) then { sessionOf row with isOpen := false } else sessionOf row) :
  SessionRegistry.closeWhere p (rows.map sessionOf) = (rows.map u.apply).map sessionOf
  := by
  rw [SessionRegistry.closeWhere, List.map_map, List.map_map]
  apply List.map_congr_left
  intro row hrow
  exact (hu row hrow).symm

/-- A statement that revokes the rows of the sessions with a property closes these. -/
theorem closeWhere_revoke {rows : List RefreshToken} {selects : RefreshToken → Bool} {revokedAt : ℕ}
    {p : Session → Bool} (hselects : ∀ row ∈ rows, selects row = p (sessionOf row)) :
  SessionRegistry.closeWhere p (rows.map sessionOf)
    = (rows.map (revoke selects revokedAt).apply).map sessionOf
  := by
  apply closeWhere_map_sessionOf
  intro row hrow
  have hrow_selects := hselects row hrow
  cases hrevokedAt : row.revokedAt with
  | none =>
      cases hp : selects row with
      | true =>
          rw [Update.apply_of_guard _ (by simp [revoke, hp, hrevokedAt])]
          exact (if_pos (hrow_selects.symm.trans hp)).symm
      | false =>
          rw [Update.apply_of_not_guard _ (by simp [revoke, hp])]
          exact (if_neg (Bool.eq_false_iff.mp (hrow_selects.symm.trans hp))).symm
  | some _ =>
      rw [Update.apply_of_not_guard _ (by simp [revoke, hrevokedAt])]
      simp [sessionOf, hrevokedAt]

/-- The statement for one row closes its session. -/
theorem sessions_revokeOne {id revokedAt : ℕ} {revoked : State × ℕ}
    (hrevoked : s.revokeMany (revokeOne id revokedAt) = some revoked) :
  SessionRegistry.step s.sessions (.close id) = some revoked.1.sessions
  := by
  obtain ⟨-, rfl⟩ := revokeMany_eq_some hrevoked
  apply congrArg some
  apply closeWhere_revoke
  exact fun row _ => rfl

/-- The statement for all rows of a user closes their sessions, as far as it sees them. -/
theorem sessions_revokeAll {visible : List ℕ} {revokedAt userId : ℕ} {revoked : State × ℕ}
    (hrevoked : s.revokeMany (revokeAll visible userId revokedAt) = some revoked)
    (hvisible : visible <+: s.tokens.rows.map RefreshToken.id) :
  SessionRegistry.step s.sessions (.closeAll userId visible.length) = some revoked.1.sessions
  := by
  have hlength : visible.length ≤ s.sessions.length := by
    simpa [State.sessions] using hvisible.length_le
  have htake : visible = (s.tokens.rows.take visible.length).map RefreshToken.id := by
    rw [List.map_take]
    exact List.prefix_iff_eq_take.mp hvisible
  -- No row after the visible ones has the id of one of these.
  have hnodup : ((s.tokens.rows.take visible.length ++ s.tokens.rows.drop visible.length).map
      RefreshToken.id).Nodup := by
    rw [List.take_append_drop]
    exact s.tokens.nodup
  rw [List.map_append, ← htake] at hnodup
  have hdisjoint := (List.nodup_append.mp hnodup).2.2
  obtain ⟨-, rfl⟩ := revokeMany_eq_some hrevoked
  rw [SessionRegistry.step, if_pos hlength]
  change _ = some ((s.tokens.updateMany _).1.rows.map sessionOf)
  rw [Table.rows_updateMany]
  conv_rhs => rw [← List.take_append_drop visible.length s.tokens.rows, List.map_append, List.map_append]
  rw [State.sessions, ← List.map_take, ← List.map_drop]
  congr 2
  · apply closeWhere_revoke
    intro row hrow
    have hseen : row.id ∈ visible := by
      rw [htake]
      exact List.mem_map_of_mem hrow
    change (decide (row.userId = userId) && decide (row.id ∈ visible)) = _
    rw [decide_eq_true hseen, Bool.and_true]
    rfl
  · rw [List.map_map]
    apply List.map_congr_left
    intro row hrow
    have hunseen : row.id ∉ visible := fun hseen =>
      hdisjoint row.id hseen row.id (List.mem_map_of_mem hrow) rfl
    rw [Function.comp_apply, Update.apply_of_not_guard _ (by simp [revokeAll, revoke, hunseen])]

/-- The commit of a rotation exchanges the session for its successor. -/
theorem sessions_commit {existing row r : RefreshToken} {revokedAt : ℕ}
    {tokens : Table RefreshToken.id}
    (htokens : (s.tokens.updateMany (publishRevoked existing.id revokedAt)).1.create row
      = some tokens)
    (hfind : s.tokens.find existing.id = some r) (hlive : r.revokedAt = none)
    (hrow : row.revokedAt = none) (howner : row.userId = r.userId) :
  SessionRegistry.step s.sessions (.rotate existing.id row.id) = some (tokens.rows.map sessionOf)
  := by
  have hpublished : SessionRegistry.closeWhere (fun session => session.id = existing.id) s.sessions
      = (s.tokens.updateMany (publishRevoked existing.id revokedAt)).1.rows.map sessionOf := by
    apply closeWhere_map_sessionOf
    intro x hx
    by_cases hid : x.id = existing.id
    · rw [Update.apply_of_guard _ (by simp [publishRevoked, hid])]
      simp [sessionOf, publishRevoked, hid]
    · rw [Update.apply_of_not_guard _ (by simp [publishRevoked, hid])]
      simp [sessionOf, hid]
  have hold : s.sessions.find? (fun session => session.id = existing.id) = some (sessionOf r) := by
    rw [State.sessions, List.find?_map]
    exact congrArg (Option.map sessionOf) hfind
  have hnone : s.tokens.find row.id = none := by
    have hnone := Table.find_of_create htokens
    rwa [Table.find_updateMany, Option.map_eq_none_iff] at hnone
  have hany : (s.sessions.any fun session => session.id = row.id) = false :=
    any_sessions_of_find (fun _ => rfl) hnone
  rw [Table.rows_of_create htokens, List.map_append, List.map_singleton, ← hpublished]
  simp [SessionRegistry.step, hold, hany, sessionOf, hlive, hrow, howner]

/-- Only a step with which a call returns does something to the sessions. -/
theorem Phase.sessionStep_eq_none {inserted : List RefreshToken} {phase' : Phase}
    (h : ∀ result, phase' ≠ .returned result) :
  phase.sessionStep inserted phase' = none
  := by
  unfold sessionStep
  split <;> simp_all

/-- The token a call works on belongs to the user it says. -/
theorem find_of_existing (hsound : Sound crypto unicode s) (hc : c ∈ s.calls.rows)
    {existing : RefreshToken} (hexisting : c.phase.existing = some existing) :
  ∃ row, s.tokens.find existing.id = some row ∧ row.userId = existing.userId
  := by
  obtain ⟨-, row, -, hrow, -, howner, -⟩ := (hsound.invariant.knows c hc).existing existing hexisting
  exact ⟨row, hrow, howner⟩

/-! ### What an alarm sees -/

/-- The rows the update of an alarm sees are the first ones of those there are by now. -/
def Phase.SeesFirst (ids : List ℕ) : Phase → Prop
  | .revoking _ _ visible => visible <+: ids
  | _ => True

theorem Phase.SeesFirst.mono {ids ids' : List ℕ} (h : phase.SeesFirst ids) (hids : ids <+: ids') :
  phase.SeesFirst ids'
  := by
  cases phase with
  | revoking token revokedAt visible => exact List.IsPrefix.trans h hids
  | _ => trivial

theorem ids_updateMany (u : Update RefreshToken.id) (tokens : Table RefreshToken.id) :
  (tokens.updateMany u).1.rows.map RefreshToken.id = tokens.rows.map RefreshToken.id
  := by
  rw [Table.rows_updateMany, List.map_map]
  apply List.map_congr_left
  exact fun row _ => u.key_apply row

theorem ids_create {tokens tokens' : Table RefreshToken.id} {row : RefreshToken}
    (hcreate : tokens.create row = some tokens') :
  tokens.rows.map RefreshToken.id <+: tokens'.rows.map RefreshToken.id
  := by
  rw [Table.rows_of_create hcreate, List.map_append]
  apply List.prefix_append

theorem ids_revokeMany {u : Update RefreshToken.id} {revoked : State × ℕ}
    (hrevoked : s.revokeMany u = some revoked) :
  s.tokens.rows.map RefreshToken.id <+: revoked.1.tokens.rows.map RefreshToken.id
  := by
  obtain ⟨-, rfl⟩ := revokeMany_eq_some hrevoked
  exact (ids_updateMany u s.tokens).symm ▸ List.prefix_refl _

/-- Rows stay where they are, and new ones come after them. -/
theorem Call.Takes.ids_prefix (h : c.Takes config crypto unicode s s' phase) :
  s.tokens.rows.map RefreshToken.id <+: s'.tokens.rows.map RefreshToken.id
  := by
  cases h with
  | commitsUser _ _ htokens | startsSession _ _ htokens => exact ids_create htokens
  | commits _ htokens => exact ids_updateMany _ s.tokens ▸ ids_create htokens
  | createsSession _ hissued | inserts _ hissued =>
      obtain ⟨-, -, -, hstate⟩ := issueRefreshToken_eq_some hissued
      rw [hstate]
  | expires _ hrevoked | suspends _ hrevoked | revokesFamily _ hrevoked | endsSession _ hrevoked =>
      exact ids_revokeMany hrevoked
  | _ => exact List.prefix_refl _

theorem Call.Takes.seesFirst (h : c.Takes config crypto unicode s s' phase) :
  phase.SeesFirst (s'.tokens.rows.map RefreshToken.id)
  := by
  cases h with
  | startsReuse => exact List.prefix_refl _
  | _ => trivial

/-- What holds of every state of a run. -/
structure Surveyed (crypto : Crypto) (unicode : Unicode) (s : State) : Prop where
  sound : Sound crypto unicode s
  seesFirst : ∀ c ∈ s.calls.rows, c.phase.SeesFirst (s.tokens.rows.map RefreshToken.id)

theorem Surveyed.step {label : Label} (h : Surveyed crypto unicode s)
    (hstep : (system config crypto unicode).step s label = some s') :
  Surveyed crypto unicode s'
  := by
  have hsteps := steps_of_step hstep
  have hids : s.tokens.rows.map RefreshToken.id <+: s'.tokens.rows.map RefreshToken.id := by
    cases hsteps with
    | tick | calls | setStatus => exact List.prefix_refl _
    | takes _ htakes => exact htakes.ids_prefix
  refine ⟨h.sound.step hstep, ?_⟩
  apply hsteps.forall_calls (P := fun s c => c.phase.SeesFirst (s.tokens.rows.map RefreshToken.id))
    h.seesFirst
  · exact fun c _ hsees => hsees.mono hids
  · intro c _ hstart
    rw [hstart]
    cases c.operation <;> trivial
  · rintro c _ t phase htakes rfl -
    exact htakes.seesFirst

/-- A step of a call is what it does to the sessions. -/
theorem Call.Takes.sessions (h : c.Takes config crypto unicode s s' phase)
    (hsurveyed : Surveyed crypto unicode s) (hc : c ∈ s.calls.rows) :
  match c.phase.sessionStep s'.inserted phase with
  | none => s'.sessions = s.sessions
  | some label => SessionRegistry.step s.sessions label = some s'.sessions
  := by
  have hsound := hsurveyed.sound
  cases h with
  | commitsUser hphase husers htokens =>
      rw [hphase]
      obtain ⟨-, hlive⟩ := hsound.invariant.stored.pending c hc _ (by rw [hphase]; rfl)
      exact sessions_create htokens hlive
  | @startsSession user id token issued tokens hphase hissued htokens =>
      obtain ⟨-, hlive, -, hstate⟩ := issueRefreshToken_eq_some hissued
      have hstep : Phase.sessionStep issued.1.inserted (.startingSession user)
          (.returned (.ok (.session (buildTokenPair config user.id token) (toPublicUser user))))
          = some (.signIn issued.2.userId issued.2.id) := by
        simp [Phase.sessionStep, hstate]
      change match c.phase.sessionStep issued.1.inserted _ with | none => _ | some label => _
      rw [hphase, hstep]
      exact sessions_create htokens hlive
  | commits hphase htokens =>
      rw [hphase]
      have hknows := hsound.invariant.knows c hc
      obtain ⟨row, hrow, howner⟩ := find_of_existing hsound hc (by rw [hphase]; rfl)
      obtain ⟨row', hrow', hlive⟩ := hsound.invariant.locking.live c hc _ (by rw [hphase]; rfl)
      obtain rfl := Option.some.inj (hrow.symm.trans hrow')
      obtain ⟨-, hnew⟩ := hsound.invariant.stored.pending c hc _ (by rw [hphase]; rfl)
      apply sessions_commit htokens hrow hlive hnew
      rw [howner, hknows.committing _ _ _ _ hphase]
  | expires hphase hrevoked | suspends hphase hrevoked | endsSession hphase hrevoked =>
      rw [hphase]
      exact sessions_revokeOne hrevoked
  | revokesFamily hphase hrevoked =>
      have hsees := hsurveyed.seesFirst c hc
      rw [hphase] at hsees ⊢
      exact sessions_revokeAll hrevoked hsees
  | duplicate hphase =>
      rcases hphase with hphase | hphase <;> rw [hphase] <;> rfl
  | refuses hphase | unknownToken hphase | leavesAlone hphase =>
      rw [hphase]
      rfl
  | createsSession _ hissued | inserts _ hissued =>
      obtain ⟨-, -, -, hstate⟩ := issueRefreshToken_eq_some hissued
      rw [Phase.sessionStep_eq_none, hstate]
      · rfl
      · rintro _ ⟨⟩
  | _ =>
      rw [Phase.sessionStep_eq_none]
      rintro _ ⟨⟩

/-- A call that has returned takes no step. -/
theorem Call.Takes.not_returned (h : c.Takes config crypto unicode s s' phase)
    (result : Except AppException Result) :
  c.phase ≠ .returned result
  := by
  cases h with
  | throws hphase => exact hphase result
  | duplicate hphase =>
      rcases hphase with hphase | hphase <;> rw [hphase] <;> rintro ⟨⟩
  | _ hphase =>
      rw [hphase]
      rintro ⟨⟩

/-- What a transition of a call does to the sessions. -/
theorem sessionStep_takes {action : Action} (hfind : s.calls.find c.id = some c) :
  sessionStep ⟨s, .step c.id action, { s' with calls := s.calls.put { c with phase } }⟩
    = c.phase.sessionStep s'.inserted phase
  := by
  have hafter : (s.calls.put { c with phase }).find c.id = some { c with phase } := by
    rw [Table.find_put]
    simp
  simp [sessionStep, hfind, hafter]

/-- A step of the system is what it does to the sessions. -/
theorem Steps.sessions {label : Label} (h : Steps config crypto unicode s label s')
    (hsurveyed : Surveyed crypto unicode s) :
  match sessionStep ⟨s, label, s'⟩ with
  | none => s'.sessions = s.sessions
  | some label => SessionRegistry.step s.sessions label = some s'.sessions
  := by
  cases h with
  | tick | calls | setStatus => rfl
  | takes hfind htakes =>
      rw [sessionStep_takes hfind]
      exact htakes.sessions hsurveyed (Table.mem_of_find hfind)

end

/-! ### The calls follow the registry -/

/-- The calls of authentication follow the registry. -/
def registrySimulation (config : AuthConfig) (crypto : Crypto) (unicode : Unicode) :
    TransitionSystem.Simulation (system config crypto unicode) SessionRegistry.system where
  view := State.sessions
  action := sessionStep
  invariant := Surveyed crypto unicode
  start s h := by
    refine ⟨⟨sound_init h, ?_⟩, ?_⟩
    · rw [h.2.1]
      exact List.forall_mem_nil _
    · rw [State.sessions, h.1]
      rfl
  keeps _ hstep h := h.step hstep
  follows t hstep h := by
    obtain ⟨source, label, target⟩ := t
    have hsessions := (steps_of_step hstep).sessions h
    cases haction : sessionStep ⟨source, label, target⟩ with
    | none =>
        rw [haction] at hsessions
        exact hsessions
    | some action =>
        rw [haction] at hsessions
        exact hsessions

/-- Every run of the calls of authentication is a run of the registry: what it does to the sessions,
one transition after the other, leads from no sessions to those committed. -/
theorem sessions_follow_registry {s₀ s : State} {ts : List (Transition State Label)}
    (hrun : (system config crypto unicode).Run s₀ ts s)
    (hinit : (system config crypto unicode).init s₀) :
  ∃ us, SessionRegistry.system.Run [] us s.sessions
    ∧ us.map Transition.label = ts.filterMap sessionStep
  := by
  obtain ⟨hview, us, hus, hlabels⟩ :=
    (registrySimulation config crypto unicode).run_of_init hrun hinit
  exact ⟨us, hview ▸ hus, hlabels⟩

/-- The registration and the rotation of the first token are a sign-in and an exchange, after which
the alarm closes both sessions. -/
theorem sessions_follow_registry_of_twoPresentations :
  ∃ ts s, (system sampleConfig sampleCrypto asciiUnicode).Run sampleState ts s
    ∧ s.sessions = [⟨1, 7, false⟩, ⟨2, 7, false⟩]
    ∧ ∃ us, SessionRegistry.system.Run [] us s.sessions
      ∧ us.map Transition.label = ts.filterMap sessionStep
  := by
  have hsome : ((system sampleConfig sampleCrypto asciiUnicode).execute (fun _ => true) sampleState
      twoPresentations).any (fun s =>
        decide (s.sessions = [⟨1, 7, false⟩, ⟨2, 7, false⟩])) = true := by
    decide +kernel
  obtain ⟨s, hs, hend⟩ := (Option.any_eq_true _ _).mp hsome
  obtain ⟨ts, hrun, -⟩ := TransitionSystem.run_of_execute hs
  refine ⟨ts, s, hrun, of_decide_eq_true hend, ?_⟩
  apply sessions_follow_registry hrun ⟨rfl, rfl, rfl, rfl, rfl⟩

/-! ### Sign-ins -/

/-- The call has signed the user in. -/
def Phase.signedIn (userId : ℕ) : Phase → Bool
  | .returned (.ok (.session tokens _)) => tokens.sub = userId
  | _ => false

section

variable {s s' : State} {c : Call} {phase : Phase}

/-- A step of a call that is a sign-in of a user has signed the user in. -/
theorem Call.Takes.signedIn (h : c.Takes config crypto unicode s s' phase)
    (hvouched : Vouched crypto unicode s c.operation c.phase) {userId : ℕ}
    (hsigns : (c.phase.sessionStep s'.inserted phase).any (SessionRegistry.Label.signsIn userId)
      = true) :
  phase.signedIn userId = true
  := by
  cases h with
  | commitsUser hphase =>
      rw [hphase] at hsigns hvouched
      obtain ⟨-, huser⟩ := hvouched
      have howner := of_decide_eq_true hsigns
      exact decide_eq_true (huser.symm.trans howner)
  | @startsSession user id token issued tokens hphase hissued htokens =>
      obtain ⟨-, -, huser, hstate⟩ := issueRefreshToken_eq_some hissued
      change ((Phase.sessionStep issued.1.inserted c.phase _).any _) = true at hsigns
      rw [hphase] at hsigns
      have howner : issued.2.userId = userId := by
        simpa [Phase.sessionStep, hstate, SessionRegistry.Label.signsIn] using hsigns
      exact decide_eq_true (huser.symm.trans howner)
  | duplicate hphase =>
      rcases hphase with hphase | hphase <;> rw [hphase] at hsigns <;> cases hsigns
  | refuses hphase | unknownToken hphase | leavesAlone hphase | commits hphase | expires hphase
  | suspends hphase | endsSession hphase | revokesFamily hphase =>
      rw [hphase] at hsigns
      cases hsigns
  | _ =>
      rw [Phase.sessionStep_eq_none] at hsigns
      · cases hsigns
      · rintro _ ⟨⟩

/-- A sign-in of a user adds to the calls that have signed the user in. -/
theorem Steps.signedIn {label : Label} (h : Steps config crypto unicode s label s')
    (hsound : Sound crypto unicode s) (userId : ℕ) :
  (if (sessionStep ⟨s, label, s'⟩).any (SessionRegistry.Label.signsIn userId) = true then 1 else 0)
      + s.calls.rows.countP (fun c => c.phase.signedIn userId)
    ≤ s'.calls.rows.countP (fun c => c.phase.signedIn userId)
  := by
  cases h with
  | tick | setStatus => simp [sessionStep]
  | calls hcreate => simp [sessionStep, Table.rows_of_create hcreate]
  | @takes c action t phase hfind htakes =>
      have hput := Table.countP_put { c with phase } hfind fun c => c.phase.signedIn userId
      have hbefore : c.phase.signedIn userId = false := by
        unfold Phase.signedIn
        split
        · rename_i hphase
          exact absurd hphase (htakes.not_returned _)
        · rfl
      have hsigns : _ → phase.signedIn userId = true :=
        htakes.signedIn (hsound.vouched c (Table.mem_of_find hfind))
      rw [sessionStep_takes hfind]
      simp only [hbefore, Bool.false_eq_true, if_false] at hput
      change _ ≤ (s.calls.put { c with phase }).rows.countP _
      split
      · rename_i hany
        rw [if_pos (hsigns hany)] at hput
        omega
      · have hnonneg : 0 ≤ if phase.signedIn userId = true then 1 else 0 := Nat.zero_le _
        omega

end

/-- A user never has more sessions that are not revoked than calls that have signed it in: a refresh
does not multiply sessions. -/
theorem open_sessions_le_sign_ins {s₀ s : State} {ts : List (Transition State Label)}
    (hrun : (system config crypto unicode).Run s₀ ts s)
    (hinit : (system config crypto unicode).init s₀) (userId : ℕ) :
  s.tokens.rows.countP (fun row => row.userId = userId && row.revokedAt.isNone)
    ≤ s.calls.rows.countP (fun c => c.phase.signedIn userId)
  := by
  obtain ⟨hsound, -⟩ := sound_of_run hrun hinit
  obtain ⟨-, us, hus, hlabels⟩ := (registrySimulation config crypto unicode).run_of_init hrun hinit
  change us.map Transition.label = ts.filterMap sessionStep at hlabels
  have hsigns : ts.countP (fun t => (sessionStep t).any (SessionRegistry.Label.signsIn userId))
      + s₀.calls.rows.countP (fun c => c.phase.signedIn userId)
        ≤ s.calls.rows.countP fun c => c.phase.signedIn userId :=
    hrun.countP_add_le (fun s => s.calls.rows.countP fun c => c.phase.signedIn userId) fun t ht =>
      (steps_of_step (hrun.step_of_mem ht)).signedIn (hsound t ht) userId
  calc s.tokens.rows.countP (fun row => row.userId = userId && row.revokedAt.isNone)
      = SessionRegistry.openSessions userId s.sessions := by
        rw [SessionRegistry.openSessions, State.sessions, List.countP_map]
        rfl
    _ ≤ SessionRegistry.openSessions userId s₀.sessions
        + (us.map Transition.label).countP (SessionRegistry.Label.signsIn userId) :=
        SessionRegistry.openSessions_run hus userId
    _ = ts.countP fun t => (sessionStep t).any (SessionRegistry.Label.signsIn userId) := by
        rw [hlabels, List.countP_filterMap, State.sessions, hinit.1, List.map_nil,
          SessionRegistry.openSessions, List.countP_nil, Nat.zero_add]
        apply List.countP_congr
        intro t _
        cases sessionStep t <;> simp
    _ ≤ s.calls.rows.countP (fun c => c.phase.signedIn userId) := by
        omega

/-- After a registration and a rotation there is one open session, and one sign-in. -/
theorem open_sessions_le_sign_ins_of_rotation :
  ∃ ts s, (system sampleConfig sampleCrypto asciiUnicode).Run sampleState ts s
    ∧ s.tokens.rows.countP (fun row => row.userId = 7 && row.revokedAt.isNone) = 1
    ∧ s.tokens.rows.countP (fun row => row.userId = 7 && row.revokedAt.isNone)
      ≤ s.calls.rows.countP (fun c => c.phase.signedIn 7)
  := by
  have hsome : ((system sampleConfig sampleCrypto asciiUnicode).execute (fun _ => true) sampleState
      (registration ++ presentation 2 (sampleToken 0x41) ++ rotation 2 2 (sampleToken 0x42))).any
      (fun s => decide
        (s.tokens.rows.countP (fun row => row.userId = 7 && row.revokedAt.isNone) = 1)) = true := by
    decide +kernel
  obtain ⟨s, hs, hend⟩ := (Option.any_eq_true _ _).mp hsome
  obtain ⟨ts, hrun, -⟩ := TransitionSystem.run_of_execute hs
  refine ⟨ts, s, hrun, of_decide_eq_true hend, ?_⟩
  apply open_sessions_le_sign_ins hrun ⟨rfl, rfl, rfl, rfl, rfl⟩

end AuthService

end DocuAI

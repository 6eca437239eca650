import Mathlib.Algebra.BigOperators.Group.List.Basic
import Mathlib.Algebra.GroupWithZero.Nat
import DocuAI.Auth.Logout
import DocuAI.Auth.Replies

/-!
# The security log

What the log of security events says about the sessions.  Each statement of a call comes with at most
one event, and the event says what the statement has done: `Reports`.  So the events name the
sessions in the order they were opened, every session that one of them says has ended has ended, and
the sessions of a user that have ended are those they count, but for tokens that were rejected.

The log has the events whose replies have arrived.  It names no session twice, and what it does not
say is said by the events that are still to be recorded, or lost.
-/

namespace DocuAI

namespace AuthService

variable {config : AuthConfig} {crypto : Crypto} {unicode : Unicode}

/-! ### What an event says -/

/-- The user and the id of the session an event says was opened. -/
def SecurityEvent.opened : SecurityEvent → Option (ℕ × ℕ)
  | .REGISTER_SUCCESS userId sessionId | .LOGIN_SUCCESS userId sessionId
  | .REFRESH_TOKEN_ROTATED userId sessionId _ => some (userId, sessionId)
  | _ => none

/-- The session an event says was replaced by another. -/
def SecurityEvent.replaced : SecurityEvent → Option ℕ
  | .REFRESH_TOKEN_ROTATED _ _ previousSessionId => some previousSessionId
  | _ => none

/-- The user and the id of the session an event says is over. -/
def SecurityEvent.ended : SecurityEvent → Option (ℕ × ℕ)
  | .REFRESH_TOKEN_ROTATED userId _ previousSessionId => some (userId, previousSessionId)
  | .REFRESH_TOKEN_REJECTED (some userId) (some sessionId) _
  | .REFRESH_TOKEN_REUSE_DETECTED userId sessionId _ | .LOGOUT userId (some sessionId) _ =>
      some (userId, sessionId)
  | _ => none

/-- The number of sessions of a user that an event says were ended by it. -/
def SecurityEvent.ends (userId : ℕ) : SecurityEvent → ℕ
  | .REFRESH_TOKEN_ROTATED user _ _ => if user = userId then 1 else 0
  | .REFRESH_TOKEN_REUSE_DETECTED user _ revokedSessions =>
      if user = userId then revokedSessions else 0
  | .LOGOUT user (some _) reason => if user = userId ∧ reason = js "revoked" then 1 else 0
  | _ => 0

/-- A token of the user was rejected, because it had expired or the account was not ACTIVE.  The
event does not say whether its session was ended by that. -/
def SecurityEvent.rejects (userId : ℕ) : SecurityEvent → Bool
  | .REFRESH_TOKEN_REJECTED (some user) _ _ => user = userId
  | _ => false

/-- The number of sessions of a user that have ended. -/
def endedSessions (userId : ℕ) (rows : List RefreshToken) : ℕ :=
  rows.countP fun row => row.userId = userId && row.revokedAt.isSome

theorem endedSessions_append (userId : ℕ) {rows : List RefreshToken} {row : RefreshToken}
    (hlive : row.revokedAt = none) :
  endedSessions userId (rows ++ [row]) = endedSessions userId rows
  := by
  simp [endedSessions, List.countP_append, hlive]

theorem userId_apply_revoke {selects : RefreshToken → Bool} {revokedAt : ℕ} (row : RefreshToken) :
  ((revoke selects revokedAt).apply row).userId = row.userId
  := by
  unfold Update.apply
  split <;> rfl

/-- An update that revokes tokens of one user ends as many of its sessions as it counts. -/
theorem endedSessions_revoke {rows : List RefreshToken} {selects : RefreshToken → Bool}
    {revokedAt user : ℕ}
    (howner : ∀ row ∈ rows, (revoke selects revokedAt).guard row = true → row.userId = user)
    (userId : ℕ) :
  endedSessions userId (rows.map (revoke selects revokedAt).apply)
    = endedSessions userId rows
      + if user = userId then rows.countP (revoke selects revokedAt).guard else 0
  := by
  induction rows with
  | nil => simp [endedSessions]
  | cons row rows ih =>
      have hrest := ih fun row' hrow' => howner row' (List.mem_cons_of_mem row hrow')
      unfold endedSessions at hrest ⊢
      rw [List.map_cons, List.countP_cons, List.countP_cons, hrest, List.countP_cons]
      cases hguard : (revoke selects revokedAt).guard row with
      | false =>
          rw [Update.apply_of_not_guard _ hguard]
          simp only [Bool.false_eq_true, if_false]
          split <;> omega
      | true =>
          have huser := howner row List.mem_cons_self hguard
          have hlive : row.revokedAt.isNone = true := by
            simp only [revoke, Bool.and_eq_true] at hguard
            exact hguard.2
          rw [Update.apply_of_guard _ hguard]
          simp only [revoke, huser, Option.isNone_iff_eq_none.mp hlive, Option.isSome_some,
            Option.isSome_none, Bool.and_true, Bool.and_false, decide_eq_true_eq, if_true,
            Bool.false_eq_true, if_false]
          split <;> omega

/-! ### What a statement records -/

/-- The session is one of the user, and has ended. -/
def HasEnded (s : State) (userId sessionId : ℕ) : Prop :=
  ∃ row, s.tokens.find sessionId = some row ∧ row.userId = userId ∧ row.revokedAt ≠ none

theorem HasEnded.mono {s s' : State} {userId sessionId : ℕ} (h : HasEnded s userId sessionId)
    (hrows : ∀ id row, s.tokens.find id = some row →
      ∃ row', s'.tokens.find id = some row' ∧ Continues row row') :
  HasEnded s' userId sessionId
  := by
  obtain ⟨row, hrow, huser, hrevoked⟩ := h
  obtain ⟨row', hrow', hcontinues⟩ := hrows _ row hrow
  exact ⟨row', hrow', hcontinues.userId.trans huser, hcontinues.revokedAt hrevoked ▸ hrevoked⟩

/-- The event is recorded, and says what happened to the sessions. -/
structure Reports (s : State) (event : SecurityEvent) (s' : State) : Prop where
  events : s'.events = s.events ++ [event]
  opened : s'.tokens.rows.map (fun row => (row.userId, row.id))
    = s.tokens.rows.map (fun row => (row.userId, row.id)) ++ event.opened.toList
  replaced : s'.rotations.map Rotation.token
    = s.rotations.map Rotation.token ++ event.replaced.toList
  ended : ∀ userId sessionId, event.ended = some (userId, sessionId) → HasEnded s' userId sessionId
  counted : ∀ userId,
    endedSessions userId s.tokens.rows + event.ends userId ≤ endedSessions userId s'.tokens.rows
    ∧ endedSessions userId s'.tokens.rows ≤ endedSessions userId s.tokens.rows + event.ends userId
      + if event.rejects userId = true then 1 else 0

section

variable {s s' : State} {event : SecurityEvent}

/-- An event that is not about a session. -/
theorem Reports.other (hopened : event.opened = none) (hreplaced : event.replaced = none)
    (hended : event.ended = none) (hends : ∀ userId, event.ends userId = 0) :
  Reports s event (s.record event)
  := by
  refine ⟨rfl, ?_, ?_, ?_, fun userId => ?_⟩
  · rw [hopened, Option.toList_none, List.append_nil]
    rfl
  · rw [hreplaced, Option.toList_none, List.append_nil]
    rfl
  · rw [hended]
    nofun
  · rw [hends userId, Nat.add_zero]
    exact ⟨Nat.le_refl _, Nat.le_add_right _ _⟩

/-- A session is opened. -/
theorem Reports.opens {row : RefreshToken} {tokens : Table RefreshToken.id}
    (hcreate : s.tokens.create row = some tokens) (hlive : row.revokedAt = none)
    (hevents : s'.events = s.events ++ [event]) (htokens : s'.tokens = tokens)
    (hrotations : s'.rotations = s.rotations) (hopened : event.opened = some (row.userId, row.id))
    (hreplaced : event.replaced = none) (hended : event.ended = none)
    (hends : ∀ userId, event.ends userId = 0) :
  Reports s event s'
  := by
  have hrows : s'.tokens.rows = s.tokens.rows ++ [row] := htokens ▸ Table.rows_of_create hcreate
  refine ⟨hevents, ?_, ?_, ?_, fun userId => ?_⟩
  · rw [hrows, hopened, List.map_append]
    rfl
  · rw [hrotations, hreplaced, Option.toList_none, List.append_nil]
  · rw [hended]
    nofun
  · rw [hrows, endedSessions_append userId hlive, hends userId, Nat.add_zero]
    exact ⟨Nat.le_refl _, Nat.le_add_right _ _⟩

/-- Tokens of one user are revoked. -/
theorem Reports.revokes {selects : RefreshToken → Bool} {revokedAt user : ℕ} {revoked : State × ℕ}
    (hrevoked : s.revokeMany (revoke selects revokedAt) = some revoked)
    (howner : ∀ row ∈ s.tokens.rows, (revoke selects revokedAt).guard row = true →
      row.userId = user)
    (hopened : event.opened = none) (hreplaced : event.replaced = none)
    (hended : ∀ userId sessionId, event.ended = some (userId, sessionId) →
      HasEnded revoked.1 userId sessionId)
    (hcounted : ∀ userId, event.ends userId ≤ (if user = userId then revoked.2 else 0)
      ∧ (if user = userId then revoked.2 else 0)
        ≤ event.ends userId + if event.rejects userId = true then 1 else 0) :
  Reports s event (revoked.1.record event)
  := by
  obtain ⟨-, rfl⟩ := revokeMany_eq_some hrevoked
  refine ⟨rfl, ?_, ?_, hended, fun userId => ?_⟩
  · rw [hopened, Option.toList_none, List.append_nil]
    change (s.tokens.rows.map (revoke selects revokedAt).apply).map _ = _
    rw [List.map_map]
    apply List.map_congr_left
    intro row _
    exact Prod.ext (userId_apply_revoke row) ((revoke selects revokedAt).key_apply row)
  · rw [hreplaced, Option.toList_none, List.append_nil]
    rfl
  · have hsum := endedSessions_revoke howner userId
    have hcount := hcounted userId
    change _ ≤ endedSessions userId (s.tokens.rows.map _)
      ∧ endedSessions userId (s.tokens.rows.map _) ≤ _
    rw [hsum]
    generalize hn : (if user = userId then s.tokens.rows.countP (revoke selects revokedAt).guard
      else 0) = n
    change event.ends userId ≤ (if user = userId then s.tokens.rows.countP _ else 0)
      ∧ (if user = userId then s.tokens.rows.countP _ else 0) ≤ _ at hcount
    rw [hn] at hcount
    constructor <;> omega

/-- A session that has ended is left alone. -/
theorem HasEnded.of_revokeMany {selects : RefreshToken → Bool} {revokedAt userId sessionId : ℕ}
    {revoked : State × ℕ} (h : HasEnded s userId sessionId)
    (hrevoked : s.revokeMany (revoke selects revokedAt) = some revoked) :
  HasEnded revoked.1 userId sessionId
  := by
  obtain ⟨row, hrow, huser, hends⟩ := h
  obtain ⟨-, rfl⟩ := revokeMany_eq_some hrevoked
  refine ⟨row, ?_, huser, hends⟩
  change (s.tokens.updateMany _).1.find sessionId = _
  rw [Table.find_updateMany, hrow, Option.map_some, Update.apply_of_not_guard]
  simp [revoke, Option.isSome_iff_ne_none, hends]

/-- The update of one row ends the session of the user. -/
theorem hasEnded_of_revokeMany {id revokedAt : ℕ} {row : RefreshToken} {revoked : State × ℕ}
    (hrow : s.tokens.find id = some row)
    (hrevoked : s.revokeMany (revokeOne id revokedAt) = some revoked) :
  HasEnded revoked.1 row.userId id
  := by
  obtain ⟨row', hrow', hends⟩ := revoked_of_revokeMany hrevoked hrow
  refine ⟨row', hrow', ?_, hends⟩
  obtain ⟨-, rfl⟩ := revokeMany_eq_some hrevoked
  change (s.tokens.updateMany _).1.find id = _ at hrow'
  rw [Table.find_updateMany, hrow, Option.map_some] at hrow'
  rw [← Option.some.inj hrow']
  apply userId_apply_revoke

/-- One token is revoked, if it was not. -/
theorem Reports.revokesOne {id revokedAt : ℕ} {row : RefreshToken} {revoked : State × ℕ}
    (hrow : s.tokens.find id = some row)
    (hrevoked : s.revokeMany (revokeOne id revokedAt) = some revoked)
    (hopened : event.opened = none) (hreplaced : event.replaced = none)
    (hended : ∀ userId sessionId, event.ended = some (userId, sessionId) →
      userId = row.userId ∧ sessionId = id)
    (hcounted : ∀ userId, revoked.2 ≤ 1 →
      event.ends userId ≤ (if row.userId = userId then revoked.2 else 0)
      ∧ (if row.userId = userId then revoked.2 else 0)
        ≤ event.ends userId + if event.rejects userId = true then 1 else 0) :
  Reports s event (revoked.1.record event)
  := by
  have hguard : ∀ r, (revokeOne id revokedAt).guard r = true → r.id = id := by
    intro r h
    simp only [revokeOne, revoke, Bool.and_eq_true, decide_eq_true_eq] at h
    exact h.1
  have hcount : revoked.2 ≤ 1 := by
    obtain ⟨-, rfl⟩ := revokeMany_eq_some hrevoked
    apply Table.count_le_one hguard
  apply Reports.revokes hrevoked _ hopened hreplaced _ fun userId => hcounted userId hcount
  · intro r hr hadmits
    have hfind := Table.mem_rows_iff.mp hr
    rw [hguard r hadmits, hrow] at hfind
    rw [Option.some.inj hfind]
  · intro userId sessionId h
    obtain ⟨rfl, rfl⟩ := hended userId sessionId h
    apply hasEnded_of_revokeMany hrow hrevoked

/-- The commit of a rotation updates the row it has locked like the update that revokes one token. -/
theorem rows_publishRevoked {id revokedAt : ℕ} {row : RefreshToken}
    (hrow : s.tokens.find id = some row) (hlive : row.revokedAt = none) :
  (s.tokens.updateMany (publishRevoked id revokedAt)).1.rows
    = s.tokens.rows.map (revokeOne id revokedAt).apply
  := by
  rw [Table.rows_updateMany]
  apply List.map_congr_left
  intro r hr
  by_cases hid : r.id = id
  · have hfind := Table.mem_rows_iff.mp hr
    rw [hid, hrow] at hfind
    obtain rfl := Option.some.inj hfind
    rw [Update.apply_of_guard _ (by simp [publishRevoked, hid]),
      Update.apply_of_guard _ (by simp [revokeOne, revoke, hid, hlive])]
    rfl
  · rw [Update.apply_of_not_guard _ (by simp [publishRevoked, hid]),
      Update.apply_of_not_guard _ (by simp [revokeOne, revoke, hid])]

/-- A session is replaced by another of its user. -/
theorem Reports.rotates {existing row r : RefreshToken} {revokedAt callId : ℕ}
    {tokens : Table RefreshToken.id}
    (hfind : s.tokens.find existing.id = some r) (hlive : r.revokedAt = none)
    (huser : r.userId = existing.userId) (hrow : row.revokedAt = none)
    (howner : row.userId = existing.userId)
    (hcreate : (s.tokens.updateMany (publishRevoked existing.id revokedAt)).1.create row
      = some tokens) :
  Reports s (.REFRESH_TOKEN_ROTATED existing.userId row.id existing.id)
    (State.record
      { s with
        tokens
        rotations := s.rotations
          ++ [{ callId, token := existing.id, successor := row.id }] }
      (.REFRESH_TOKEN_ROTATED existing.userId row.id existing.id))
  := by
  have hrows : tokens.rows = s.tokens.rows.map (revokeOne existing.id revokedAt).apply ++ [row] := by
    rw [Table.rows_of_create hcreate, rows_publishRevoked hfind hlive]
  refine ⟨rfl, ?_, ?_, ?_, fun userId => ?_⟩
  · change tokens.rows.map _ = _ ++ [(existing.userId, row.id)]
    rw [hrows, List.map_append, List.map_map, ← howner]
    congr 1
    apply List.map_congr_left
    intro r _
    exact Prod.ext (userId_apply_revoke r) ((revokeOne existing.id revokedAt).key_apply r)
  · change (s.rotations ++ [_]).map Rotation.token = _
    rw [List.map_append]
    rfl
  · rintro user sessionId h
    obtain ⟨rfl, rfl⟩ := Prod.mk.inj (Option.some.inj h)
    exact ⟨_, (find_of_commit hcreate hfind).2, huser, Option.some_ne_none _⟩
  · have hone : s.tokens.rows.countP (revokeOne existing.id revokedAt).guard = 1 :=
      revokeOne_count.mpr ⟨r, hfind, hlive⟩
    have howner' : ∀ r' ∈ s.tokens.rows, (revokeOne existing.id revokedAt).guard r' = true →
        r'.userId = existing.userId := by
      intro r' hr' hguard
      simp only [revokeOne, revoke, Bool.and_eq_true, decide_eq_true_eq] at hguard
      have hfind' := Table.mem_rows_iff.mp hr'
      rw [hguard.1, hfind] at hfind'
      rw [← Option.some.inj hfind', huser]
    have hsum := endedSessions_revoke howner' userId
    change _ + (if existing.userId = userId then 1 else 0) ≤ endedSessions userId tokens.rows
      ∧ endedSessions userId tokens.rows ≤ _ + (if existing.userId = userId then 1 else 0) + _
    rw [hrows, endedSessions_append userId hrow]
    change endedSessions userId (s.tokens.rows.map (revokeOne existing.id revokedAt).apply)
      = _ + if existing.userId = userId then
        s.tokens.rows.countP (revokeOne existing.id revokedAt).guard else 0 at hsum
    rw [hsum, hone]
    exact ⟨Nat.le_refl _, Nat.le_add_right _ _⟩

/-! ### The statements of the calls -/

/-- The user a `refresh` has looked up is that of the token. -/
def Phase.Joined : Phase → Prop
  | .checking existing user | .suspending existing user _ => user.id = existing.userId
  | _ => True

theorem Call.Takes.joined {c : Call} {phase : Phase} (h : c.Takes config crypto unicode s s' phase)
    (hjoined : c.phase.Joined) :
  phase.Joined
  := by
  cases h with
  | joins _ hfind => exact Table.key_of_find hfind
  | findsInactive hphase => exact (hphase ▸ hjoined :)
  | _ => trivial

/-- A statement records nothing and leaves the sessions, or it records an event that says what it has
done. -/
theorem Call.Takes.reports {c : Call} {phase : Phase}
    (h : c.Takes config crypto unicode s s' phase) (hc : c ∈ s.calls.rows)
    (hsound : Sound crypto unicode s) (hjoined : c.phase.Joined) :
  (s'.events = s.events ∧ s'.tokens = s.tokens ∧ s'.rotations = s.rotations)
  ∨ ∃ event, Reports s event s'
  := by
  have hrefers {existing : RefreshToken} (hexisting : c.phase.existing = some existing) :=
    (hsound.invariant.knows c hc).existing existing hexisting
  cases h with
  | duplicate | refuses | unknownToken | leavesAlone =>
      exact .inr ⟨_, Reports.other rfl rfl rfl fun _ => rfl⟩
  | createsSession _ hissued | inserts _ hissued =>
      obtain ⟨-, -, -, hstate⟩ := issueRefreshToken_eq_some hissued
      rw [hstate]
      exact .inl ⟨rfl, rfl, rfl⟩
  | commitsUser hphase _ htokens =>
      have hvouched := hsound.vouched c hc
      rw [hphase] at hvouched
      obtain ⟨-, hlive⟩ := hsound.invariant.stored.pending c hc _ (by rw [hphase]; rfl)
      refine .inr ⟨_, Reports.opens htokens hlive rfl rfl rfl ?_ rfl rfl fun _ => rfl⟩
      rw [hvouched.2]
      rfl
  | @startsSession user _ _ issued _ _ hissued htokens =>
      obtain ⟨-, hlive, huser, hstate⟩ := issueRefreshToken_eq_some hissued
      refine .inr ⟨.LOGIN_SUCCESS user.id issued.2.id, Reports.opens htokens hlive ?_ rfl ?_ ?_ rfl rfl fun _ => rfl⟩
      · rw [State.record, hstate]
      · rw [State.record, hstate]
      · rw [huser]
        rfl
  | @expires existing revokedAt revoked hphase hrevoked =>
      obtain ⟨-, row, -, hrow, -, huser, -⟩ := hrefers (by rw [hphase]; rfl)
      refine .inr ⟨_, Reports.revokesOne hrow hrevoked rfl rfl ?_ fun userId hcount => ?_⟩
      · rintro userId sessionId h
        obtain ⟨rfl, rfl⟩ := Prod.mk.inj (Option.some.inj h)
        exact ⟨huser.symm, rfl⟩
      · simp only [SecurityEvent.ends, SecurityEvent.rejects, decide_eq_true_eq, huser]
        split <;> omega
  | @suspends existing user revokedAt revoked hphase hrevoked =>
      obtain ⟨-, row, -, hrow, -, huser, -⟩ := hrefers (by rw [hphase]; rfl)
      rw [hphase] at hjoined
      have hid : user.id = existing.userId := hjoined
      refine .inr ⟨_, Reports.revokesOne hrow hrevoked rfl rfl nofun fun userId hcount => ?_⟩
      simp only [SecurityEvent.ends, SecurityEvent.rejects, decide_eq_true_eq, huser, hid]
      split <;> omega
  | @commits existing row revokedAt token tokens hphase htokens =>
      obtain ⟨r, hfind, hlive⟩ := hsound.invariant.locking.live c hc existing.id (by rw [hphase]; rfl)
      obtain ⟨-, r', -, hfind', -, huser, -⟩ := hrefers (by rw [hphase]; rfl)
      obtain rfl := Option.some.inj (hfind.symm.trans hfind')
      obtain ⟨-, hrow⟩ := hsound.invariant.stored.pending c hc row (by rw [hphase]; rfl)
      have howner := (hsound.invariant.knows c hc).committing _ _ _ _ hphase
      exact .inr ⟨_, Reports.rotates hfind hlive huser hrow howner htokens⟩
  | @revokesFamily token revokedAt visible revoked hphase hrevoked =>
      obtain ⟨-, row, -, hrow, -, huser, -, hreused⟩ := hrefers (by rw [hphase]; rfl)
      have howner : ∀ r ∈ s.tokens.rows, (revokeAll visible token.userId revokedAt).guard r = true →
          r.userId = token.userId := by
        intro r _ hguard
        simp only [revokeAll, revoke, Bool.and_eq_true, decide_eq_true_eq] at hguard
        exact hguard.1.1
      refine .inr ⟨_, Reports.revokes hrevoked howner rfl rfl ?_ fun userId => ?_⟩
      · rintro userId sessionId h
        obtain ⟨rfl, rfl⟩ := Prod.mk.inj (Option.some.inj h)
        apply HasEnded.of_revokeMany _ hrevoked
        exact ⟨row, hrow, huser, hreused (.inr (by rw [hphase]; rfl))⟩
      · exact ⟨Nat.le_refl _, Nat.le_add_right _ _⟩
  | @endsSession existing userId revokedAt revoked reason hphase hrevoked hreason =>
      have hvouched := hsound.vouched c hc
      rw [hphase] at hvouched
      obtain ⟨-, -, row, hrow, -, huser⟩ := hvouched
      refine .inr ⟨_, Reports.revokesOne hrow hrevoked rfl rfl ?_ fun user hcount => ?_⟩
      · rintro user sessionId h
        obtain ⟨rfl, rfl⟩ := Prod.mk.inj (Option.some.inj h)
        exact ⟨huser.symm, rfl⟩
      · have hdiffer : js "already_revoked" ≠ js "revoked" := by decide
        rw [hreason, huser]
        by_cases hone : revoked.2 = 1
        · simp [SecurityEvent.ends, hone]
        · have hnone : revoked.2 = 0 := by omega
          simp [SecurityEvent.ends, hnone, hdiffer]
  | _ => exact .inl ⟨rfl, rfl, rfl⟩

/-! ### Runs -/

/-- The log accounts for the sessions. -/
structure Audited (s : State) : Prop where
  opened : s.tokens.rows.map (fun row => (row.userId, row.id))
    = s.events.filterMap SecurityEvent.opened
  replaced : s.rotations.map Rotation.token = s.events.filterMap SecurityEvent.replaced
  ended : ∀ event ∈ s.events, ∀ userId sessionId, event.ended = some (userId, sessionId) →
    HasEnded s userId sessionId
  counted : ∀ userId,
    (s.events.map (SecurityEvent.ends userId)).sum ≤ endedSessions userId s.tokens.rows
    ∧ endedSessions userId s.tokens.rows ≤ (s.events.map (SecurityEvent.ends userId)).sum
      + s.events.countP (SecurityEvent.rejects userId)

/-- A statement that reports what it has done keeps the log and the sessions in step. -/
theorem Audited.reports (h : Audited s) (hreports : Reports s event s')
    (hrows : ∀ id row, s.tokens.find id = some row →
      ∃ row', s'.tokens.find id = some row' ∧ Continues row row') :
  Audited s'
  := by
  constructor
  · rw [hreports.opened, hreports.events, List.filterMap_append, h.opened]
    cases hevent : event.opened <;> simp [hevent]
  · rw [hreports.replaced, hreports.events, List.filterMap_append, h.replaced]
    cases hevent : event.replaced <;> simp [hevent]
  · intro event' hevent' userId sessionId hended
    rw [hreports.events, List.mem_append, List.mem_singleton] at hevent'
    rcases hevent' with hevent' | rfl
    · exact (h.ended event' hevent' userId sessionId hended).mono hrows
    · exact hreports.ended userId sessionId hended
  · intro userId
    have hbefore := h.counted userId
    have hcounted := hreports.counted userId
    rw [hreports.events, List.map_append, List.sum_append, List.countP_append, List.map_singleton,
      List.sum_singleton, List.countP_singleton]
    omega

/-- What holds of every state of a run: what the calls know, and that the log accounts for the
sessions. -/
structure Logged (crypto : Crypto) (unicode : Unicode) (s : State) : Prop where
  sound : Sound crypto unicode s
  joined : ∀ c ∈ s.calls.rows, c.phase.Joined
  audited : Audited s

theorem Logged.step {label : Label} (h : Logged crypto unicode s)
    (hstep : (system config crypto unicode).step s label = some s') :
  Logged crypto unicode s'
  := by
  have hmoves := moves_of_step hstep
  have hsteps := steps_of_step hstep
  have hrows : ∀ id row, s.tokens.find id = some row →
      ∃ row', s'.tokens.find id = some row' ∧ Continues row row' := fun id row hrow =>
    hmoves.continues h.sound.invariant.stored h.sound.invariant.locking hrow
  refine ⟨h.sound.step hstep, ?_, ?_⟩
  · apply hsteps.forall_calls (P := fun _ c => c.phase.Joined) h.joined
    · exact fun c _ hc => hc
    · intro c _ hphase
      rw [hphase]
      cases c.operation <;> trivial
    · exact fun c _ t phase htakes _ hc => htakes.joined hc
  · cases hsteps with
    | tick | calls | setStatus => exact ⟨h.audited.1, h.audited.2, h.audited.3, h.audited.4⟩
    | @takes c action t phase hfind htakes =>
        have hc := Table.mem_of_find hfind
        rcases htakes.reports hc h.sound (h.joined c hc) with ⟨hevents, htokens, hrotations⟩
          | ⟨event, hreports⟩
        · have hquiet : Audited t := by
            obtain ⟨hopened, hreplaced, hended, hcounted⟩ := h.audited
            refine ⟨?_, ?_, ?_, ?_⟩
            · rw [htokens, hevents, hopened]
            · rw [hrotations, hevents, hreplaced]
            · intro event hevent userId sessionId hends
              rw [HasEnded, htokens]
              exact hended event (hevents ▸ hevent) userId sessionId hends
            · rw [htokens, hevents]
              exact hcounted
          exact ⟨hquiet.1, hquiet.2, hquiet.3, hquiet.4⟩
        · have hrecorded : Audited t := h.audited.reports hreports hrows
          exact ⟨hrecorded.1, hrecorded.2, hrecorded.3, hrecorded.4⟩

theorem logged_init (h : (system config crypto unicode).init s) :
  Logged crypto unicode s
  := by
  refine ⟨sound_init h, ?_, ?_⟩
  · rw [h.2.1]
    exact List.forall_mem_nil _
  · obtain ⟨htokens, -, -, hrotations, hevents⟩ := h
    refine ⟨?_, ?_, ?_, fun userId => ?_⟩
    · rw [htokens, hevents]
      rfl
    · rw [hrotations, hevents]
      rfl
    · rw [hevents]
      exact List.forall_mem_nil _
    · rw [htokens, hevents]
      exact ⟨Nat.le_refl _, Nat.le_refl _⟩

/-- In every run the events account for the sessions. -/
theorem audited_of_run {s₀ s : State} {ts : List (Transition State Label)}
    (hrun : (system config crypto unicode).Run s₀ ts s)
    (hinit : (system config crypto unicode).init s₀) :
  Audited s ∧ (s.events.filterMap SecurityEvent.replaced).Nodup
  := by
  have hlogged : Logged crypto unicode s :=
    hrun.invariant (logged_init hinit) fun t _ hstep h => h.step hstep
  exact ⟨hlogged.audited, hlogged.audited.replaced ▸ hlogged.sound.invariant.linear.nodup⟩

end

/-- The log accounts for the sessions.  In every run, however the calls interleave and in whatever
order their replies arrive, the log names no session twice, and together with the events that are not
in the log it names every session once, with its user; no session is replaced twice, and every
session that an event says is over is one of that user, and over; and the sessions of a user that are
over are as many as the events say they have ended, but for at most one for each rejected token, of
which no event says whether it ended a session. -/
theorem log_accounts_for_sessions {s₀ s : Server} {ts : List (Transition Server Server.Label)}
    (hrun : (Server.system config crypto unicode).Run s₀ ts s)
    (hinit : (Server.system config crypto unicode).init s₀) :
  ((s.log.filterMap SecurityEvent.opened).map Prod.snd).Nodup
  ∧ ((s.log ++ s.unlogged).filterMap SecurityEvent.opened).Perm
    (s.auth.tokens.rows.map fun row => (row.userId, row.id))
  ∧ ((s.log ++ s.unlogged).filterMap SecurityEvent.replaced).Nodup
  ∧ (∀ event ∈ s.log ++ s.unlogged, ∀ userId sessionId, event.ended = some (userId, sessionId) →
    ∃ row, s.auth.tokens.find sessionId = some row ∧ row.userId = userId ∧ row.revokedAt ≠ none)
  ∧ ∀ userId, ((s.log ++ s.unlogged).map (SecurityEvent.ends userId)).sum
      ≤ s.auth.tokens.rows.countP (fun row => row.userId = userId && row.revokedAt.isSome)
    ∧ s.auth.tokens.rows.countP (fun row => row.userId = userId && row.revokedAt.isSome)
      ≤ ((s.log ++ s.unlogged).map (SecurityEvent.ends userId)).sum
        + (s.log ++ s.unlogged).countP (SecurityEvent.rejects userId)
  := by
  obtain ⟨us, hus⟩ := Server.calls_of_run hrun
  obtain ⟨haudited, hreplaced⟩ := audited_of_run hus hinit.1
  have hperm : (s.log ++ s.unlogged).Perm s.auth.events := Server.events_perm hrun hinit
  have hopened : ((s.log ++ s.unlogged).filterMap SecurityEvent.opened).Perm
      (s.auth.tokens.rows.map fun row => (row.userId, row.id)) :=
    haudited.opened ▸ hperm.filterMap SecurityEvent.opened
  refine ⟨?_, hopened, (hperm.filterMap _).nodup_iff.mpr hreplaced, ?_, fun userId => ?_⟩
  · have hids : (((s.log ++ s.unlogged).filterMap SecurityEvent.opened).map Prod.snd).Nodup := by
      rw [(hopened.map Prod.snd).nodup_iff, List.map_map]
      exact s.auth.tokens.nodup
    rw [List.filterMap_append, List.map_append] at hids
    exact (List.nodup_append.mp hids).1
  · intro event hevent
    exact haudited.ended event (hperm.mem_iff.mp hevent)
  · rw [(hperm.map _).sum_eq, hperm.countP_eq]
    exact haudited.counted userId

/-- A session is replaced, and its token presented again.  The reply to the registration is lost, and
the alarm is recorded before the rotation: the events name both sessions, and count both as over. -/
theorem log_accounts_for_sessions_of_twoPresentations :
  ∃ ts s, (Server.system sampleConfig sampleCrypto asciiUnicode).Run
      { auth := sampleState, replies := [], log := [], lost := [] } ts s
    ∧ s.log = [.REFRESH_TOKEN_REUSE_DETECTED 7 1 1, .REFRESH_TOKEN_ROTATED 7 2 1]
    ∧ s.unlogged = [.REGISTER_SUCCESS 7 1]
    ∧ [(7, 2), (7, 1)].Perm (s.auth.tokens.rows.map fun row => (row.userId, row.id))
    ∧ 2 ≤ s.auth.tokens.rows.countP (fun row => row.userId = 7 && row.revokedAt.isSome)
  := by
  have hsome : ((Server.system sampleConfig sampleCrypto asciiUnicode).execute (fun _ => true)
      { auth := sampleState, replies := [], log := [], lost := [] }
      (twoPresentations.map .act ++ [.lose 1, .arrive 3, .arrive 2])).any (fun s =>
        decide (s.log = [.REFRESH_TOKEN_REUSE_DETECTED 7 1 1, .REFRESH_TOKEN_ROTATED 7 2 1])
        && decide (s.unlogged = [.REGISTER_SUCCESS 7 1])) = true := by
    decide +kernel
  obtain ⟨s, hs, hend⟩ := (Option.any_eq_true _ _).mp hsome
  obtain ⟨ts, hrun, -⟩ := TransitionSystem.run_of_execute hs
  simp only [Bool.and_eq_true, decide_eq_true_eq] at hend
  obtain ⟨hlog, hunlogged⟩ := hend
  obtain ⟨-, hopened, -, -, hcounted⟩ :=
    log_accounts_for_sessions hrun ⟨⟨rfl, rfl, rfl, rfl, rfl⟩, rfl, rfl, rfl⟩
  refine ⟨ts, s, hrun, hlog, hunlogged, ?_, ?_⟩
  · rw [hlog, hunlogged] at hopened
    exact hopened
  · have hends := (hcounted 7).1
    rw [hlog, hunlogged] at hends
    exact hends

end AuthService

end DocuAI

import DocuAI.Auth.Statements
import DocuAI.Library.Simulation

/-!
# Replies

The last statement of a call changes the tables when it is executed.  Its reply reaches the server
later, and only then the server records the event and answers the client.  The replies to different
calls arrive in any order, and one that is lost, or finds the server dead, never does: the change is
there, but nobody tells of it.

So the `events` of a state of the calls stand in the order of the statements, and the log of the
server has some of them, in the order of their replies.
-/

namespace DocuAI

namespace AuthService

/-- A reply to the last statement of a call, and the event that is recorded when it arrives. -/
structure Reply where
  callId : ℕ
  event : SecurityEvent
  deriving DecidableEq

structure Server where
  auth : State
  /-- The replies that are on their way. -/
  replies : List Reply
  /-- The security log. -/
  log : List SecurityEvent
  /-- What is never recorded. -/
  lost : List SecurityEvent

namespace Server

inductive Label where
  | act (label : AuthService.Label)
  /-- The reply to the last statement of a call arrives. -/
  | arrive (callId : ℕ)
  /-- The reply to the last statement of a call is lost. -/
  | lose (callId : ℕ)

/-- The replies to a step that is taken with some events. -/
def repliesTo : AuthService.Label → List SecurityEvent → List Reply
  | .step callId _, events => events.map fun event => { callId, event }
  | _, _ => []

/-- The events that are not in the log. -/
def unlogged (s : Server) : List SecurityEvent :=
  s.replies.map Reply.event ++ s.lost

/-- The reply to the last statement of the call. -/
def replyTo (s : Server) (callId : ℕ) : Option Reply :=
  s.replies.find? fun reply => reply.callId = callId

variable (config : AuthConfig) (crypto : Crypto) (unicode : Unicode)

def step (s : Server) : Label → Option Server
  | .act label => do
      let auth ← AuthService.step config crypto unicode s.auth label
      let events := auth.events.drop s.auth.events.length
      some { s with auth, replies := s.replies ++ repliesTo label events }
  | .arrive callId => do
      let reply ← s.replyTo callId
      some { s with replies := s.replies.erase reply, log := s.log ++ [reply.event] }
  | .lose callId => do
      let reply ← s.replyTo callId
      some { s with replies := s.replies.erase reply, lost := s.lost ++ [reply.event] }

/-- The server with its calls.  Runs start without replies, and with an empty log. -/
def system : TransitionSystem Server Label where
  init s :=
    (AuthService.system config crypto unicode).init s.auth
      ∧ s.replies = [] ∧ s.log = [] ∧ s.lost = []
  step := step config crypto unicode

end Server

variable {config : AuthConfig} {crypto : Crypto} {unicode : Unicode}

section

variable {s s' : State} {c : Call} {phase : Phase}

/-- A step of a call comes with one event at most, and with none unless the call is over. -/
theorem Call.Takes.events_cases (h : c.Takes config crypto unicode s s' phase) :
  s'.events = s.events
    ∨ (∃ event, s'.events = s.events ++ [event]) ∧ ∃ result, phase = .returned result
  := by
  cases h with
  | createsSession _ hissued | inserts _ hissued =>
      obtain ⟨-, -, -, hstate⟩ := issueRefreshToken_eq_some hissued
      rw [hstate]
      exact .inl rfl
  | startsSession _ hissued =>
      obtain ⟨-, -, -, hstate⟩ := issueRefreshToken_eq_some hissued
      rw [hstate]
      exact .inr ⟨⟨_, rfl⟩, _, rfl⟩
  | expires _ hrevoked | suspends _ hrevoked | revokesFamily _ hrevoked | endsSession _ hrevoked =>
      obtain ⟨-, rfl⟩ := revokeMany_eq_some hrevoked
      exact .inr ⟨⟨_, rfl⟩, _, rfl⟩
  | duplicate | refuses | unknownToken | leavesAlone | commitsUser | commits =>
      exact .inr ⟨⟨_, rfl⟩, _, rfl⟩
  | _ => exact .inl rfl

/-- A step of the calls comes with the events of its replies. -/
theorem Steps.events_eq {label : Label} (h : Steps config crypto unicode s label s') :
  s'.events = s.events
    ++ (Server.repliesTo label (s'.events.drop s.events.length)).map Reply.event
  := by
  cases h with
  | tick | calls | setStatus => simp [Server.repliesTo]
  | takes _ htakes =>
      rcases htakes.events_cases with hevents | ⟨⟨event, hevents⟩, -⟩ <;>
        simp [Server.repliesTo, hevents]

/-- The reply to a step is one to the call that has taken it, and the call is over. -/
theorem Steps.of_mem_repliesTo {label : Label} (h : Steps config crypto unicode s label s')
    {reply : Reply} (hreply : reply ∈ Server.repliesTo label (s'.events.drop s.events.length)) :
  ∃ c action t phase, s.calls.find c.id = some c ∧ c.Takes config crypto unicode s t phase
    ∧ label = .step c.id action ∧ s' = { t with calls := s.calls.put { c with phase } }
    ∧ reply.callId = c.id ∧ ∃ result, phase = .returned result
  := by
  cases h with
  | tick | calls | setStatus => cases hreply
  | @takes c action t phase hfind htakes =>
      obtain ⟨event, hevent, rfl⟩ := List.mem_map.mp hreply
      refine ⟨c, action, t, phase, hfind, htakes, rfl, rfl, rfl, ?_⟩
      rcases htakes.events_cases with hevents | ⟨-, hreturned⟩
      · change event ∈ t.events.drop s.events.length at hevent
        rw [hevents, List.drop_length] at hevent
        cases hevent
      · exact hreturned

end

namespace Server

variable {s s' : Server}

/-- What a step of the server can be. -/
inductive Steps (config : AuthConfig) (crypto : Crypto) (unicode : Unicode) (s : Server) :
    Label → Server → Prop where
  | acts {label : AuthService.Label} {auth : State}
      (hstep : (AuthService.system config crypto unicode).step s.auth label = some auth) :
      Steps config crypto unicode s (.act label)
        { s with
          auth
          replies := s.replies ++ repliesTo label (auth.events.drop s.auth.events.length) }
  | arrives {reply : Reply} (hreply : reply ∈ s.replies) :
      Steps config crypto unicode s (.arrive reply.callId)
        { s with replies := s.replies.erase reply, log := s.log ++ [reply.event] }
  | loses {reply : Reply} (hreply : reply ∈ s.replies) :
      Steps config crypto unicode s (.lose reply.callId)
        { s with replies := s.replies.erase reply, lost := s.lost ++ [reply.event] }

theorem steps_of_step {label : Label}
    (h : (system config crypto unicode).step s label = some s') :
  Steps config crypto unicode s label s'
  := by
  change step config crypto unicode s label = some s' at h
  have hreply {callId : ℕ} {reply : Reply} (hfind : s.replyTo callId = some reply) :
      reply ∈ s.replies ∧ reply.callId = callId :=
    ⟨List.mem_of_find?_eq_some hfind, by simpa using List.find?_some hfind⟩
  cases label with
  | act label =>
      obtain ⟨auth, hauth, h⟩ := Option.bind_eq_some_iff.mp h
      obtain rfl := Option.some.inj h
      exact .acts hauth
  | arrive callId =>
      obtain ⟨reply, hfind, h⟩ := Option.bind_eq_some_iff.mp h
      obtain rfl := Option.some.inj h
      obtain ⟨hmem, rfl⟩ := hreply hfind
      exact .arrives hmem
  | lose callId =>
      obtain ⟨reply, hfind, h⟩ := Option.bind_eq_some_iff.mp h
      obtain rfl := Option.some.inj h
      obtain ⟨hmem, rfl⟩ := hreply hfind
      exact .loses hmem

/-- The calls go their way, whenever the replies arrive. -/
def callsSimulation (config : AuthConfig) (crypto : Crypto) (unicode : Unicode) :
    TransitionSystem.Simulation (system config crypto unicode)
      (AuthService.system config crypto unicode) where
  view := auth
  action t :=
    match t.label with
    | .act label => some label
    | _ => none
  invariant _ := True
  start _ h := ⟨trivial, h.1⟩
  keeps _ _ _ := trivial
  follows t hstep _ := by
    obtain ⟨source, label, target⟩ := t
    have hsteps : Steps config crypto unicode source label target := steps_of_step hstep
    cases hsteps with
    | acts hauth => exact hauth
    | arrives | loses => rfl

/-- What holds of the calls in every run holds of those of the server. -/
theorem calls_of_run {s s' : Server} {ts : List (Transition Server Label)}
    (hrun : (system config crypto unicode).Run s ts s') :
  ∃ us, (AuthService.system config crypto unicode).Run s.auth us s'.auth
  := by
  obtain ⟨us, hus, -⟩ := (callsSimulation config crypto unicode).run hrun trivial
  exact ⟨us, hus⟩

/-- The log and what is not in it are the events. -/
theorem events_perm {s₀ s : Server} {ts : List (Transition Server Label)}
    (hrun : (system config crypto unicode).Run s₀ ts s)
    (hinit : (system config crypto unicode).init s₀) :
  (s.log ++ s.unlogged).Perm s.auth.events
  := by
  refine hrun.invariant (I := fun s => (s.log ++ s.unlogged).Perm s.auth.events) ?_ ?_
  · obtain ⟨hauth, hreplies, hlog, hlost⟩ := hinit
    rw [unlogged, hreplies, hlog, hlost, hauth.2.2.2.2]
    exact List.Perm.refl _
  · rintro ⟨source, label, target⟩ - hstep h
    have hsteps : Steps config crypto unicode source label target := steps_of_step hstep
    change (source.log ++ (source.replies.map Reply.event ++ source.lost)).Perm _ at h
    -- A reply moves from those on their way to the log, or to what is lost.
    have hmoves {reply : Reply} (hreply : reply ∈ source.replies) :
        (source.replies.map Reply.event).Perm
          (reply.event :: (source.replies.erase reply).map Reply.event) :=
      (List.perm_cons_erase hreply).map Reply.event
    cases hsteps with
    | @acts label auth hauth =>
        have hevents := (AuthService.steps_of_step hauth).events_eq
        change (source.log ++ ((source.replies ++ repliesTo label _).map Reply.event ++ source.lost)).Perm
          auth.events
        rw [hevents, List.map_append]
        grind
    | arrives hreply =>
        have hmoved := hmoves hreply
        change (source.log ++ [_] ++ ((source.replies.erase _).map Reply.event ++ source.lost)).Perm
          source.auth.events
        grind
    | loses hreply =>
        have hmoved := hmoves hreply
        change (source.log ++ ((source.replies.erase _).map Reply.event ++ (source.lost ++ [_]))).Perm
          source.auth.events
        grind

end Server

end AuthService

end DocuAI

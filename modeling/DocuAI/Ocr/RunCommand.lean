import DocuAI.Utf8

/-!
# External commands

`runCommand` starts a tool and collects what it writes.  What happens to the child process is a list
of events; the promise is pending until one of them settles it.  A chunk of output that does not fit
into what is left of the bound is discarded, and the chunks after it are looked at one by one.
-/

namespace DocuAI

/-- What a promise of `runCommand` is rejected with. -/
inductive CommandError where
  | commandNotFound (command : JsString)
  | other (description : JsString)
  deriving DecidableEq

structure RunCommandResult where
  exitCode : Option ℤ
  signal : Option JsString
  stdout : Bytes
  stderr : JsString
  timedOut : Bool
  durationMs : ℕ
  deriving DecidableEq

/-- What happens to a child process, in the order the program hears of it. -/
inductive ChildEvent where
  | stdout (chunk : Bytes)
  | stderr (chunk : Bytes)
  /-- The time limit is reached, and the process group is killed. -/
  | timeout
  | error (notFound : Bool) (description : JsString)
  | close (exitCode : Option ℤ) (signal : Option JsString) (durationMs : ℕ)
  deriving DecidableEq

def DEFAULT_MAX_OUTPUT : ℕ := 32 * 1024 * 1024

/-- The chunks of one stream that were kept, and their size. -/
structure Captured where
  chunks : List Bytes
  size : ℕ
  deriving DecidableEq

/-- The handler of `data`: a chunk beyond the bound is discarded. -/
def Captured.data (bound : ℕ) (captured : Captured) (chunk : Bytes) : Captured :=
  if bound < captured.size + chunk.length then captured
  else { chunks := captured.chunks ++ [chunk], size := captured.size + chunk.length }

/-- The variables of a call of `runCommand`. -/
structure CommandRun where
  stdout : Captured
  stderr : Captured
  timedOut : Bool
  deriving DecidableEq

/-- What becomes of the promise, `none` while it is pending. -/
def CommandRun.settle (command : JsString) (maxOutput : ℕ) :
    CommandRun → List ChildEvent → Option (Except CommandError RunCommandResult)
  | _, [] => none
  | run, .stdout chunk :: events =>
      { run with stdout := run.stdout.data maxOutput chunk }.settle command maxOutput events
  | run, .stderr chunk :: events =>
      { run with stderr := run.stderr.data (64 * 1024) chunk }.settle command maxOutput events
  | run, .timeout :: events => { run with timedOut := true }.settle command maxOutput events
  | _, .error notFound description :: _ =>
      some (.error (if notFound then .commandNotFound command else .other description))
  | run, .close exitCode signal durationMs :: _ =>
      some (.ok {
        exitCode, signal, durationMs
        stdout := run.stdout.chunks.flatten
        stderr := Utf8.decode run.stderr.chunks.flatten
        timedOut := run.timedOut })

/-- `runCommand`, as far as it depends on the events. -/
def runCommand (command : JsString) (maxOutputBytes : Option ℕ) (events : List ChildEvent) :
    Option (Except CommandError RunCommandResult) :=
  CommandRun.settle command (maxOutputBytes.getD DEFAULT_MAX_OUTPUT)
    ⟨⟨[], 0⟩, ⟨[], 0⟩, false⟩ events

/-- The chunks written to standard output before the promise is settled. -/
def stdoutChunks : List ChildEvent → List Bytes
  | [] => []
  | .stdout chunk :: events => chunk :: stdoutChunks events
  | .stderr _ :: events => stdoutChunks events
  | .timeout :: events => stdoutChunks events
  | .error _ _ :: _ => []
  | .close _ _ _ :: _ => []

/-! ### What is kept of a stream -/

/-- The bytes kept of the chunks of a stream, when there is room for so many. -/
def keptBytes : ℕ → List Bytes → Bytes
  | _, [] => []
  | room, chunk :: rest =>
      if room < chunk.length then keptBytes room rest
      else chunk ++ keptBytes (room - chunk.length) rest

/-- The output of a command is what is kept of its chunks. -/
theorem stdout_of_settle {command : JsString} {maxOutput : ℕ} {run : CommandRun}
    {events : List ChildEvent} {result : RunCommandResult}
    (hsize : run.stdout.size ≤ maxOutput)
    (h : run.settle command maxOutput events = some (.ok result)) :
  result.stdout
    = run.stdout.chunks.flatten ++ keptBytes (maxOutput - run.stdout.size) (stdoutChunks events)
  := by
  induction events generalizing run with
  | nil => cases h
  | cons event events ih =>
      cases event with
      | stdout chunk =>
          rw [stdoutChunks, keptBytes]
          by_cases hfits : maxOutput < run.stdout.size + chunk.length
          · rw [CommandRun.settle, Captured.data, if_pos hfits] at h
            rw [if_pos (by omega)]
            exact ih hsize h
          · rw [CommandRun.settle, Captured.data, if_neg hfits] at h
            have hrest := ih (Nat.not_lt.mp hfits) h
            rw [if_neg (by omega), hrest, List.flatten_append, Nat.sub_add_eq]
            simp
      | stderr chunk =>
          rw [CommandRun.settle] at h
          apply ih _ h
          exact hsize
      | timeout =>
          rw [CommandRun.settle] at h
          apply ih _ h
          exact hsize
      | error notFound description => cases h
      | close exitCode signal durationMs =>
          obtain rfl := Except.ok.inj (Option.some.inj h)
          rw [stdoutChunks, keptBytes, List.append_nil]

theorem stdout_of_runCommand {command : JsString} {maxOutputBytes : Option ℕ}
    {events : List ChildEvent} {result : RunCommandResult}
    (h : runCommand command maxOutputBytes events = some (.ok result)) :
  result.stdout = keptBytes (maxOutputBytes.getD DEFAULT_MAX_OUTPUT) (stdoutChunks events)
  := by
  have hstdout := stdout_of_settle (Nat.zero_le _) h
  simpa using hstdout

theorem length_keptBytes_le (room : ℕ) (chunks : List Bytes) :
  (keptBytes room chunks).length ≤ room
  := by
  induction chunks generalizing room with
  | nil => apply Nat.zero_le
  | cons chunk rest ih =>
      rw [keptBytes]
      split
      · apply ih
      · have hrest := ih (room - chunk.length)
        rw [List.length_append]
        omega

/-- Every chunk that fits into the room left repeats the bytes of `lost` at its place. -/
def Repeats : ℕ → Bytes → List Bytes → Prop
  | _, _, [] => True
  | room, lost, chunk :: rest =>
      if room < chunk.length then Repeats room lost rest
      else chunk <+: lost ∧ Repeats (room - chunk.length) (lost.drop chunk.length) rest

/-- After the first chunk that does not fit, every chunk that still fits repeats its bytes. -/
def KeptInOrder : ℕ → List Bytes → Prop
  | _, [] => True
  | room, chunk :: rest =>
      if room < chunk.length then Repeats room chunk rest
      else KeptInOrder (room - chunk.length) rest

theorem append_isPrefix_append_iff {s t : Bytes} {rest tail : Bytes} (h : s.length ≤ t.length) :
  s ++ rest <+: t ++ tail ↔ s <+: t ∧ rest <+: t.drop s.length ++ tail
  := by
  refine ⟨?_, ?_⟩
  · intro hstart
    have hs : s <+: t :=
      List.prefix_of_prefix_length_le ((List.prefix_append s rest).trans hstart)
        (List.prefix_append t tail) h
    obtain ⟨middle, rfl⟩ := hs
    rw [List.append_assoc, List.prefix_append_right_inj] at hstart
    simpa using hstart
  · rintro ⟨⟨middle, rfl⟩, hrest⟩
    rw [List.append_assoc, List.prefix_append_right_inj]
    simpa using hrest

/-- What is kept after a lost chunk follows on what was kept before it only as far as it repeats
the lost one. -/
theorem keptBytes_isPrefix_iff_repeats {room : ℕ} {lost : Bytes} (h : room ≤ lost.length)
    (chunks : List Bytes) (tail : Bytes) :
  keptBytes room chunks <+: lost ++ tail ↔ Repeats room lost chunks
  := by
  induction chunks generalizing room lost with
  | nil => simp [keptBytes, Repeats]
  | cons chunk rest ih =>
      rw [keptBytes, Repeats]
      split
      · exact ih h
      · rename_i hfits
        have hlength : room - chunk.length ≤ (lost.drop chunk.length).length := by
          rw [List.length_drop]
          omega
        rw [append_isPrefix_append_iff (by omega), ih hlength]

/-- What is kept of a stream is an initial part of it exactly when nothing is kept out of order. -/
theorem keptBytes_isPrefix_iff (room : ℕ) (chunks : List Bytes) :
  keptBytes room chunks <+: chunks.flatten ↔ KeptInOrder room chunks
  := by
  induction chunks generalizing room with
  | nil => simp [keptBytes, KeptInOrder]
  | cons chunk rest ih =>
      rw [keptBytes, KeptInOrder, List.flatten_cons]
      split
      · rename_i hlost
        exact keptBytes_isPrefix_iff_repeats hlost.le rest rest.flatten
      · rw [List.prefix_append_right_inj]
        apply ih

end DocuAI

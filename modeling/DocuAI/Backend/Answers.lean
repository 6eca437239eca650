import DocuAI.Backend.References
import DocuAI.Folders.Removal

/-!
# Requests that end in an internal error

A call on documents or folders answers with a result or an error of the client, as long as the
database accepts its statements (`answers_iff`).  There are two statements it may not accept, apart
from those that fail by themselves: one that sets a title or a name to `null`, which the validation of
an update lets through, and one that puts a document in a folder that has been removed since it was
looked up.
-/

namespace DocuAI

/-! ### Calls on documents -/

namespace Documents

variable {config : DocumentsConfig} {storage : StorageConfig} {unicode : Unicode}

/-- The call has not ended, or has answered with a result or an error of the client. -/
def Phase.answers : Phase config → Bool
  | .returned (.error error) => error.status.isClientError
  | .rejected => false
  | _ => true

/-- The database accepts the statement the call makes next: it sets no title to `null`, and a document
it writes is put in a folder that is there. -/
def Call.Accepted (s : State config) (c : Call config) : Prop :=
  match c.phase with
  | .creating dto => s.admits dto.folderId = true
  | .saving current data =>
      data.title ≠ some none
        ∧ ∀ document ∈ s.documents.rows, document.id = current.id → document.userId = c.userId →
          document.deletedAt = none → s.admits data.folderId.join = true
  | _ => True

/-- The declaration of a file is refused with errors of the client. -/
theorem isClientError_of_declare {dto : CreateUploadUrlDto} {error : AppException}
    (h : DocumentFilesService.declare config unicode dto = .error error) :
  error.status.isClientError = true
  := by
  unfold DocumentFilesService.declare at h
  have hbind : ∀ {α β : Type} {x : Except AppException α} {f : α → Except AppException β},
      (x >>= f) = .error error → x = .error error ∨ ∃ a, x = .ok a ∧ f a = .error error := by
    rintro α β (e | a) f hx
    · obtain rfl : e = error := Except.error.inj hx
      exact .inl rfl
    · exact .inr ⟨a, rfl, hx⟩
  rcases hbind h with h | ⟨contentType, -, h⟩
  · unfold DocumentFilesService.validateContentType at h
    simp only at h
    split at h
    · cases h
    · obtain rfl := Except.error.inj h
      rfl
  rcases hbind h with h | ⟨fileSize, -, h⟩
  · unfold DocumentFilesService.validateFileSize at h
    split at h
    · obtain rfl := Except.error.inj h
      rfl
    · split at h
      · obtain rfl := Except.error.inj h
        rfl
      · cases h
  rcases hbind h with h | ⟨fileName, -, h⟩
  · unfold DocumentFilesService.validateFileName at h
    split at h
    · obtain rfl := Except.error.inj h
      rfl
    · split at h
      · obtain rfl := Except.error.inj h
        rfl
      · cases h
  · cases h

theorem Operation.answers_start (now : ℕ) (operation : Operation) :
  (operation.start config unicode now).answers = true
  := by
  cases operation with
  | create dto => simp only [start]; split <;> rfl
  | update | completeUpload | remove => rfl
  | createUploadUrl documentId dto =>
      simp only [start]
      split
      · rfl
      · rename_i hdeclare
        apply isClientError_of_declare hdeclare

section

variable {s s' : State config} {c : Call config} {phase : Phase config}

/-- The statement that saves fields is not accepted when the title is `null`, or a row is changed and
the folder is not there. -/
theorem Call.answers_save {current : Document} {data : DocumentData}
    (hphase : c.phase = .saving current data) (h : c.save s current data = (s', phase)) :
  phase.answers = true ↔ c.Accepted s
  := by
  have haccepted : c.Accepted s ↔ data.title ≠ some none
      ∧ ∀ document ∈ s.documents.rows, document.id = current.id → document.userId = c.userId →
        document.deletedAt = none → s.admits data.folderId.join = true := by
    rw [Accepted, hphase]
  rw [haccepted]
  obtain ⟨-, rfl, htitle | ⟨hcount, hadmits⟩⟩ | ⟨htitle, -, ⟨hadmits, rfl⟩ | ⟨hcount, rfl⟩⟩ :=
    save_cases h
  · simp [Phase.answers, htitle]
  · obtain ⟨row, hfind, hguard⟩ : ∃ row, s.documents.find current.id = some row
        ∧ ((DocumentWrite.save current.id c.userId data : DocumentWrite config).update s.now).guard
          row = true := by
      apply (Table.count_eq_one_iff _).mp hcount
      intro row hrow
      simp only [DocumentWrite.update, Bool.and_eq_true, decide_eq_true_eq] at hrow
      exact hrow.1.1
    simp only [DocumentWrite.update, Bool.and_eq_true, decide_eq_true_eq,
      Option.isNone_iff_eq_none] at hguard
    obtain ⟨⟨hid, huser⟩, hlive⟩ := hguard
    constructor
    · intro hanswers
      cases hanswers
    · rintro ⟨-, hthere⟩
      have hheld := hthere row (Table.mem_of_find hfind) hid huser hlive
      rw [hadmits] at hheld
      cases hheld
  · simp [Phase.answers, htitle, hadmits]
  · constructor
    · intro _
      refine ⟨htitle, ?_⟩
      intro document hdocument hid huser hlive
      apply absurd (State.count_save hdocument _) hcount
      simp [DocumentWrite.update, hid, huser, hlive]
    · intro _
      rfl

theorem Call.answers_create {dto : CreateDocumentDto} {id : ℕ} (hphase : c.phase = .creating dto)
    (h : c.create s dto id = some (s', phase)) :
  phase.answers = true ↔ c.Accepted s
  := by
  have haccepted : c.Accepted s ↔ s.admits dto.folderId = true := by
    rw [Accepted, hphase]
  rw [haccepted]
  obtain ⟨hadmits, -, rfl⟩ | ⟨_, hadmits, -, -, rfl⟩ := create_cases h
  · simp [Phase.answers, hadmits]
  · simp [Phase.answers, hadmits]

/-- A step to a phase that answers. -/
theorem Call.answers_goes (haccepted : c.Accepted s) (hanswers : phase.answers = true) :
  phase.answers = true ↔ c.Accepted s
  := ⟨fun _ => haccepted, fun _ => hanswers⟩

theorem Call.answers_withOwned {documentId : ℕ} {next : Document → Phase config}
    (hnext : ∀ document, (next document).answers = true) :
  (c.withOwned s documentId next).2.answers = true
  := by
  unfold withOwned
  split
  · rfl
  · apply hnext

/-- Only two statements may not be accepted. -/
theorem Call.accepted_of_phase (hcreating : ∀ dto, c.phase ≠ .creating dto)
    (hsaving : ∀ current data, c.phase ≠ .saving current data) :
  c.Accepted s
  := by
  unfold Accepted
  split
  · rename_i hphase
    exact absurd hphase (hcreating _)
  · rename_i hphase
    exact absurd hphase (hsaving _ _)
  · trivial

theorem Call.answers_confirm (documentId : ℕ) (head : StoredObjectMetadata) (completed : Bool) :
  (c.confirm s documentId head completed).2.answers = true
  := by
  unfold confirm
  split
  · rfl
  · split
    · rfl
    · split <;> rfl

theorem Call.answers_advance (h : c.advance storage unicode s = some (s', phase)) :
  phase.answers = true ↔ c.Accepted s
  := by
  have hgoes : ∀ {r : State config × Phase config}, some r = some (s', phase) →
      r.2.answers = true → (∀ dto, c.phase ≠ .creating dto) →
      (∀ current data, c.phase ≠ .saving current data) → (phase.answers = true ↔ c.Accepted s) := by
    rintro ⟨t, next⟩ heq hanswers hcreating hsaving
    obtain ⟨rfl, rfl⟩ := Prod.mk.inj (Option.some.inj heq)
    apply answers_goes (accepted_of_phase hcreating hsaving) hanswers
  cases hphase : c.phase with
  | saving current data =>
      simp only [advance, hphase] at h
      apply answers_save hphase (Option.some.inj h)
  | creating | issuing | verifying | returned | rejected => simp [advance, hphase] at h
  | creatingIn dto folderId =>
      simp only [advance, hphase] at h
      apply hgoes h _ (by simp [hphase]) (by simp [hphase])
      dsimp only
      split <;> rfl
  | updating documentId dto =>
      simp only [advance, hphase] at h
      apply hgoes h _ (by simp [hphase]) (by simp [hphase])
      apply answers_withOwned
      intro current
      split
      · rfl
      · split <;> rfl
  | moving current data folderId =>
      simp only [advance, hphase] at h
      apply hgoes h _ (by simp [hphase]) (by simp [hphase])
      dsimp only
      split <;> rfl
  | saved current data =>
      simp only [advance, hphase] at h
      split at h <;> apply hgoes h rfl (by simp [hphase]) (by simp [hphase])
  | requesting documentId declaration =>
      simp only [advance, hphase] at h
      apply hgoes h _ (by simp [hphase]) (by simp [hphase])
      apply answers_withOwned
      intro current
      split <;> rfl
  | presigned documentId upload url =>
      simp only [advance, hphase] at h
      split at h <;> apply hgoes h rfl (by simp [hphase]) (by simp [hphase])
  | completing documentId dto =>
      simp only [advance, hphase] at h
      apply hgoes h _ (by simp [hphase]) (by simp [hphase])
      apply answers_withOwned
      intro current
      split
      · rfl
      · split <;> rfl
  | confirming documentId head completed =>
      simp only [advance, hphase] at h
      apply hgoes h (answers_confirm documentId head completed) (by simp [hphase]) (by simp [hphase])
  | removing documentId deletedAt =>
      simp only [advance, hphase] at h
      apply hgoes h _ (by simp [hphase]) (by simp [hphase])
      simp only [remove]
      split <;> rfl
  | superseding | presigning | accepting | rejecting | discarding | denying | denyingFolder =>
      simp only [advance, hphase] at h
      apply hgoes h rfl (by simp [hphase]) (by simp [hphase])

/-- A step of a call leads to an internal error exactly when its statement fails by itself or is not
accepted. -/
theorem Call.answers_iff {action : Action} (h : c.act storage unicode s action = some (s', phase)) :
  phase.answers = true ↔ action ≠ .throw ∧ c.Accepted s
  := by
  cases action with
  | advance => simpa using answers_advance h
  | insert id =>
      simp only [act] at h
      split at h
      · rename_i hphase
        simpa using answers_create hphase h
      · cases h
  | issue random =>
      simp only [act] at h
      split at h
      · rename_i current declaration hphase
        have haccepted : c.Accepted s := by
          apply accepted_of_phase <;> simp [hphase]
        have hanswers : phase.answers = true := by
          obtain ⟨upload, -, -, -, rfl | rfl | ⟨-, key, -, rfl⟩⟩ := issue_cases h
          · rfl
          · rfl
          · rfl
        simp [hanswers, haccepted]
      · cases h
  | head answer =>
      simp only [act] at h
      split at h
      · rename_i current key dto hphase
        have haccepted : c.Accepted s := by
          apply accepted_of_phase <;> simp [hphase]
        have hanswers : phase.answers = true := by
          obtain ⟨-, rfl⟩ | ⟨head, -, ⟨-, rfl⟩ | ⟨problems, rfl⟩⟩ :=
            verify_cases (Option.some.inj h)
          · rfl
          · rfl
          · rfl
        simp [hanswers, haccepted]
      · cases h
  | undeleted =>
      simp only [act] at h
      split at h
      · rename_i hphase
        have haccepted : c.Accepted s := by
          apply accepted_of_phase <;> simp [hphase]
        obtain ⟨-, rfl⟩ := Prod.mk.inj (Option.some.inj h)
        simp [Phase.answers, haccepted]
      · rename_i hphase
        have haccepted : c.Accepted s := by
          apply accepted_of_phase <;> simp [hphase]
        obtain ⟨-, rfl⟩ := Prod.mk.inj (Option.some.inj h)
        simp [Phase.answers, haccepted, invalidUpload, HttpStatus.isClientError]
      · cases h
  | throw =>
      simp only [act] at h
      split at h
      · cases h
      · cases h
      · obtain ⟨-, rfl⟩ := Prod.mk.inj (Option.some.inj h)
        simp [Phase.answers]

end

end Documents

/-! ### Calls on folders -/

namespace Folders

variable {config : DocumentsConfig}

/-- The database accepts the statement the call makes next: it sets no name to `null`. -/
def Call.Accepted (c : Call) : Prop :=
  ∀ current data, c.phase = .saving current data → data.name ≠ some none

section

variable {s s' : Store} {c : Call} {phase : Phase} {action : Action}

/-- The folders a call refers to are there, and no folder is below one that is deleted. -/
theorem Call.answers_of_accepted (h : ∀ userId, Hierarchy (ownedBy s.folders userId))
    (hknows : c.phase.Knows (ownedBy s.folders c.userId)) (haction : action ≠ .throw)
    (haccepted : c.Accepted) (hact : c.act config s action = some (s', phase)) :
  phase.answers = true
  := by
  have hadmits : ∀ {parentId : Option ℕ}, (∀ p, parentId = some p →
      ∃ parent, ownedBy s.folders c.userId p = some parent) →
      FoldersService.admits s.folders parentId ≠ false := by
    intro parentId hparent hnot
    cases parentId with
    | none => cases hnot
    | some p =>
        obtain ⟨parent, howned⟩ := hparent p rfl
        rw [FoldersService.admits, Option.all_some, (ownedBy_eq_some_iff.mp howned).1] at hnot
        cases hnot
  cases acts_of_act hact with
  | reads hphase => exact hphase
  | throws hthrow => exact absurd hthrow haction
  | creates | saves | deletes => rfl
  | orphans hphase hnot =>
      rw [hphase] at hknows
      exact absurd hnot (hadmits fun p hp => (hknows p hp).1)
  | @refuses current data hphase hdata =>
      have hname := haccepted current data hphase
      rw [hphase] at hknows
      obtain ⟨howned, hplace⟩ := hknows
      rcases hdata with hnull | hnot | hnone
      · exact absurd hnull hname
      · apply absurd hnot (hadmits _)
        intro p hp
        obtain ⟨newParentId, hparent, hjoin⟩ := Option.bind_eq_some_iff.mp hp
        obtain ⟨depth, height, hadmitted, -⟩ := hplace newParentId hparent
        apply hadmitted.exists_owned hjoin
      · rw [(ownedBy_eq_some_iff.mp howned).1] at hnone
        cases hnone
  | @keeps folder unfiled hphase hchild =>
      rw [hphase] at hknows
      obtain ⟨hfind, huser⟩ := ownedBy_eq_some_iff.mp hknows
      rw [← huser] at hchild
      obtain ⟨child, hmem, -, hparent⟩ := hchild
      exact absurd hparent ((boundedForest_of_hierarchy h).parentId_ne_of_promote hfind hmem)

/-- A step of a call leads to an internal error exactly when its statement fails by itself or is not
accepted. -/
theorem Call.answers_iff (h : ∀ userId, Hierarchy (ownedBy s.folders userId))
    (hknows : c.phase.Knows (ownedBy s.folders c.userId))
    (hact : c.act config s action = some (s', phase)) :
  phase.answers = true ↔ action ≠ .throw ∧ c.Accepted
  := by
  constructor
  · intro hanswers
    constructor
    · rintro rfl
      simp only [act] at hact
      split at hact
      · cases hact
      · cases hact
      · obtain ⟨-, rfl⟩ := Prod.mk.inj (Option.some.inj hact)
        cases hanswers
    · intro current data hphase hname
      cases action with
      | advance =>
          simp only [act, advance, hphase] at hact
          rw [save, if_pos (.inl hname)] at hact
          obtain ⟨-, rfl⟩ := Prod.mk.inj (Option.some.inj hact)
          cases hanswers
      | throw =>
          simp only [act, hphase] at hact
          obtain ⟨-, rfl⟩ := Prod.mk.inj (Option.some.inj hact)
          cases hanswers
      | lock | insert => simp [act, hphase] at hact
  · rintro ⟨haction, haccepted⟩
    apply answers_of_accepted h hknows haction haccepted hact

end

end Folders

/-! ### Runs -/

namespace Backend

variable {config : AppConfig} {unicode : Unicode} {hashtext : ℕ → ℕ}

/-- The database accepts the statement of a step, if it is one of a call on folders or documents. -/
def Accepted (s : State config) : Label → Prop
  | .folders (.step callId action) =>
      action ≠ .throw ∧ ∀ c, s.folderCalls.find callId = some c → c.Accepted
  | .documents (.step callId action) =>
      action ≠ .throw ∧ ∀ c, s.documentCalls.find callId = some c → c.Accepted s.documents
  | _ => True

/-- No call on folders or documents has ended but with a result or an error of the client. -/
structure State.Answered (s : State config) : Prop where
  folders : ∀ c ∈ s.folderCalls.rows, c.phase.answers = true
  documents : ∀ c ∈ s.documentCalls.rows, c.phase.answers = true

section

variable {s s' : State config}

theorem answered_init (h : (system config unicode hashtext).init s) :
  s.Answered
  := by
  obtain ⟨⟨-, hfolders⟩, ⟨-, hdocuments, -⟩, -⟩ := h
  constructor
  · intro c hc
    change c ∈ s.folders.calls.rows at hc
    rw [hfolders] at hc
    cases hc
  · intro c hc
    change c ∈ s.documents.calls.rows at hc
    rw [hdocuments] at hc
    cases hc

/-- A step leads to an internal error exactly when its statement is not accepted. -/
theorem State.Answered.step_iff (hanswered : s.Answered) (h : Invariant hashtext s) {label : Label}
    (hstep : (system config unicode hashtext).step s label = some s') :
  s'.Answered ↔ Accepted s label
  := by
  change Backend.step config unicode hashtext s label = some s' at hstep
  cases label with
  | tick ms =>
      obtain rfl := Option.some.inj hstep
      exact ⟨fun _ => trivial, fun _ => ⟨hanswered.folders, hanswered.documents⟩⟩
  | ocr a =>
      simp only [Backend.step] at hstep
      split at hstep
      · obtain ⟨part, -, hstep⟩ := Option.bind_eq_some_iff.mp hstep
        obtain rfl := Option.some.inj hstep
        exact ⟨fun _ => trivial, fun _ => ⟨hanswered.folders, hanswered.documents⟩⟩
      · cases hstep
  | folders a =>
      simp only [Backend.step] at hstep
      split at hstep
      swap
      · cases hstep
      rename_i hguard
      obtain ⟨part, hpart, hstep⟩ := Option.bind_eq_some_iff.mp hstep
      obtain rfl := Option.some.inj hstep
      cases a with
      | tick | writeDocuments => cases hguard.1
      | call id userId operation =>
          obtain ⟨calls, hcreate, hpart⟩ := Option.bind_eq_some_iff.mp hpart
          obtain rfl := Option.some.inj hpart
          constructor
          · intro _
            trivial
          · intro _
            refine ⟨?_, hanswered.documents⟩
            apply Table.forall_create hanswered.folders hcreate
            rfl
      | step callId action =>
          obtain ⟨c, hfind, hpart⟩ := Option.bind_eq_some_iff.mp hpart
          split at hpart
          swap
          · cases hpart
          obtain ⟨⟨t, phase⟩, hact, hpart⟩ := Option.bind_eq_some_iff.mp hpart
          obtain rfl := Option.some.inj hpart
          have hiff := Folders.Call.answers_iff h.hierarchy.hierarchy
            (h.hierarchy.knows c (Table.mem_of_find hfind)) hact
          have hfolderCalls : s.folderCalls.find callId = some c := hfind
          have haccepted : Accepted s (.folders (.step callId action))
              ↔ action ≠ .throw ∧ c.Accepted := by
            simp [Accepted, hfolderCalls]
          rw [haccepted, ← hiff]
          constructor
          · intro hafter
            apply (Table.forall_put_iff hanswered.folders).mp hafter.folders
          · intro hanswers
            refine ⟨?_, hanswered.documents⟩
            apply (Table.forall_put_iff hanswered.folders).mpr hanswers
  | documents a =>
      simp only [Backend.step] at hstep
      split at hstep
      swap
      · cases hstep
      rename_i hguard
      obtain ⟨part, hpart, hstep⟩ := Option.bind_eq_some_iff.mp hstep
      obtain rfl := Option.some.inj hstep
      cases a with
      | tick | writeFolder | removeFolder | setTotalPages => cases hguard
      | put url contentType bytes etag =>
          simp only [Documents.step] at hpart
          split at hpart
          · obtain rfl := Option.some.inj hpart
            exact ⟨fun _ => trivial, fun _ => ⟨hanswered.folders, hanswered.documents⟩⟩
          · cases hpart
      | call id userId operation =>
          obtain ⟨calls, hcreate, hpart⟩ := Option.bind_eq_some_iff.mp hpart
          obtain rfl := Option.some.inj hpart
          constructor
          · intro _
            trivial
          · intro _
            refine ⟨hanswered.folders, ?_⟩
            apply Table.forall_create hanswered.documents hcreate
            apply Documents.Operation.answers_start
      | step callId action =>
          obtain ⟨c, hfind, hpart⟩ := Option.bind_eq_some_iff.mp hpart
          obtain ⟨⟨t, phase⟩, hact, hpart⟩ := Option.bind_eq_some_iff.mp hpart
          obtain rfl := Option.some.inj hpart
          have hiff := Documents.Call.answers_iff hact
          have hdocumentCalls : s.documentCalls.find callId = some c := hfind
          have haccepted : Accepted s (.documents (.step callId action))
              ↔ action ≠ .throw ∧ c.Accepted s.documents := by
            simp [Accepted, hdocumentCalls]
          rw [haccepted, ← hiff]
          constructor
          · intro hafter
            apply (Table.forall_put_iff hanswered.documents).mp hafter.documents
          · intro hanswers
            refine ⟨hanswered.folders, ?_⟩
            apply (Table.forall_put_iff hanswered.documents).mpr hanswers

end

/-- In a run no call on folders or documents ends in an internal error exactly when the database
accepts the statements of all steps. -/
theorem answered_iff {s s' : State config} {ts : List (Transition (State config) Label)}
    (hinit : (system config unicode hashtext).init s)
    (hrun : (system config unicode hashtext).Run s ts s') :
  (∀ t ∈ ts, t.target.Answered) ↔ ∀ t ∈ ts, Accepted t.source t.label
  := by
  have hinvariant : Invariant hashtext s := invariant_init hinit
  have hanswered : s.Answered := answered_init hinit
  clear hinit
  induction hrun with
  | nil => simp
  | @cons s₁ s₂ s₃ a ts hstep hrun ih =>
      have hiff := hanswered.step_iff hinvariant hstep
      simp only [List.forall_mem_cons, hiff]
      apply and_congr_right
      intro haccepted
      apply ih (hinvariant.step hstep).1 (hiff.mpr haccepted)

/-! A folder is removed between the statement that looks it up and the one that inserts a document
into it, and the title of a document is set to `null`. -/

def removeBefore : List Label :=
  fileTwice ++ [.folders (.call 2 7 (.remove 1)), .folders (.step 2 .lock),
    .folders (.step 2 .advance), .folders (.step 2 .advance), .folders (.step 2 .advance),
    .documents (.step 2 (.insert 11))]

def saveNullTitle : List Label :=
  [.documents (.call 1 7 (.create ⟨js "First", none, none⟩)), .documents (.step 1 (.insert 10)),
    .documents (.call 2 7 (.update 10 ⟨some none, none, none⟩)), .documents (.step 2 .advance),
    .documents (.step 2 .advance)]

theorem answered_iff_of_removeBefore :
  ∃ ts s, (system sampleConfig asciiUnicode id).Run sampleState ts s
    ∧ ts.map Transition.label = removeBefore
    ∧ s.documentCalls.rows.map (fun c => c.phase.answers) = [true, false]
    ∧ ((∀ t ∈ ts, t.target.Answered) ↔ ∀ t ∈ ts, Accepted t.source t.label)
  := by
  have hsome : ((system sampleConfig asciiUnicode id).execute (fun _ => true) sampleState
      removeBefore).any (fun s => s.documentCalls.rows.map (fun c => c.phase.answers) = [true, false])
      = true := by
    decide +kernel
  obtain ⟨s, hs, hend⟩ := (Option.any_eq_true _ _).mp hsome
  obtain ⟨ts, hrun, -, hlabels⟩ := TransitionSystem.run_of_execute_labels hs
  refine ⟨ts, s, hrun, hlabels, of_decide_eq_true hend, answered_iff ?_ hrun⟩
  exact ⟨⟨rfl, rfl⟩, ⟨rfl, rfl, rfl, rfl, rfl, rfl⟩, ⟨⟨rfl, rfl, rfl, rfl⟩, rfl⟩, rfl⟩

theorem not_answered_of_saveNullTitle :
  ∃ ts s, (system sampleConfig asciiUnicode id).init sampleState
    ∧ (system sampleConfig asciiUnicode id).Run sampleState ts s
    ∧ ts.map Transition.label = saveNullTitle
    ∧ ∃ c ∈ s.documentCalls.rows, c.phase.answers = false
  := by
  have hsome : ((system sampleConfig asciiUnicode id).execute (fun _ => true) sampleState
      saveNullTitle).any (fun s => s.documentCalls.rows.any fun c => !c.phase.answers) = true := by
    decide +kernel
  obtain ⟨s, hs, hend⟩ := (Option.any_eq_true _ _).mp hsome
  obtain ⟨c, hc, hanswers⟩ := List.any_eq_true.mp hend
  obtain ⟨ts, hrun, -, hlabels⟩ := TransitionSystem.run_of_execute_labels hs
  refine ⟨ts, s, ?_, hrun, hlabels, c, hc, by simpa using hanswers⟩
  exact ⟨⟨rfl, rfl⟩, ⟨rfl, rfl, rfl, rfl, rfl, rfl⟩, ⟨⟨rfl, rfl, rfl, rfl⟩, rfl⟩, rfl⟩

end Backend

end DocuAI

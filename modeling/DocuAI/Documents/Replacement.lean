import DocuAI.Documents.Deletion

/-!
# Replacement of files

A URL outlives the upload it was issued for: until it expires, its holder can overwrite the object
under its key, also after `completeUpload` has verified it.  The file of a READY document is the one
that was verified as long as no such upload brings other bytes, and no rejection finds the document
READY.
-/

namespace DocuAI

namespace Documents

variable {config : DocumentsConfig} {storage : StorageConfig} {unicode : Unicode}

/-! ### Files -/

/-- The bytes stored under a key. -/
def bytesUnder (s : State config) (key : StorageKey) : Option (List UInt8) :=
  (s.objects.find key).map StoredObject.bytes

/-- The key the call verifies with the next request. -/
def Call.verifying (c : Call config) : Option StorageKey :=
  match c.phase with
  | .verifying _ key _ => some key
  | _ => none

/-- The key the call has verified, when the next statement makes the document READY. -/
def Call.accepting (c : Call config) : Option StorageKey :=
  match c.phase with
  | .accepting _ key _ => some key
  | _ => none

/-- The call has made the document READY with the last statement. -/
def Call.completing (documentId : ℕ) (c : Call config) : Bool :=
  c.phase.completes documentId

/-- By the transition the call verifies the object under the key. -/
def Verifies (callId : ℕ) (key : StorageKey) (t : Transition (State config) Label) : Prop :=
  (t.source.calls.find callId).bind Call.verifying = some key
    ∧ (t.target.calls.find callId).bind Call.accepting = some key

/-- By the transition the call makes the document READY under the key it has verified. -/
def Completes (callId documentId : ℕ) (key : StorageKey) (t : Transition (State config) Label) :
    Prop :=
  (t.source.calls.find callId).bind Call.accepting = some key
    ∧ (t.target.calls.find callId).any (Call.completing documentId) = true

/-- From the transition that makes the document READY until the document is deleted, the bytes under
its key are those that were there when the call that made it READY verified them. -/
def KeepsVerifiedFile (documentId : ℕ) (ts : List (Transition (State config) Label)) : Prop :=
  ∀ before t after, ts = before ++ t :: after → EntersReady documentId t = true →
    ∃ callId key, Completes callId documentId key t ∧ ∃ verified ∈ before,
      Verifies callId key verified ∧ ∀ t' ∈ t :: after, ∀ r ∈ t'.target.documents.find documentId,
        r.status = .READY → r.storageKey = some key
          ∧ bytesUnder t'.target key = bytesUnder verified.source key

/-- An upload does not bring other bytes under a key of a READY document, or under a key that a call
has verified. -/
def PutsSafely (t : Transition (State config) Label) : Prop :=
  match t.label with
  | .put url _ bytes _ =>
      ReadyUnder t.source url.key ∨ (∃ c ∈ t.source.calls.rows, c.accepting = some url.key) →
        bytesUnder t.source url.key = some bytes
  | _ => True

instance (t : Transition (State config) Label) : Decidable (PutsSafely t) := by
  unfold PutsSafely
  split
  · infer_instance
  · infer_instance

section

variable {s s' : State config}

/-! ### What a step does to the objects -/

/-- What a step does to the objects: nothing, an upload, or the deletion of an object. -/
inductive ObjectsStep (s : State config) (label : Label) : Table StoredObject.key → Prop where
  | same : ObjectsStep s label s.objects
  | put {url : PresignedUrl} {contentType : JsString} {bytes : List UInt8} {etag : Option JsString}
      {object : StoredObject} (hlabel : label = .put url contentType bytes etag)
      (hkey : object.key = url.key) (hbytes : object.bytes = bytes) :
      ObjectsStep s label (s.objects.put object)
  | delete {c : Call config} {key : StorageKey} (hc : c ∈ s.calls.rows)
      (hdeleting : c.deleting = some key) : ObjectsStep s label (s.objects.erase key)

section

variable {c : Call config}

theorem Call.objects_create {dto : CreateDocumentDto} {id : ℕ} {next : State config × Phase config}
    (h : c.create s dto id = some next) :
  next.1.objects = s.objects
  := by
  obtain ⟨-, hsame, -⟩ | ⟨_, -, -, hrecord, -⟩ := create_cases h
  · rw [hsame]
  · rw [hrecord]
    rfl

theorem Call.objects_issue {current : Document} {declaration : Declaration config} {random : ℕ}
    {next : State config × Phase config} (h : c.issue s current declaration random = some next) :
  next.1.objects = s.objects
  := by
  obtain ⟨upload, -, -, hsent, -⟩ := issue_cases h
  rw [hsent]
  rfl

theorem Call.objects_save (current : Document) (data : DocumentData) :
  (c.save s current data).1.objects = s.objects
  := by
  simp only [save]
  split
  · rfl
  · split
    · split <;> rfl
    · rfl

theorem Call.objects_verify (current : Document) (key : StorageKey) (dto : CompleteUploadDto)
    (answer : Option StoredObjectMetadata) :
  (verify unicode s current key dto answer).1.objects = s.objects
  := by
  simp only [verify]
  split
  · rfl
  · split <;> rfl

theorem Call.objects_confirm (documentId : ℕ) (head : StoredObjectMetadata) (completed : Bool) :
  (c.confirm s documentId head completed).1.objects = s.objects
  := by
  simp only [confirm]
  split
  · rfl
  · split
    · rfl
    · split <;> rfl

theorem Call.objects_remove (documentId deletedAt : ℕ) :
  (c.remove s documentId deletedAt).1.objects = s.objects
  := by
  simp only [remove]
  split <;> rfl

theorem Call.objects_deny (documentId : ℕ) :
  (c.deny s documentId).1.objects = s.objects
  := by
  simp only [deny]
  split <;> rfl

theorem Call.objects_denyFolder (folderId : ℕ) :
  (c.denyFolder s folderId).1.objects = s.objects
  := by
  simp only [denyFolder]
  split <;> rfl

theorem Call.objects_withOwned (documentId : ℕ) (next : Document → Phase config) :
  (c.withOwned s documentId next).1.objects = s.objects
  := by
  simp only [withOwned]
  split <;> rfl

/-- The next statement of a call deletes the object of its key, or leaves the objects alone. -/
theorem Call.objects_advance {next : State config × Phase config}
    (h : c.advance storage unicode s = some next) :
  next.1.objects = s.objects
    ∨ ∃ key, c.deleting = some key ∧ next.1.objects = s.objects.erase key
  := by
  cases hphase : c.phase with
  | superseding documentId key upload =>
      simp only [advance, hphase] at h
      obtain rfl := Option.some.inj h
      exact .inr ⟨key, by simp [Call.deleting, hphase], rfl⟩
  | discarding current key problems =>
      simp only [advance, hphase] at h
      obtain rfl := Option.some.inj h
      exact .inr ⟨key, by simp [Call.deleting, hphase], rfl⟩
  | updating | requesting | completing =>
      left
      simp only [advance, hphase] at h
      obtain rfl := Option.some.inj h
      apply objects_withOwned
  | saving =>
      left
      simp only [advance, hphase] at h
      obtain rfl := Option.some.inj h
      apply objects_save
  | confirming =>
      left
      simp only [advance, hphase] at h
      obtain rfl := Option.some.inj h
      apply objects_confirm
  | removing =>
      left
      simp only [advance, hphase] at h
      obtain rfl := Option.some.inj h
      apply objects_remove
  | denying =>
      left
      simp only [advance, hphase] at h
      obtain rfl := Option.some.inj h
      apply objects_deny
  | denyingFolder =>
      left
      simp only [advance, hphase] at h
      obtain rfl := Option.some.inj h
      apply objects_denyFolder
  | saved | presigned =>
      left
      simp only [advance, hphase] at h
      split at h
      · obtain rfl := Option.some.inj h
        rfl
      · obtain rfl := Option.some.inj h
        rfl
  | creatingIn | moving | presigning | accepting | rejecting =>
      left
      simp only [advance, hphase] at h
      obtain rfl := Option.some.inj h
      rfl
  | creating | issuing | verifying | returned | rejected =>
      simp only [advance, hphase, reduceCtorEq] at h

/-- A step of a call deletes the object of its key, or leaves the objects alone. -/
theorem Call.objects_act {action : Action} {next : State config × Phase config}
    (h : c.act storage unicode s action = some next) :
  next.1.objects = s.objects
    ∨ ∃ key, c.deleting = some key ∧ next.1.objects = s.objects.erase key
  := by
  cases action with
  | advance => apply objects_advance h
  | insert id =>
      left
      simp only [act] at h
      split at h
      · apply objects_create h
      · cases h
  | issue random =>
      left
      simp only [act] at h
      split at h
      · apply objects_issue h
      · cases h
  | head answer =>
      left
      simp only [act] at h
      split at h
      · obtain rfl := Option.some.inj h
        apply objects_verify
      · cases h
  | undeleted =>
      left
      simp only [act] at h
      split at h
      · obtain rfl := Option.some.inj h
        rfl
      · obtain rfl := Option.some.inj h
        rfl
      · cases h
  | throw =>
      left
      rw [(throw_cases h).1]

end

/-- What a step of the system does to the objects. -/
theorem objectsStep_of_step {label : Label}
    (h : (system config storage unicode).step s label = some s') :
  ObjectsStep s label s'.objects
  := by
  change step storage unicode s label = some s' at h
  cases label with
  | tick ms =>
      obtain rfl := Option.some.inj h
      exact .same
  | call id userId operation =>
      obtain ⟨calls, -, h⟩ := Option.bind_eq_some_iff.mp h
      obtain rfl := Option.some.inj h
      exact .same
  | step callId action =>
      obtain ⟨c, hc, h⟩ := Option.bind_eq_some_iff.mp h
      obtain ⟨next, hact, h⟩ := Option.bind_eq_some_iff.mp h
      obtain rfl := Option.some.inj h
      simp only
      rcases Call.objects_act hact with hsame | ⟨key, hdeleting, herase⟩
      · rw [hsame]
        exact .same
      · rw [herase]
        exact .delete (Table.mem_of_find hc) hdeleting
  | put url contentType bytes etag =>
      simp only [step] at h
      split at h
      · obtain rfl := Option.some.inj h
        exact .put rfl rfl rfl
      · cases h
  | writeFolder folder =>
      obtain rfl := Option.some.inj h
      exact .same
  | removeFolder userId folderId =>
      obtain ⟨documents, folders, events, rfl⟩ := State.removeFolder_eq_some h
      exact .same
  | setTotalPages documentId totalPages =>
      obtain rfl := Option.some.inj h
      exact .same

/-- A step that uploads safely leaves the bytes under a protected key alone, unless the key is
dead. -/
theorem bytesUnder_step {label : Label}
    (h : (system config storage unicode).step s label = some s')
    (hputs : PutsSafely ⟨s, label, s'⟩) (hdeletes : DeletesDead s) {key : StorageKey}
    (hprotected : ReadyUnder s key ∨ ∃ c ∈ s.calls.rows, c.accepting = some key) :
  bytesUnder s' key = bytesUnder s key ∨ Dead s key
  := by
  unfold bytesUnder
  generalize s'.objects = objects, objectsStep_of_step h = hobjects
  cases hobjects with
  | same => exact .inl rfl
  | @put url contentType bytes etag object hlabel hkey hbytes =>
      left
      rw [Table.find_put]
      split
      · rename_i heq
        rw [hkey] at heq
        simp only [PutsSafely, hlabel, ← heq] at hputs
        rw [← bytesUnder, hputs hprotected, Option.map_some, hbytes]
      · rfl
  | @delete c deleted hc hdeleting =>
      rw [Table.find_erase]
      split
      · rename_i heq
        right
        rw [heq]
        apply hdeletes c hc deleted hdeleting
      · exact .inl rfl

/-! ### Verification and completion -/

/-- Only the statement of `completeUpload` makes a document READY. -/
theorem ready_of_apply {w : DocumentWrite config} {now : ℕ} {r : Document}
    (hw : ∀ id userId key size type, w ≠ .complete id userId key size type)
    (h : ((w.update now).apply r).status = .READY) :
  r.status = .READY
  := by
  cases hguard : (w.update now).guard r with
  | false =>
      rw [Update.apply_of_not_guard _ hguard] at h
      apply h
  | true =>
      rw [Update.apply_of_guard _ hguard] at h
      cases w with
      | complete id userId key size type => exact absurd rfl (hw id userId key size type)
      | save | setTotalPages | unfile | unreference => apply h
      | issue | reject | remove => cases h

/-- A write that is not the statement of `completeUpload` leaves a document READY or not. -/
theorem ready_of_send {w : DocumentWrite config} {documentId : ℕ}
    (hw : ∀ id userId key size type, w ≠ .complete id userId key size type)
    (h : ∃ r ∈ (s.send w).1.documents.find documentId, r.status = .READY) :
  ∃ r ∈ s.documents.find documentId, r.status = .READY
  := by
  obtain ⟨r', hr', hready⟩ := h
  change (s.documents.updateMany (w.update s.now)).1.find documentId = some r' at hr'
  rw [Table.find_updateMany] at hr'
  obtain ⟨r, hr, rfl⟩ := Option.map_eq_some_iff.mp hr'
  exact ⟨r, hr, ready_of_apply hw hready⟩

/-- The statement of `completeUpload` that makes a document READY finds it UPLOADING under the key
of the call. -/
theorem complete_of_ready {id userId size documentId : ℕ} {key : StorageKey}
    {type : Option JsString} {r' : Document}
    (hr' : (s.send (.complete id userId key size type)).1.documents.find documentId = some r')
    (hready : r'.status = .READY)
    (hnot : ¬∃ r ∈ s.documents.find documentId, r.status = .READY) :
  documentId = id ∧ (s.send (.complete id userId key size type)).2 = 1
    ∧ r'.storageKey = some key
    ∧ ∃ r ∈ s.documents.find documentId, r.status = .UPLOADING ∧ r.storageKey = some key
  := by
  let u := (DocumentWrite.complete id userId key size type : DocumentWrite config).update s.now
  change (s.documents.updateMany u).1.find documentId = some r' at hr'
  rw [Table.find_updateMany] at hr'
  obtain ⟨r, hr, rfl⟩ := Option.map_eq_some_iff.mp hr'
  cases hguard : u.guard r with
  | false =>
      rw [u.apply_of_not_guard hguard] at hready
      exact absurd ⟨r, hr, hready⟩ hnot
  | true =>
      have hid : ∀ r, u.guard r = true → r.id = id := by
        intro r hguard
        simp only [u, DocumentWrite.update, Bool.and_eq_true, decide_eq_true_eq] at hguard
        apply hguard.1.1.1.1
      obtain rfl := hid r hguard
      obtain rfl := Table.key_of_find hr
      have hcount : (s.documents.updateMany u).2 = 1 :=
        (Table.count_eq_one_iff hid).mpr ⟨r, hr, hguard⟩
      simp only [u, DocumentWrite.update, Bool.and_eq_true, decide_eq_true_eq] at hguard
      obtain ⟨⟨-, huploading⟩, hkey⟩ := hguard
      refine ⟨rfl, hcount, ?_, r, hr, huploading, hkey⟩
      rw [← hkey]
      simp only [Update.apply]
      split <;> rfl

/-- The step that makes a document READY is the statement of a call, and finds the document
UPLOADING under the key the call has verified. -/
theorem Moves.completes (h : Moves unicode s s') {documentId : ℕ} {r' : Document}
    (hr' : s'.documents.find documentId = some r') (hready : r'.status = .READY)
    (hnot : ¬∃ r ∈ s.documents.find documentId, r.status = .READY) :
  ∃ callId key, (s.calls.find callId).bind Call.accepting = some key
    ∧ (s'.calls.find callId).any (Call.completing documentId) = true
    ∧ s'.objects = s.objects ∧ r'.storageKey = some key
    ∧ ∃ r ∈ s.documents.find documentId, r.status = .UPLOADING ∧ r.storageKey = some key
  := by
  have hsend {w : DocumentWrite config} (hw : ∀ id userId key size type,
      w ≠ .complete id userId key size type)
      (hr' : (s.send w).1.documents.find documentId = some r') : False :=
    hnot (ready_of_send hw ⟨r', hr', hready⟩)
  cases h with
  | other => exact absurd ⟨r', hr', hready⟩ hnot
  | calls => exact absurd ⟨r', hr', hready⟩ hnot
  | removesFolder =>
      have hunfiled := ready_of_send (by rintro _ _ _ _ _ ⟨⟩) ⟨r', hr', hready⟩
      exact absurd (ready_of_send (by rintro _ _ _ _ _ ⟨⟩) hunfiled) hnot
  | setsTotalPages => exact (hsend (by rintro _ _ _ _ _ ⟨⟩) hr').elim
  | @acts c t phase hfind hacts =>
      cases hacts with
      | plain | reads | verifies | confirms => exact absurd ⟨r', hr', hready⟩ hnot
      | @creates documents _ _ _ _ _ _ hcreate =>
          change documents.find documentId = some r' at hr'
          rw [Table.find_create hcreate] at hr'
          split at hr'
          · obtain rfl := Option.some.inj hr'
            cases hready
          · exact absurd ⟨r', hr', hready⟩ hnot
      | saves | removes | issues | rejects =>
          exact (hsend (by rintro _ _ _ _ _ ⟨⟩) hr').elim
      | @accepts current key head hphase =>
          obtain ⟨rfl, hcount, hkey, hrow⟩ := complete_of_ready hr' hready hnot
          refine ⟨c.id, key, ?_, ?_, rfl, hkey, hrow⟩
          · simp [hfind, Call.accepting, hphase]
          · simp only [Table.find_put, if_true, Option.any_some, Call.completing]
            apply Phase.completes_confirming.mpr ⟨rfl, decide_eq_true hcount⟩

theorem Call.accepting_of_plain {c : Call config} (h : c.phase.plain = true) :
  c.accepting = none
  := by
  obtain ⟨_, _, phase⟩ := c
  cases phase with
  | accepting => cases h
  | _ => rfl

/-- A call that comes to know a verified key has verified the object under it. -/
theorem Moves.verifies (h : Moves unicode s s') {callId : ℕ} {key : StorageKey}
    (hnot : (s.calls.find callId).bind Call.accepting ≠ some key)
    (haccepts : (s'.calls.find callId).bind Call.accepting = some key) :
  (s.calls.find callId).bind Call.verifying = some key ∧ s'.objects = s.objects
  := by
  cases h with
  | other | removesFolder | setsTotalPages => exact absurd haccepts hnot
  | @calls c calls hcreate hplain =>
      change (calls.find callId).bind Call.accepting = some key at haccepts
      rw [Table.find_create hcreate] at haccepts
      split at haccepts
      · rw [Option.bind_some, Call.accepting_of_plain hplain] at haccepts
        cases haccepts
      · exact absurd haccepts hnot
  | @acts c t phase hfind hacts =>
      simp only [Table.find_put] at haccepts
      split at haccepts
      · rename_i hid
        rw [Option.bind_some] at haccepts
        cases hacts with
        | plain _ hplain | creates _ _ _ hplain | saves _ hplain | removes _ hplain
        | confirms _ hplain =>
            rw [Call.accepting_of_plain hplain] at haccepts
            cases haccepts
        | reads _ hphase =>
            rcases hphase with ⟨_, rfl⟩ | ⟨_, _, -, rfl⟩ <;> cases haccepts
        | issues _ _ _ hnext =>
            rcases hnext with hplain | ⟨-, _, -, rfl⟩
            · rw [Call.accepting_of_plain hplain] at haccepts
              cases haccepts
            · cases haccepts
        | verifies hphase hnext =>
            rcases hnext with ⟨-, rfl⟩ | ⟨_, rfl⟩
            · obtain rfl := Option.some.inj haccepts
              simp [hid, hfind, Call.verifying, hphase]
            · cases haccepts
        | accepts | rejects => cases haccepts
      · exact absurd haccepts hnot

/-- A READY document stays READY under its key, or is deleted. -/
theorem RowStep.ready {row' : Option Document} {r : Document} {key : StorageKey}
    (h : RowStep unicode s s' (some r) row') (hready : r.status = .READY)
    (hkey : r.storageKey = some key) :
  ∃ r', row' = some r'
    ∧ (r'.status = .READY ∧ r'.storageKey = some key ∨ r'.status = .DELETED)
  := by
  cases h with
  | kept => exact ⟨r, rfl, .inl ⟨hready, hkey⟩⟩
  | refiled h =>
      refine ⟨_, rfl, .inl ?_⟩
      rw [h]
      exact ⟨hready, hkey⟩
  | @written w hsends =>
      refine ⟨_, rfl, ?_⟩
      cases hguard : (w.update s.now).guard r with
      | false =>
          rw [Update.apply_of_not_guard _ hguard]
          exact .inl ⟨hready, hkey⟩
      | true =>
          rw [Update.apply_of_guard _ hguard]
          cases hsends with
          | save | setTotalPages => exact .inl ⟨hready, hkey⟩
          | remove => exact .inr rfl
          | issue | complete | reject =>
              -- These statements ask for another status.
              simp [DocumentWrite.update, hready, UPLOADABLE_STATUSES] at hguard

/-! ### Runs -/

/-- What holds of every state of a run that rejects safely. -/
structure Safe (unicode : Unicode) (s : State config) : Prop where
  invariant : Invariant unicode s
  deletes : DeletesDead s

theorem Safe.step {label : Label} (h : Safe unicode s)
    (hstep : (system config storage unicode).step s label = some s')
    (hrejects : RejectsSafely ⟨s, label, s'⟩) :
  Safe unicode s'
  := by
  constructor
  · apply (moves_of_step hstep).invariant h.invariant
  · apply h.deletes.step h.invariant hstep hrejects

theorem safe_init (h : (system config storage unicode).init s) :
  Safe unicode s
  := by
  constructor
  · apply invariant_init h
  · obtain ⟨-, hcalls, -⟩ := h
    simp [DeletesDead, hcalls]

/-- The file a call has verified is still there, or no document will be READY under its key. -/
def Pending (callId : ℕ) (key : StorageKey) (bytes : Option (List UInt8)) (s : State config) :
    Prop :=
  (s.calls.find callId).bind Call.accepting = some key ∧ (bytesUnder s key = bytes ∨ Dead s key)

/-- The document is READY with the bytes under the key, or deleted. -/
def Kept (documentId : ℕ) (key : StorageKey) (bytes : Option (List UInt8)) (s : State config) :
    Prop :=
  ∃ r ∈ s.documents.find documentId,
    r.status = .READY ∧ r.storageKey = some key ∧ bytesUnder s key = bytes
      ∨ r.status = .DELETED

/-- A step that uploads safely keeps a verified file. -/
theorem Pending.step {label : Label} {callId : ℕ} {key : StorageKey}
    {bytes : Option (List UInt8)} (h : Pending callId key bytes s) (hsafe : Safe unicode s)
    (hstep : (system config storage unicode).step s label = some s')
    (hputs : PutsSafely ⟨s, label, s'⟩)
    (haccepts : (s'.calls.find callId).bind Call.accepting = some key) :
  Pending callId key bytes s'
  := by
  obtain ⟨hsource, hbytes⟩ := h
  use haccepts
  have hdead (hdead : Dead s key) : Dead s' key := hdead.step (moves_of_step hstep)
  rcases hbytes with hbytes | hbytes
  · obtain ⟨c, hc, haccepting⟩ := Option.bind_eq_some_iff.mp hsource
    have hprotected : ReadyUnder s key ∨ ∃ c ∈ s.calls.rows, c.accepting = some key :=
      .inr ⟨c, Table.mem_of_find hc, haccepting⟩
    rcases bytesUnder_step hstep hputs hsafe.deletes hprotected with hsame | h
    · rw [hsame]
      exact .inl hbytes
    · exact .inr (hdead h)
  · exact .inr (hdead hbytes)

/-- A step that uploads safely keeps the file of a READY document. -/
theorem Kept.step {label : Label} {documentId : ℕ} {key : StorageKey}
    {bytes : Option (List UInt8)} (h : Kept documentId key bytes s) (hsafe : Safe unicode s)
    (hstep : (system config storage unicode).step s label = some s')
    (hputs : PutsSafely ⟨s, label, s'⟩) :
  Kept documentId key bytes s'
  := by
  obtain ⟨r, hr, hcases⟩ := h
  have hrow := (moves_of_step hstep).rowStep documentId
  rw [hr] at hrow
  have hmarked := (hsafe.invariant.rows documentId r hr).marked
  rcases hcases with ⟨hready, hkey, hbytes⟩ | hdeleted
  · obtain ⟨r', hr', hcases⟩ := hrow.ready hready hkey
    refine ⟨r', hr', ?_⟩
    rcases hcases with ⟨hready', hkey'⟩ | hdeleted'
    · left
      refine ⟨hready', hkey', ?_⟩
      have hunder : ReadyUnder s key :=
        ⟨r, Table.mem_of_find hr, hkey, hready, hmarked.live (by simp [hready])⟩
      rcases bytesUnder_step hstep hputs hsafe.deletes (.inl hunder) with hsame | hdead
      · rw [hsame, hbytes]
      · exact absurd hunder hdead.not_readyUnder
    · exact .inr hdeleted'
  · obtain ⟨r', hr', hmoves⟩ := hrow.moves hmarked
    refine ⟨r', hr', .inr ?_⟩
    have hmove := hmoves.status
    rw [hdeleted] at hmove
    apply hmove.of_deleted

end

/-- In every run in which no upload brings other bytes under a key that a call has verified or a
document is READY under, and `rejectUpload` never finds its document READY under the key it rejects,
the bytes of a READY document stay those that were verified. -/
theorem keeps_verified_file {s₀ s : State config} {ts : List (Transition (State config) Label)}
    (hrun : (system config storage unicode).Run s₀ ts s)
    (hinit : (system config storage unicode).init s₀) (hputs : ∀ t ∈ ts, PutsSafely t)
    (hrejects : ∀ t ∈ ts, RejectsSafely t) (documentId : ℕ) :
  KeepsVerifiedFile documentId ts
  := by
  have hsafe : ∀ t ∈ ts, Safe unicode t.source :=
    fun t ht => hrun.invariant_source (Safe unicode) (safe_init hinit)
      (fun t ht hstep hsafe => hsafe.step hstep (hrejects t ht)) ht
  rintro before t after rfl henters
  have hmem : t ∈ before ++ t :: after := List.mem_append_right _ List.mem_cons_self
  obtain ⟨hbefore, hafter⟩ := hrun.of_append_cons
  -- The step is the statement of a call.
  simp only [EntersReady, Bool.and_eq_true, Option.any_eq_true, Option.all_eq_true,
    decide_eq_true_eq] at henters
  obtain ⟨hnot, r', hr', hready⟩ := henters
  obtain ⟨callId, key, haccepts, hcompletes, hobjects, hkey', r, hr, huploading, hkey⟩ :=
    (moves_of_step (hrun.step_of_mem hmem)).completes hr' hready
      (by rintro ⟨r, hr, hready⟩; exact hnot r hr hready)
  refine ⟨callId, key, ⟨haccepts, hcompletes⟩, ?_⟩
  -- The call has verified the key, and has known it since then.
  obtain ⟨before, verified, between, rfl, hnew, hknown⟩ := hbefore.exists_last_entry
    (P := fun s => (s.calls.find callId).bind Call.accepting = some key)
    (by simp [Table.find_of_rows_eq_nil hinit.2.1]) haccepts
  obtain ⟨-, hbetween⟩ := hbefore.of_append_cons
  use verified, List.mem_append_right _ List.mem_cons_self
  have hsub : ∀ u ∈ verified :: between, u ∈ (before ++ verified :: between) ++ t :: after := by
    intro u hu
    exact List.mem_append_left _ (List.mem_append_right _ hu)
  have hverified := hsub verified List.mem_cons_self
  have haccepts' := hknown verified List.mem_cons_self
  obtain ⟨hverifying, hsame⟩ :=
    (moves_of_step (hrun.step_of_mem hverified)).verifies hnew haccepts'
  use ⟨hverifying, haccepts'⟩
  have hpending : Pending callId key (bytesUnder verified.source key) t.source := by
    apply hbetween.invariant
    · use haccepts'
      rw [bytesUnder, hsame]
      exact .inl rfl
    · intro u hu hstep hpending
      have hmem := hsub u (List.mem_cons_of_mem _ hu)
      exact hpending.step (hsafe u hmem) hstep (hputs u hmem) (hknown u (List.mem_cons_of_mem _ hu))
  -- The document was UPLOADING under the key, so that the file is still there.
  have hbytes : bytesUnder t.source key = bytesUnder verified.source key := by
    rcases hpending.2 with hbytes | hdead
    · apply hbytes
    · exact absurd huploading (hdead.rows documentId r hr hkey).1
  have hkept : Kept documentId key (bytesUnder verified.source key) t.target := by
    refine ⟨r', hr', .inl ⟨hready, hkey', ?_⟩⟩
    rw [bytesUnder, hobjects, ← bytesUnder, hbytes]
  have hall : ∀ t' ∈ t :: after,
      Kept documentId key (bytesUnder verified.source key) t'.target := by
    rw [List.forall_mem_cons]
    use hkept
    intro t' ht'
    apply hafter.invariant_target (Kept documentId key (bytesUnder verified.source key)) hkept _ ht'
    intro u hu hstep hkept
    have hmem := List.mem_append_right (before ++ verified :: between) (List.mem_cons_of_mem t hu)
    exact hkept.step (hsafe u hmem) hstep (hputs u hmem)
  intro t' ht' r hr hready
  obtain ⟨r₁, hr₁, hcases⟩ := hall t' ht'
  obtain rfl := Option.some.inj (hr.symm.trans hr₁)
  rcases hcases with ⟨-, hkey, hbytes⟩ | hdeleted
  · exact ⟨hkey, hbytes⟩
  · rw [hdeleted] at hready
    cases hready

/-- The upload is completed. -/
def complete : List Label :=
  [.call 3 7 (.completeUpload 1 ⟨none⟩), .step 3 .advance, .step 3 (.head (some sampleHead)),
    .step 3 .advance, .step 3 .advance]

/-- A client uploads the bytes through the URL of the sample document. -/
def upload (bytes : List UInt8) (etag : JsString) : Label :=
  .put ⟨⟨7, 1, 5⟩, js "application/pdf", 10, 900000, 900⟩ (js "application/pdf") bytes (some etag)

/-- An upload that repeats the bytes of the READY document leaves its file as it was verified. -/
theorem keeps_verified_file_of_repeatedUpload :
  ∃ ts s, (system sampleConfig sampleStorage asciiUnicode).Run sampleState ts s
    ∧ ReadyUnder s ⟨7, 1, 5⟩ ∧ bytesUnder s ⟨7, 1, 5⟩ = some sampleBytes
    ∧ KeepsVerifiedFile 1 ts
  := by
  have hsome : ((system sampleConfig sampleStorage asciiUnicode).execute
      (fun t => decide (PutsSafely t) && decide (RejectsSafely t)) sampleState
        (createAndUpload ++ complete ++ [upload sampleBytes (js "abc123")])).any
          (fun s => decide (ReadyUnder s ⟨7, 1, 5⟩)
            && bytesUnder s ⟨7, 1, 5⟩ = some sampleBytes) = true := by
    decide +kernel
  obtain ⟨s, hs, hend⟩ := (Option.any_eq_true _ _).mp hsome
  obtain ⟨ts, hrun, hts⟩ := TransitionSystem.run_of_execute hs
  simp only [Bool.and_eq_true, decide_eq_true_eq] at hend hts
  refine ⟨ts, s, hrun, hend.1, hend.2, ?_⟩
  apply keeps_verified_file hrun ⟨rfl, rfl, rfl, rfl, rfl, rfl⟩
  · exact fun t ht => (hts t ht).1
  · exact fun t ht => (hts t ht).2

/-- Other bytes of the same length. -/
def otherBytes : List UInt8 := [0x25, 0x50, 0x44, 0x46, 0x2D, 0x31, 0x2E, 0x34, 0x0D, 0x0A]

/-- An upload through the URL that has not expired replaces the file of the READY document. -/
theorem upload_replaces_ready_file :
  ∃ ts s, (system sampleConfig sampleStorage asciiUnicode).init sampleState
    ∧ (system sampleConfig sampleStorage asciiUnicode).Run sampleState ts s
    ∧ ReadyUnder s ⟨7, 1, 5⟩ ∧ ¬KeepsVerifiedFile 1 ts
  := by
  have hsome : ((system sampleConfig sampleStorage asciiUnicode).execute
      (fun t => t.source.calls.rows.all fun c => c.verifying.all fun key =>
        bytesUnder t.source key = some sampleBytes) sampleState
          (createAndUpload ++ complete ++ [upload otherBytes (js "def456")])).any
            (fun s => decide (ReadyUnder s ⟨7, 1, 5⟩)
              && (s.documents.find 1).any (fun r => r.status = .READY
                && r.storageKey = some ⟨7, 1, 5⟩)
              && bytesUnder s ⟨7, 1, 5⟩ = some otherBytes) = true := by
    decide +kernel
  obtain ⟨s, hs, hend⟩ := (Option.any_eq_true _ _).mp hsome
  obtain ⟨ts, hrun, hts⟩ := TransitionSystem.run_of_execute hs
  simp only [Bool.and_eq_true, decide_eq_true_eq, Option.any_eq_true] at hend
  obtain ⟨⟨hready, r, hr, hstatus, hkey⟩, hbytes⟩ := hend
  refine ⟨ts, s, ⟨rfl, rfl, rfl, rfl, rfl, rfl⟩, hrun, hready, ?_⟩
  intro hkeeps
  obtain ⟨before, t, after, rfl, hnot, htargets⟩ := hrun.exists_last_entry
    (P := fun s => ∃ r ∈ s.documents.find 1, r.status = .READY)
    (by rintro ⟨_, h, -⟩; cases h) ⟨r, hr, hstatus⟩
  have henters : EntersReady 1 t = true := by
    simp only [EntersReady, Bool.and_eq_true, Option.all_eq_true, Option.any_eq_true,
      decide_eq_true_eq]
    exact ⟨fun r hr hready => hnot ⟨r, hr, hready⟩, htargets t List.mem_cons_self⟩
  obtain ⟨callId, key, -, verified, hverified, ⟨hverifying, -⟩, hsame⟩ :=
    hkeeps before t after rfl henters
  obtain ⟨s₁, -, hafter⟩ := hrun.of_append
  obtain ⟨t', ht', rfl⟩ := hafter.exists_target (List.cons_ne_nil t after)
  obtain ⟨hkey', hbytes'⟩ := hsame t' ht' r hr hstatus
  obtain rfl := Option.some.inj (hkey.symm.trans hkey')
  -- The call verified the bytes that were uploaded first.
  obtain ⟨c, hc, hkey''⟩ := Option.bind_eq_some_iff.mp hverifying
  have hfirst := hts verified (List.mem_append_left _ hverified)
  simp only [List.all_eq_true] at hfirst
  have hfirst := hfirst c (Table.mem_of_find hc)
  rw [hkey'', Option.all_some, decide_eq_true_eq] at hfirst
  rw [hbytes, hfirst] at hbytes'
  revert hbytes'
  decide

end Documents

end DocuAI

import DocuAI.Documents.Lifecycle

/-!
# Deletion of objects

A call deletes the object of a key it has replaced, or of a key it has rejected.  A replaced key is
in no row any more.  A rejected key is in a row that the statement of `rejectUpload` has made FAILED,
if it has changed a row at all, which the call does not check: as long as the statement never finds
the document READY under the key, no deletion hits the object of a READY document.
-/

namespace DocuAI

namespace Documents

variable {config : DocumentsConfig} {storage : StorageConfig} {unicode : Unicode}

/-- The key whose object the call deletes next. -/
def Call.deleting (c : Call config) : Option StorageKey :=
  match c.phase with
  | .superseding _ key _ | .discarding _ key _ => some key
  | _ => none

/-- The key the call rejects with the next statement. -/
def Call.rejecting (c : Call config) : Option StorageKey :=
  match c.phase with
  | .rejecting _ key _ => some key
  | _ => none

/-- The label is the next statement or request of the call. -/
def Label.advances (callId : ℕ) : Label → Bool
  | .step id .advance => id = callId
  | _ => false

/-- The label is the next request of the call, or its failure. -/
def Label.deletes (callId : ℕ) : Label → Bool
  | .step id .advance | .step id .undeleted => id = callId
  | _ => false

/-- A document that is READY, and not deleted, has its object under the key. -/
def ReadyUnder (s : State config) (key : StorageKey) : Prop :=
  ∃ r ∈ s.documents.rows, r.storageKey = some key ∧ r.status = .READY ∧ r.deletedAt = none

/-- A `deleteObject` of the transition is not for the object of a READY document. -/
def DeletesSafely (t : Transition (State config) Label) : Prop :=
  ∀ c ∈ t.source.calls.rows, t.label.deletes c.id = true → ∀ key ∈ c.deleting, ¬ReadyUnder t.source key

/-- When the transition is the statement of `rejectUpload`, no document is READY under the key the
call rejects. -/
def RejectsSafely (t : Transition (State config) Label) : Prop :=
  ∀ c ∈ t.source.calls.rows, t.label.advances c.id = true → ∀ key ∈ c.rejecting, ¬ReadyUnder t.source key

instance (s : State config) (key : StorageKey) : Decidable (ReadyUnder s key) :=
  inferInstanceAs (Decidable (∃ r ∈ s.documents.rows, _))

instance (t : Transition (State config) Label) : Decidable (DeletesSafely t) :=
  inferInstanceAs (Decidable (∀ c ∈ t.source.calls.rows, _))

instance (t : Transition (State config) Label) : Decidable (RejectsSafely t) :=
  inferInstanceAs (Decidable (∀ c ∈ t.source.calls.rows, _))

/-- The key was issued, and no document is UPLOADING or READY under it. -/
structure Dead (s : State config) (key : StorageKey) : Prop where
  issued : key ∈ s.issued.map Upload.storageKey
  rows : ∀ id r, s.documents.find id = some r → r.storageKey = some key →
    r.status ≠ .UPLOADING ∧ r.status ≠ .READY

/-- The keys of the objects about to be deleted are dead. -/
def DeletesDead (s : State config) : Prop :=
  ∀ c ∈ s.calls.rows, ∀ key, c.deleting = some key → Dead s key

section

variable {s s' : State config}

theorem Call.deleting_of_plain {c : Call config} (h : c.phase.plain = true) :
  c.deleting = none
  := by
  obtain ⟨_, _, phase⟩ := c
  cases phase with
  | superseding | discarding => cases h
  | _ => rfl

/-- No document is READY under a dead key. -/
theorem Dead.not_readyUnder {key : StorageKey} (h : Dead s key) :
  ¬ReadyUnder s key
  := by
  rintro ⟨r, hr, hkey, hready, -⟩
  exact (h.rows r.id r (Table.mem_rows_iff.mp hr) hkey).2 hready

/-- No document comes to be UPLOADING or READY under a dead key. -/
theorem RowStep.dead {row row' : Option Document} (h : RowStep unicode s s' row row')
    {key : StorageKey} (hissued : key ∈ s.issued.map Upload.storageKey)
    (hrow : ∀ r, row = some r → r.storageKey = some key → r.status ≠ .UPLOADING ∧ r.status ≠ .READY)
    {r' : Document} (hr' : row' = some r') (hkey : r'.storageKey = some key) :
  r'.status ≠ .UPLOADING ∧ r'.status ≠ .READY
  := by
  cases h with
  | kept => apply hrow r' hr' hkey
  | created =>
      obtain rfl := Option.some.inj hr'
      cases hkey
  | @refiled r _ h =>
      obtain rfl := Option.some.inj hr'
      rw [h] at hkey ⊢
      apply hrow r rfl hkey
  | @written w hsends r =>
      obtain rfl := Option.some.inj hr'
      cases hguard : (w.update s.now).guard r with
      | false =>
          rw [Update.apply_of_not_guard _ hguard] at hkey ⊢
          apply hrow r rfl hkey
      | true =>
          rw [Update.apply_of_guard _ hguard] at hkey ⊢
          cases hsends with
          | save | setTotalPages => apply hrow r rfl hkey
          | reject | remove => simp [DocumentWrite.update]
          | issue _ hfresh =>
              obtain rfl := Option.some.inj hkey
              exact absurd hissued hfresh
          | complete =>
              -- The statement asks for a document that is UPLOADING under the key.
              simp only [DocumentWrite.update, Bool.and_eq_true, decide_eq_true_eq] at hguard
              obtain ⟨⟨-, huploading⟩, -⟩ := hguard
              exact absurd huploading (hrow r rfl hkey).1

/-- No step brings a dead key back. -/
theorem Dead.step {key : StorageKey} (h : Dead s key) (hmoves : Moves unicode s s') :
  Dead s' key
  := by
  refine ⟨List.map_subset _ hmoves.grows.issued h.issued, ?_⟩
  intro id r' hr' hkey
  exact (hmoves.rowStep id).dead h.issued (h.rows id) hr' hkey

/-- Rows of a key belong to the document and the user the key was issued for. -/
theorem row_of_key {userId : ℕ} {current : Document} {key : StorageKey}
    (hknown : Known s.issued userId current) (hcurrent : current.storageKey = some key)
    (hinvariant : Invariant unicode s) {id : ℕ} {r : Document} (hr : s.documents.find id = some r)
    (hkey : r.storageKey = some key) :
  r.id = current.id ∧ r.userId = userId
  := by
  obtain ⟨hid, huser, -⟩ := hknown.declared key hcurrent
  obtain ⟨hid', huser', -⟩ := (hinvariant.rows id r hr).declared key hkey
  exact ⟨hid'.symm.trans hid, huser'.symm.trans (huser.trans hknown.owner)⟩

/-- The key a call has replaced is dead. -/
theorem dead_of_issue {userId : ℕ} {current : Document} {upload : Upload config} {key : StorageKey}
    (hknown : Known s.issued userId current) (hcurrent : current.storageKey = some key)
    (hfresh : upload.storageKey ∉ s.issued.map Upload.storageKey)
    (hcount : (s.send (.issue current.id userId upload)).2 = 1)
    (hgrows : Grows s s') (hinvariant : Invariant unicode s')
    (hdocuments : s'.documents = (s.send (.issue current.id userId upload)).1.documents) :
  Dead s' key
  := by
  have hissued : key ∈ s.issued.map Upload.storageKey := by
    obtain ⟨-, -, issued, hmem, rfl, -⟩ := hknown.declared key hcurrent
    apply List.mem_map_of_mem hmem
  refine ⟨List.map_subset _ hgrows.issued hissued, ?_⟩
  intro id r hr hkey
  obtain rfl := Table.key_of_find hr
  have hid := (row_of_key (hknown.mono hgrows) hcurrent hinvariant hr hkey).1
  have hguard : ∀ r, ((DocumentWrite.issue current.id userId upload).update s.now).guard r = true →
      r.id = current.id := by
    intro r hguard
    simp only [DocumentWrite.update, Bool.and_eq_true, decide_eq_true_eq] at hguard
    exact hguard.1.1.1
  obtain ⟨r₀, -, -, hr₀⟩ := Table.find_of_count hguard hcount
  rw [hdocuments, hid] at hr
  obtain rfl := Option.some.inj (hr₀.symm.trans hr)
  obtain rfl := Option.some.inj hkey
  exact absurd hissued hfresh

/-- The key a call has rejected is dead when no document was READY under it. -/
theorem dead_of_reject {userId : ℕ} {current : Document} {key : StorageKey}
    (hknown : Known s.issued userId current) (hcurrent : current.storageKey = some key)
    (hrejects : ¬ReadyUnder s key) (hinvariant : Invariant unicode s) (hgrows : Grows s s')
    (hdocuments : s'.documents = (s.send (.reject current.id userId key)).1.documents) :
  Dead s' key
  := by
  have hissued : key ∈ s.issued.map Upload.storageKey := by
    obtain ⟨-, -, issued, hmem, rfl, -⟩ := hknown.declared key hcurrent
    apply List.mem_map_of_mem hmem
  refine ⟨List.map_subset _ hgrows.issued hissued, ?_⟩
  intro id r' hr' hkey
  change s'.documents = (s.documents.updateMany _).1 at hdocuments
  rw [hdocuments, Table.find_updateMany] at hr'
  obtain ⟨r, hr, rfl⟩ := Option.map_eq_some_iff.mp hr'
  cases hguard : ((DocumentWrite.reject current.id userId key : DocumentWrite config).update
      s.now).guard r with
  | true =>
      rw [Update.apply_of_guard _ hguard]
      simp [DocumentWrite.update]
  | false =>
      rw [Update.apply_of_not_guard _ hguard] at hkey ⊢
      obtain ⟨hid, huser⟩ := row_of_key hknown hcurrent hinvariant hr hkey
      constructor
      · intro huploading
        simp [DocumentWrite.update, hid, huser, huploading, hkey] at hguard
      · intro hready
        apply hrejects
        have hlive := (hinvariant.rows id r hr).marked.live (by simp [hready])
        exact ⟨r, Table.mem_of_find hr, hkey, hready, hlive⟩

/-- A call that goes on from its rejection has sent the statement of `rejectUpload`. -/
theorem eq_advance_of_rejecting {label : Label} {c c' : Call config} {current : Document}
    {key : StorageKey} {problems : List Problem}
    (hstep : (system config storage unicode).step s label = some s')
    (hfind : s.calls.find c.id = some c) (hphase : c.phase = .rejecting current key problems)
    (hc' : c' ∈ s'.calls.rows) (hid' : c'.id = c.id) (hphase' : c'.deleting = some key) :
  label.advances c.id = true
  := by
  have hfind' := Table.mem_rows_iff.mp hc'
  rw [hid'] at hfind'
  have hsame (h : s'.calls.find c.id = some c) : label.advances c.id = true := by
    obtain rfl := Option.some.inj (hfind'.symm.trans h)
    simp [Call.deleting, hphase] at hphase'
  change step storage unicode s label = some s' at hstep
  cases label with
  | tick ms =>
      obtain rfl := Option.some.inj hstep
      apply hsame hfind
  | call id userId operation =>
      obtain ⟨calls, hcreate, hstep⟩ := Option.bind_eq_some_iff.mp hstep
      obtain rfl := Option.some.inj hstep
      exact hsame (Table.find_create_of_find hcreate hfind)
  | step callId action =>
      obtain ⟨c₀, hc₀, hstep⟩ := Option.bind_eq_some_iff.mp hstep
      obtain ⟨next, hact, hstep⟩ := Option.bind_eq_some_iff.mp hstep
      obtain rfl := Option.some.inj hstep
      obtain rfl := Table.key_of_find hc₀
      by_cases hid : c.id = c₀.id
      · rw [hid, hc₀] at hfind
        obtain rfl := Option.some.inj hfind
        cases action with
        | advance => simp [Label.advances]
        | throw =>
            simp only [Call.act, hphase, Option.some.injEq] at hact
            subst hact
            change (s.calls.put _).find c₀.id = _ at hfind'
            rw [Table.find_put, if_pos rfl] at hfind'
            obtain rfl := Option.some.inj hfind'
            cases hphase'
        | insert | issue | head | undeleted => simp [Call.act, hphase] at hact
      · apply hsame
        change (s.calls.put _).find c.id = _
        rw [Table.find_put, if_neg hid, hfind]
  | put url contentType bytes etag =>
      simp only [Documents.step] at hstep
      split at hstep
      · obtain rfl := Option.some.inj hstep
        apply hsame hfind
      · cases hstep
  | writeFolder folder =>
      obtain rfl := Option.some.inj hstep
      apply hsame hfind
  | removeFolder userId folderId =>
      obtain ⟨documents, folders, events, rfl⟩ := State.removeFolder_eq_some hstep
      apply hsame hfind
  | setTotalPages documentId totalPages =>
      obtain rfl := Option.some.inj hstep
      apply hsame hfind

/-- A step that rejects safely keeps the keys about to be deleted dead. -/
theorem DeletesDead.step {label : Label} (h : DeletesDead s) (hinvariant : Invariant unicode s)
    (hstep : (system config storage unicode).step s label = some s')
    (hrejects : RejectsSafely ⟨s, label, s'⟩) :
  DeletesDead s'
  := by
  have hmoves := moves_of_step hstep
  have hinvariant' := hmoves.invariant hinvariant
  have hgrows := hmoves.grows
  have hold : ∀ c ∈ s.calls.rows, ∀ key, c.deleting = some key → Dead s' key :=
    fun c hc key hkey => (h c hc key hkey).step hmoves
  cases hmoves with
  | other => apply hold
  | removesFolder => apply hold
  | setsTotalPages => apply hold
  | @calls c calls hcreate hplain =>
      intro c' hc' key hkey
      change c' ∈ calls.rows at hc'
      rw [Table.rows_of_create hcreate, List.mem_append, List.mem_singleton] at hc'
      rcases hc' with hc' | rfl
      · apply hold c' hc' key hkey
      · rw [Call.deleting_of_plain hplain] at hkey
        cases hkey
  | @acts c t phase hfind hacts =>
      intro c' hc' key hkey
      rcases Table.mem_rows_put_iff.mp hc' with rfl | ⟨hc', -⟩
      swap
      · apply hold c' hc' key hkey
      have hc := Table.mem_of_find hfind
      cases hacts with
      | plain _ hplain | creates _ _ _ hplain | saves _ hplain | removes _ hplain | confirms _ hplain =>
          rw [Call.deleting_of_plain hplain] at hkey
          cases hkey
      | reads _ hphase =>
          rcases hphase with ⟨_, rfl⟩ | ⟨_, _, -, rfl⟩ <;> cases hkey
      | issues hphase _ hfresh hnext =>
          rcases hnext with hplain | ⟨hcount, key', hcurrent, rfl⟩
          · rw [Call.deleting_of_plain hplain] at hkey
            cases hkey
          · obtain rfl := Option.some.inj hkey
            have hknown := hinvariant.calls c hc
            rw [hphase] at hknown
            exact dead_of_issue hknown hcurrent hfresh hcount hgrows hinvariant' rfl
      | verifies _ hnext =>
          rcases hnext with ⟨-, rfl⟩ | ⟨_, rfl⟩ <;> cases hkey
      | accepts => cases hkey
      | @rejects current rejected problems hphase =>
          have hrejecting : c.rejecting = some rejected := by
            rw [Call.rejecting, hphase]
          obtain rfl := Option.some.inj hkey
          have hlabel := eq_advance_of_rejecting hstep hfind hphase hc' rfl hkey
          have hknown := hinvariant.calls c hc
          rw [hphase] at hknown
          exact dead_of_reject hknown.1 hknown.2 (hrejects c hc hlabel _ hrejecting) hinvariant hgrows rfl

end

/-- In every run in which `rejectUpload` never finds its document READY under the key it rejects, no
deletion hits the object of a READY document. -/
theorem deletes_safely {s₀ s : State config} {ts : List (Transition (State config) Label)}
    (hrun : (system config storage unicode).Run s₀ ts s)
    (hinit : (system config storage unicode).init s₀) (hrejects : ∀ t ∈ ts, RejectsSafely t) :
  ∀ t ∈ ts, DeletesSafely t
  := by
  intro t ht c hc _ key hkey
  have hdead : Invariant unicode t.source ∧ DeletesDead t.source := by
    apply hrun.invariant_source (fun s => Invariant unicode s ∧ DeletesDead s) _ _ ht
    · use invariant_init hinit
      obtain ⟨-, hcalls, -⟩ := hinit
      simp [DeletesDead, hcalls]
    · rintro t ht hstep ⟨hinvariant, hdead⟩
      exact ⟨(moves_of_step hstep).invariant hinvariant,
        hdead.step hinvariant hstep (hrejects t ht)⟩
  apply (hdead.2 c hc key hkey).not_readyUnder

/-- The upload is completed with the tag of another object, which rejects it, and a new one is
requested, which replaces the key. -/
def rejectAndReplace : List Label :=
  [.call 3 7 (.completeUpload 1 ⟨some (js "000000")⟩), .step 3 .advance,
    .step 3 (.head (some sampleHead)), .step 3 .advance, .step 3 .advance,
    .call 4 7 (.createUploadUrl 1 ⟨js "report.pdf", js "application/pdf", 10⟩), .step 4 .advance,
    .step 4 (.issue 6), .step 4 .advance]

/-- The deletions of a rejected and of a replaced key are safe. -/
theorem deletes_safely_of_rejectAndReplace :
  ∃ ts s, (system sampleConfig sampleStorage asciiUnicode).Run sampleState ts s
    ∧ (s.documents.find 1).map Document.storageKey = some (some ⟨7, 1, 6⟩)
    ∧ s.objects.rows = []
    ∧ ∀ t ∈ ts, DeletesSafely t
  := by
  have hsome : ((system sampleConfig sampleStorage asciiUnicode).execute
      (fun t => decide (RejectsSafely t)) sampleState (createAndUpload ++ rejectAndReplace)).any
        (fun s => (s.documents.find 1).map Document.storageKey = some (some ⟨7, 1, 6⟩)
          && s.objects.rows = []) = true := by
    decide +kernel
  obtain ⟨s, hs, hend⟩ := (Option.any_eq_true _ _).mp hsome
  obtain ⟨ts, hrun, hts⟩ := TransitionSystem.run_of_execute hs
  simp only [Bool.and_eq_true, decide_eq_true_eq] at hend
  refine ⟨ts, s, hrun, hend.1, hend.2, ?_⟩
  apply deletes_safely hrun ⟨rfl, rfl, rfl, rfl, rfl, rfl⟩
  intro t ht
  apply of_decide_eq_true (hts t ht)

/-- Two calls complete the same upload, one of them with the tag of another object.  It rejects the
upload after the other has made the document READY. -/
def completeAndReject : List Label :=
  [.call 3 7 (.completeUpload 1 ⟨none⟩), .call 4 7 (.completeUpload 1 ⟨some (js "000000")⟩),
    .step 3 .advance, .step 4 .advance, .step 3 (.head (some sampleHead)),
    .step 4 (.head (some sampleHead)), .step 3 .advance, .step 4 .advance, .step 4 .advance]

/-- The rejection of an upload that another call has completed deletes the object of the READY
document. -/
theorem rejection_deletes_ready_object :
  ∃ ts s, (system sampleConfig sampleStorage asciiUnicode).init sampleState
    ∧ (system sampleConfig sampleStorage asciiUnicode).Run sampleState ts s
    ∧ ReadyUnder s ⟨7, 1, 5⟩ ∧ s.objects.rows = []
    ∧ ∃ t ∈ ts, ¬DeletesSafely t
  := by
  have hsome : ((system sampleConfig sampleStorage asciiUnicode).execute (fun _ => true) sampleState
      (createAndUpload ++ completeAndReject)).any
        (fun s => decide (ReadyUnder s ⟨7, 1, 5⟩) && s.objects.rows = []) = true := by
    decide +kernel
  have hnone : (system sampleConfig sampleStorage asciiUnicode).execute
      (fun t => decide (DeletesSafely t)) sampleState (createAndUpload ++ completeAndReject)
        = none := by
    apply Option.isNone_iff_eq_none.mp
    decide +kernel
  obtain ⟨s, hs, hend⟩ := (Option.any_eq_true _ _).mp hsome
  obtain ⟨ts, hrun, t, ht, hunsafe⟩ := TransitionSystem.exists_failing_of_execute hs hnone
  simp only [Bool.and_eq_true, decide_eq_true_eq] at hend
  exact ⟨ts, s, ⟨rfl, rfl, rfl, rfl, rfl, rfl⟩, hrun, hend.1, hend.2, t, ht,
    of_decide_eq_false hunsafe⟩

end Documents

end DocuAI

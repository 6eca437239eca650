import DocuAI.Documents.Calls

/-!
# The lifecycle of a document

Whatever calls overlap, the status of a document moves along the lifecycle, a READY document has the
file that was declared when its key was issued, and a document is completed at most once.

What a step makes of a row is one of four things (`RowStep`).  A row that refers to a key has what
was declared for that key, and so has what a call has read of it; as keys are distinct, the file a
call has verified is the one the row declares when the statement of the call finds the key in it.
-/

namespace DocuAI

/-! ### Moves of a row -/

/-- The moves of the status of a document. -/
inductive StatusMove : DocumentStatus → DocumentStatus → Prop where
  | stays (status : DocumentStatus) : StatusMove status status
  | uploads {status : DocumentStatus} (h : status ∈ UPLOADABLE_STATUSES) :
      StatusMove status .UPLOADING
  | completes : StatusMove .UPLOADING .READY
  | rejects : StatusMove .UPLOADING .FAILED
  | deletes {status : DocumentStatus} (h : status ≠ .DELETED) : StatusMove status .DELETED

/-- A READY document stays READY until it is deleted. -/
theorem StatusMove.of_ready {status : DocumentStatus} (h : StatusMove .READY status) :
  status = .READY ∨ status = .DELETED
  := by
  cases h with
  | stays => exact .inl rfl
  | uploads hmem => simp [UPLOADABLE_STATUSES] at hmem
  | deletes => exact .inr rfl

/-- A deleted document stays deleted. -/
theorem StatusMove.of_deleted {status : DocumentStatus} (h : StatusMove .DELETED status) :
  status = .DELETED
  := by
  cases h with
  | stays => rfl
  | uploads hmem => simp [UPLOADABLE_STATUSES] at hmem
  | deletes => rfl

namespace Document

/-- The row `r'` is `r`, filed in another folder: they differ at most in the folder and in `updatedAt`,
which every update of a row by the client of the database sets. -/
def Refiled (r r' : Document) : Prop :=
  r' = { r with folderId := r'.folderId, updatedAt := r'.updatedAt }

/-- The time of the deletion is set exactly when the status says that the document is deleted. -/
def Marked (r : Document) : Prop :=
  r.deletedAt ≠ none ↔ r.status = .DELETED

/-- What may become of a row. -/
structure Moves (r r' : Document) : Prop where
  status : StatusMove r.status r'.status
  /-- A deleted document keeps everything but its folder and `updatedAt`. -/
  frozen : r.deletedAt ≠ none → r.Refiled r'
  marked : r'.Marked

theorem Refiled.refl (r : Document) :
  r.Refiled r
  := rfl

theorem Refiled.trans {r r' r'' : Document} (h : r.Refiled r')
    (h' : r'.Refiled r'') :
  r.Refiled r''
  := by
  unfold Refiled at *
  rw [h', h]

/-- Rows that differ in the folder and in `updatedAt` at most have the same status. -/
theorem Refiled.moves {r r' : Document} (h : r.Refiled r') (hmarked : r.Marked) :
  r.Moves r'
  := by
  have hstatus : r'.status = r.status := by rw [h]
  have hdeleted : r'.deletedAt = r.deletedAt := by rw [h]
  refine ⟨?_, fun _ => h, ?_⟩
  · rw [hstatus]
    apply StatusMove.stays
  · rw [Marked, hstatus, hdeleted]
    apply hmarked

/-- The status of a document that is not deleted may move as the lifecycle says. -/
theorem Moves.of_live {r r' : Document} (hlive : r.deletedAt = none)
    (hstatus : StatusMove r.status r'.status) (hmarked : r'.Marked) :
  r.Moves r'
  := ⟨hstatus, fun h => absurd hlive h, hmarked⟩

/-- A row whose time of deletion is not set, and whose status is another one, is marked. -/
theorem Marked.of_live {r : Document} (hlive : r.deletedAt = none) (hstatus : r.status ≠ .DELETED) :
  r.Marked
  := by
  simp [Marked, hlive, hstatus]

theorem Marked.live {r : Document} (h : r.Marked) (hstatus : r.status ≠ .DELETED) :
  r.deletedAt = none
  := by
  by_contra hdeleted
  apply hstatus (h.mp hdeleted)

theorem Marked.status_ne {r : Document} (h : r.Marked) (hlive : r.deletedAt = none) :
  r.status ≠ .DELETED
  := fun hstatus => h.mpr hstatus hlive

end Document

/-- Every write moves the rows it changes as the lifecycle says. -/
theorem DocumentWrite.moves {config : DocumentsConfig} (w : DocumentWrite config) (now : ℕ)
    {r : Document} (hmarked : r.Marked) :
  r.Moves ((w.update now).apply r)
  := by
  cases hguard : (w.update now).guard r with
  | false =>
      rw [Update.apply_of_not_guard _ hguard]
      apply (Document.Refiled.refl r).moves hmarked
  | true =>
      rw [Update.apply_of_guard _ hguard]
      cases w with
      | save id userId data =>
          simp only [update, Bool.and_eq_true, Option.isNone_iff_eq_none] at hguard
          have hlive := hguard.2
          exact .of_live hlive (.stays _) (.of_live hlive (hmarked.status_ne hlive))
      | issue id userId upload =>
          simp only [update, Bool.and_eq_true, decide_eq_true_eq,
            Option.isNone_iff_eq_none] at hguard
          obtain ⟨⟨-, hlive⟩, hstatus⟩ := hguard
          exact .of_live hlive (.uploads hstatus) (.of_live hlive (by simp [update]))
      | complete id userId storageKey fileSize mimeType =>
          simp only [update, Bool.and_eq_true, decide_eq_true_eq,
            Option.isNone_iff_eq_none] at hguard
          obtain ⟨⟨⟨-, hlive⟩, hstatus⟩, -⟩ := hguard
          exact .of_live hlive (hstatus ▸ .completes) (.of_live hlive (by simp [update]))
      | reject id userId storageKey =>
          simp only [update, Bool.and_eq_true, decide_eq_true_eq] at hguard
          obtain ⟨⟨-, hstatus⟩, -⟩ := hguard
          have hlive := hmarked.live (by simp [hstatus])
          exact .of_live hlive (hstatus ▸ .rejects) (.of_live hlive (by simp [update]))
      | remove id userId deletedAt =>
          simp only [update, Bool.and_eq_true, Option.isNone_iff_eq_none] at hguard
          have hlive := hguard.2
          exact .of_live hlive (.deletes (hmarked.status_ne hlive)) (by simp [update, Document.Marked])
      | setTotalPages id totalPages =>
          simp only [update, Bool.and_eq_true, Option.isNone_iff_eq_none] at hguard
          have hlive := hguard.2
          exact .of_live hlive (.stays _) (.of_live hlive (hmarked.status_ne hlive))
      | unfile folderId userId => exact Document.Refiled.moves rfl hmarked
      | unreference folderId => exact Document.Refiled.moves rfl hmarked

/-- The writes of the removal of a folder change the folder and `updatedAt` only. -/
theorem DocumentWrite.refiled_unfile {config : DocumentsConfig} (now folderId userId : ℕ)
    (r : Document) :
  r.Refiled (((DocumentWrite.unfile folderId userId : DocumentWrite config).update now).apply r)
  := by
  unfold Update.apply
  split <;> rfl

theorem DocumentWrite.refiled_unreference {config : DocumentsConfig} (now folderId : ℕ)
    (r : Document) :
  r.Refiled (((DocumentWrite.unreference folderId : DocumentWrite config).update now).apply r)
  := by
  unfold Update.apply
  split <;> rfl

namespace Documents

variable {config : DocumentsConfig} {storage : StorageConfig} {unicode : Unicode}

/-! ### What a step makes of a row -/

/-- The writes a step may send, with what it knows when it sends them. -/
inductive State.Sends (unicode : Unicode) (s s' : State config) : DocumentWrite config → Prop where
  | save (id userId : ℕ) (data : DocumentData) : Sends unicode s s' (.save id userId data)
  | issue {id userId random : ℕ} {upload : Upload config}
      (hkey : upload.storageKey = ⟨userId, id, random⟩)
      (hfresh : upload.storageKey ∉ s.issued.map Upload.storageKey) (hissued : upload ∈ s'.issued) :
      Sends unicode s s' (.issue id userId upload)
  | complete {c : Call config} {current : Document} {key : StorageKey}
      {head : StoredObjectMetadata} (hc : c ∈ s.calls.rows)
      (hphase : c.phase = .accepting current key head) :
      Sends unicode s s' (.complete current.id c.userId key head.size
        ((storedType unicode head).or current.mimeType))
  | reject (id userId : ℕ) (key : StorageKey) : Sends unicode s s' (.reject id userId key)
  | remove (id userId deletedAt : ℕ) : Sends unicode s s' (.remove id userId deletedAt)
  | setTotalPages (id totalPages : ℕ) : Sends unicode s s' (.setTotalPages id totalPages)

/-- What a step makes of the row of a document. -/
inductive RowStep (unicode : Unicode) (s s' : State config) :
    Option Document → Option Document → Prop where
  | kept (row : Option Document) : RowStep unicode s s' row row
  | created (id userId : ℕ) (title : JsString) (description : Option JsString)
      (folderId : Option ℕ) :
      RowStep unicode s s' none
        (some (DocumentsService.createdDocument id userId title description folderId s.now))
  | refiled {r r' : Document} (h : r.Refiled r') : RowStep unicode s s' (some r) (some r')
  | written {w : DocumentWrite config} (hsends : s.Sends unicode s' w) (r : Document) :
      RowStep unicode s s' (some r) (some ((w.update s.now).apply r))

section

variable {s s' : State config}

/-- A write changes each row on its own. -/
theorem rowStep_send {w : DocumentWrite config} (hsends : s.Sends unicode s' w) (id : ℕ) :
  RowStep unicode s s' (s.documents.find id) ((s.send w).1.documents.find id)
  := by
  change RowStep unicode s s' _ ((s.documents.updateMany (w.update s.now)).1.find id)
  rw [Table.find_updateMany]
  cases s.documents.find id with
  | none => exact .kept none
  | some r => exact .written hsends r

/-- What a step makes of each row. -/
theorem Moves.rowStep (h : Moves unicode s s') (id : ℕ) :
  RowStep unicode s s' (s.documents.find id) (s'.documents.find id)
  := by
  cases h with
  | other => exact .kept _
  | calls => exact .kept _
  | acts hfind hacts =>
      have hc := Table.mem_of_find hfind
      cases hacts with
      | plain => exact .kept _
      | @creates documents _ _ _ _ _ _ hcreate =>
          change RowStep unicode s _ _ (documents.find id)
          rw [Table.find_create hcreate]
          split
          · rename_i hid
            rw [hid, Table.find_of_create hcreate]
            apply RowStep.created
          · exact .kept _
      | saves => exact rowStep_send (.save _ _ _) id
      | removes => exact rowStep_send (.remove _ _ _) id
      | reads => exact .kept _
      | issues hphase hkey hfresh =>
          obtain ⟨random, hkey⟩ := hkey
          exact rowStep_send (.issue hkey hfresh (List.mem_append_right _ List.mem_cons_self)) id
      | verifies => exact .kept _
      | accepts hphase => exact rowStep_send (.complete hc hphase) id
      | confirms => exact .kept _
      | rejects => exact rowStep_send (.reject _ _ _) id
  | @removesFolder userId folderId =>
      change RowStep unicode s _ _ (Table.find (Table.updateMany (Table.updateMany s.documents
        ((DocumentWrite.unfile folderId userId : DocumentWrite config).update s.now)).1
        ((DocumentWrite.unreference folderId : DocumentWrite config).update s.now)).1 id)
      rw [Table.find_updateMany, Table.find_updateMany]
      cases s.documents.find id with
      | none => exact .kept none
      | some r =>
          exact .refiled (.trans (DocumentWrite.refiled_unfile s.now folderId userId r)
            (DocumentWrite.refiled_unreference s.now folderId _))
  | setsTotalPages => exact rowStep_send (.setTotalPages _ _) id

/-- A row of a document stays, and moves as the lifecycle says. -/
theorem RowStep.moves {r : Document} {row' : Option Document}
    (h : RowStep unicode s s' (some r) row') (hmarked : r.Marked) :
  ∃ r', row' = some r' ∧ r.Moves r'
  := by
  cases h with
  | kept => exact ⟨r, rfl, (Document.Refiled.refl r).moves hmarked⟩
  | refiled h => exact ⟨_, rfl, h.moves hmarked⟩
  | written hsends => exact ⟨_, rfl, DocumentWrite.moves _ s.now hmarked⟩

/-- A new row is a draft. -/
theorem RowStep.draft {r' : Document} (h : RowStep unicode s s' none (some r')) :
  r'.status = .DRAFT
  := by
  cases h
  rfl

/-- Keys and reports are only ever added. -/
structure Grows (s s' : State config) : Prop where
  issued : s.issued ⊆ s'.issued
  heads : s.heads ⊆ s'.heads

theorem Moves.grows (h : Moves unicode s s') :
  Grows s s'
  := by
  cases h with
  | acts hfind hacts =>
      cases hacts with
      | issues => exact ⟨List.subset_append_left _ _, List.Subset.refl _⟩
      | verifies => exact ⟨List.Subset.refl _, List.subset_append_left _ _⟩
      | _ => exact ⟨List.Subset.refl _, List.Subset.refl _⟩
  | _ => exact ⟨List.Subset.refl _, List.Subset.refl _⟩

end

/-! ### Files are those declared -/

/-- A row that refers to a key has what was declared when the key was issued. -/
def Declared (issued : List (Upload config)) (r : Document) : Prop :=
  ∀ key, r.storageKey = some key → key.documentId = r.id ∧ key.userId = r.userId
    ∧ ∃ upload ∈ issued, upload.storageKey = key ∧ r.mimeType = some upload.contentType
      ∧ r.fileSize = some upload.fileSize

/-- The file of a READY row is one the storage has reported, with its size and type. -/
def Reported (unicode : Unicode) (heads : List (StorageKey × StoredObjectMetadata))
    (r : Document) : Prop :=
  r.status = .READY → ∃ key head, r.storageKey = some key ∧ (key, head) ∈ heads
    ∧ r.fileSize = some head.size
    ∧ ∀ type, storedType unicode head = some type → r.mimeType = some type

/-- What holds of every row. -/
structure Sound (unicode : Unicode) (s : State config) (r : Document) : Prop where
  marked : r.Marked
  declared : Declared s.issued r
  reported : Reported unicode s.heads r

/-- A document as the call of a user has read it. -/
structure Known (issued : List (Upload config)) (userId : ℕ) (current : Document) : Prop where
  declared : Declared issued current
  owner : current.userId = userId

/-- What the call of a user knows of the file it works on. -/
def Phase.Knows (unicode : Unicode) (s : State config) (userId : ℕ) : Phase config → Prop
  | .issuing current _ => Known s.issued userId current
  | .verifying current key _ => Known s.issued userId current ∧ current.storageKey = some key
  | .accepting current key head =>
      Known s.issued userId current ∧ current.storageKey = some key ∧ (key, head) ∈ s.heads
        ∧ ∃ dto, problemsOf config unicode current dto head = []
  | .rejecting current key _ => Known s.issued userId current ∧ current.storageKey = some key
  | _ => True

/-- What holds of every state. -/
structure Invariant (unicode : Unicode) (s : State config) : Prop where
  keys : (s.issued.map Upload.storageKey).Nodup
  rows : ∀ id r, s.documents.find id = some r → Sound unicode s r
  calls : ∀ c ∈ s.calls.rows, c.phase.Knows unicode s c.userId

section

variable {s s' : State config}

theorem Declared.mono {r : Document} (h : Declared s.issued r) (hgrows : Grows s s') :
  Declared s'.issued r
  := by
  intro key hkey
  obtain ⟨hid, huser, upload, hupload, hfile⟩ := h key hkey
  exact ⟨hid, huser, upload, hgrows.issued hupload, hfile⟩

theorem Reported.mono {r : Document} (h : Reported unicode s.heads r) (hgrows : Grows s s') :
  Reported unicode s'.heads r
  := by
  intro hready
  obtain ⟨key, head, hkey, hhead, hfile⟩ := h hready
  exact ⟨key, head, hkey, hgrows.heads hhead, hfile⟩

theorem Sound.mono {r : Document} (h : Sound unicode s r) (hgrows : Grows s s') :
  Sound unicode s' r
  := ⟨h.marked, h.declared.mono hgrows, h.reported.mono hgrows⟩

theorem Known.mono {userId : ℕ} {current : Document} (h : Known s.issued userId current)
    (hgrows : Grows s s') :
  Known s'.issued userId current
  := ⟨h.declared.mono hgrows, h.owner⟩

theorem Phase.Knows.mono {phase : Phase config} {userId : ℕ} (h : phase.Knows unicode s userId)
    (hgrows : Grows s s') :
  phase.Knows unicode s' userId
  := by
  cases phase with
  | issuing current declaration => apply Known.mono h hgrows
  | verifying current key dto => exact ⟨h.1.mono hgrows, h.2⟩
  | accepting current key head => exact ⟨h.1.mono hgrows, h.2.1, hgrows.heads h.2.2.1, h.2.2.2⟩
  | rejecting current key problems => exact ⟨h.1.mono hgrows, h.2⟩
  | _ => trivial

theorem Phase.knows_of_plain {phase : Phase config} (h : phase.plain = true) (userId : ℕ) :
  phase.Knows unicode s userId
  := by
  cases phase with
  | issuing | verifying | accepting | rejecting => cases h
  | _ => trivial

/-- Without problems the storage reported the size and, if any, the type of the declaration. -/
theorem file_of_problemsOf {current : Document} {dto : CompleteUploadDto}
    {head : StoredObjectMetadata} (h : problemsOf config unicode current dto head = []) :
  head.size = current.fileSize.getD 0
    ∧ (storedType unicode head = none ∨ storedType unicode head = current.mimeType)
  := by
  simp only [problemsOf, List.append_eq_nil_iff, ite_eq_right_iff, List.cons_ne_nil, imp_false,
    ne_eq, Decidable.not_not, not_and] at h
  obtain ⟨⟨⟨⟨hsize, -⟩, htype⟩, -⟩, -⟩ := h
  use hsize
  by_cases hnone : storedType unicode head = none
  · exact .inl hnone
  · exact .inr (htype hnone)

/-- A row that keeps its key, type and size keeps what they say. -/
theorem Sound.of_sameFile {r r' : Document} (h : Sound unicode s r) (hmarked : r'.Marked)
    (hid : r'.id = r.id) (huser : r'.userId = r.userId) (hkey : r'.storageKey = r.storageKey) (htype : r'.mimeType = r.mimeType)
    (hsize : r'.fileSize = r.fileSize) (hstatus : r'.status = .READY → r.status = .READY) :
  Sound unicode s r'
  := by
  refine ⟨hmarked, ?_, ?_⟩
  · unfold Declared
    rw [hid, huser, hkey, htype, hsize]
    apply h.declared
  · unfold Reported
    rw [hkey, htype, hsize]
    intro hready
    apply h.reported (hstatus hready)

/-- The row a new key is stored in. -/
theorem sound_issue {id userId random : ℕ} {upload : Upload config} {r : Document} {now : ℕ}
    (hkey : upload.storageKey = ⟨userId, id, random⟩) (hissued : upload ∈ s.issued)
    (hid : r.id = id) (huser : r.userId = userId)
    (hmarked : (((DocumentWrite.issue id userId upload).update now).data r).Marked) :
  Sound unicode s (((DocumentWrite.issue id userId upload).update now).data r)
  := by
  refine ⟨hmarked, ?_, fun hready => by cases hready⟩
  intro key hkey'
  obtain rfl := Option.some.inj hkey'
  rw [hkey]
  exact ⟨hid.symm, huser.symm, upload, hissued, hkey, rfl, rfl⟩

/-- The row of a file that was verified. -/
theorem sound_complete {current r : Document} {userId now : ℕ} {key : StorageKey}
    {head : StoredObjectMetadata} (h : Sound unicode s r) (hrow : r.storageKey = some key)
    (hknows : (Phase.accepting current key head : Phase config).Knows unicode s userId)
    (hmarked : (((DocumentWrite.complete current.id userId key head.size
      ((storedType unicode head).or current.mimeType) : DocumentWrite config).update now).data
        r).Marked) :
  Sound unicode s (((DocumentWrite.complete current.id userId key head.size
    ((storedType unicode head).or current.mimeType) : DocumentWrite config).update now).data r)
  := by
  obtain ⟨hdeclared, hcurrent, hhead, dto, hproblems⟩ := hknows
  obtain ⟨hsize, htype⟩ := file_of_problemsOf hproblems
  obtain ⟨-, -, upload, hupload, hupload_key, hupload_type, hupload_size⟩ :=
    hdeclared.declared key hcurrent
  have hstored : (storedType unicode head).or current.mimeType = some upload.contentType := by
    rcases htype with hnone | heq
    · rw [hnone, Option.none_or, hupload_type]
    · rw [heq, Option.or_self, hupload_type]
  have hlength : head.size = upload.fileSize := by
    rw [hsize, hupload_size, Option.getD_some]
  refine ⟨hmarked, ?_, ?_⟩
  · intro key' hkey'
    obtain rfl := Option.some.inj (hrow.symm.trans hkey')
    obtain ⟨hid, huser, -⟩ := h.declared key hrow
    exact ⟨hid, huser, upload, hupload, hupload_key, hstored, by rw [← hlength]; rfl⟩
  · rintro -
    refine ⟨key, head, hrow, hhead, rfl, ?_⟩
    intro type htype'
    simp [DocumentWrite.update, htype']

/-- Every step keeps the rows sound. -/
theorem RowStep.sound {row row' : Option Document} (h : RowStep unicode s s' row row')
    (hgrows : Grows s s') (hinvariant : Invariant unicode s)
    (hrow : ∀ r, row = some r → Sound unicode s r) {r' : Document} (hr' : row' = some r') :
  Sound unicode s' r'
  := by
  cases h with
  | kept => apply (hrow r' hr').mono hgrows
  | created =>
      obtain rfl := Option.some.inj hr'
      exact ⟨.of_live rfl (by simp [DocumentsService.createdDocument]), nofun, nofun⟩
  | @refiled r _ h =>
      obtain rfl := Option.some.inj hr'
      have hr := hrow r rfl
      apply Sound.mono _ hgrows
      apply hr.of_sameFile (h.moves hr.marked).marked
      all_goals rw [h]
      exact id
  | @written w hsends r =>
      obtain rfl := Option.some.inj hr'
      have hr := hrow r rfl
      have hmarked := (DocumentWrite.moves w s.now hr.marked).marked
      cases hguard : (w.update s.now).guard r with
      | false =>
          rw [Update.apply_of_not_guard _ hguard]
          apply hr.mono hgrows
      | true =>
          rw [Update.apply_of_guard _ hguard] at hmarked ⊢
          cases hsends with
          | save | setTotalPages =>
              apply (hr.of_sameFile hmarked rfl rfl rfl rfl rfl id).mono hgrows
          | reject | remove =>
              apply (hr.of_sameFile hmarked rfl rfl rfl rfl rfl nofun).mono hgrows
          | issue hkey _ hissued =>
              simp only [DocumentWrite.update, Bool.and_eq_true, decide_eq_true_eq] at hguard
              obtain ⟨⟨⟨hid, huser⟩, -⟩, -⟩ := hguard
              apply sound_issue hkey hissued hid huser hmarked
          | complete hc hphase =>
              simp only [DocumentWrite.update, Bool.and_eq_true, decide_eq_true_eq] at hguard
              apply Sound.mono _ hgrows
              apply sound_complete hr hguard.2 _ hmarked
              rw [← hphase]
              apply hinvariant.calls _ hc

/-- The keys stay distinct. -/
theorem Moves.keys (h : Moves unicode s s') (hkeys : (s.issued.map Upload.storageKey).Nodup) :
  (s'.issued.map Upload.storageKey).Nodup
  := by
  cases h with
  | acts hfind hacts =>
      cases hacts with
      | @issues _ _ upload _ _ _ hfresh =>
          change ((s.issued ++ [upload]).map Upload.storageKey).Nodup
          rw [List.map_append, List.nodup_append]
          refine ⟨hkeys, by simp, ?_⟩
          rintro key hkey _ hupload rfl
          obtain rfl := List.mem_singleton.mp hupload
          apply hfresh hkey
      | _ => apply hkeys
  | _ => apply hkeys

/-- What a call learns in a step. -/
theorem Call.Acts.knows {c : Call config} {t : State config} {phase : Phase config}
    (h : c.Acts unicode s t phase) (hinvariant : Invariant unicode s)
    (hc : s.calls.find c.id = some c) (hgrows : Grows s t) :
  phase.Knows unicode t c.userId
  := by
  have hknows := hinvariant.calls c (Table.mem_of_find hc)
  cases h with
  | plain _ hplain | creates _ _ _ hplain | saves _ hplain | removes _ hplain | confirms _ hplain =>
      apply Phase.knows_of_plain hplain
  | @reads documentId current _ howned hphase =>
      obtain ⟨hrow, huser, -⟩ := DocumentsService.getOwned_eq_ok_iff.mp howned
      have hknown : Known s.issued c.userId current :=
        ⟨(hinvariant.rows documentId current hrow).declared, huser⟩
      rcases hphase with ⟨declaration, rfl⟩ | ⟨key, dto, hkey, rfl⟩
      · apply hknown
      · exact ⟨hknown, hkey⟩
  | issues _ _ _ hnext =>
      rcases hnext with hplain | ⟨-, key, -, rfl⟩
      · apply Phase.knows_of_plain hplain
      · trivial
  | verifies hphase hnext =>
      rw [hphase] at hknows
      rcases hnext with ⟨hproblems, rfl⟩ | ⟨problems, rfl⟩
      · exact ⟨hknows.1.mono hgrows, hknows.2, List.mem_append_right _ List.mem_cons_self, _,
          hproblems⟩
      · exact ⟨hknows.1.mono hgrows, hknows.2⟩
  | accepts => trivial
  | rejects => trivial

/-- Every step keeps the invariant. -/
theorem Moves.invariant (h : Moves unicode s s') (hinvariant : Invariant unicode s) :
  Invariant unicode s'
  := by
  have hgrows := h.grows
  refine ⟨h.keys hinvariant.keys, ?_, ?_⟩
  · intro id r hr
    apply (h.rowStep id).sound hgrows hinvariant (hinvariant.rows id) hr
  · cases h with
    | calls hcreate hplain =>
        intro c hc
        change c ∈ Table.rows _ at hc
        rw [Table.rows_of_create hcreate, List.mem_append, List.mem_singleton] at hc
        rcases hc with hc | rfl
        · apply (hinvariant.calls c hc).mono hgrows
        · apply Phase.knows_of_plain hplain
    | acts hfind hacts =>
        intro c hc
        rcases Table.mem_rows_put_iff.mp hc with rfl | ⟨hc, -⟩
        · apply hacts.knows hinvariant hfind ⟨hgrows.issued, hgrows.heads⟩
        · apply (hinvariant.calls c hc).mono hgrows
    | _ => exact fun c hc => (hinvariant.calls c hc).mono hgrows

end

/-! ### Completions -/

/-- The call has completed the upload of the document, and is about to record it. -/
def Phase.completes (documentId : ℕ) : Phase config → Bool
  | .confirming id _ true => id = documentId
  | _ => false

/-- How often the upload of the document was completed, as far as it is recorded or about to be. -/
def completions (s : State config) (documentId : ℕ) : ℕ :=
  (s.events.filterMap SecurityEvent.completed).count documentId
    + s.calls.rows.countP fun c => c.phase.completes documentId

/-- The document has been completed: it is READY, or was deleted. -/
def Complete (s : State config) (documentId : ℕ) : Prop :=
  ∃ r, s.documents.find documentId = some r ∧ (r.status = .READY ∨ r.status = .DELETED)

/-- A document is completed at most once, and then it is READY or deleted. -/
def CompletedOnce (s : State config) (documentId : ℕ) : Prop :=
  completions s documentId ≤ 1 ∧ (completions s documentId ≠ 0 → Complete s documentId)

section

variable {s s' : State config}

theorem Phase.completes_of_plain {phase : Phase config} (h : phase.plain = true) (documentId : ℕ) :
  phase.completes documentId = false
  := by
  cases phase with
  | confirming _ _ completed =>
      cases completed with
      | true => cases h
      | false => rfl
  | _ => rfl

theorem Phase.completes_confirming {id documentId : ℕ} {head : StoredObjectMetadata}
    {completed : Bool} :
  (Phase.confirming id head completed : Phase config).completes documentId = true
    ↔ id = documentId ∧ completed = true
  := by
  cases completed <;> simp [Phase.completes]

/-- A document that is READY or deleted stays so. -/
theorem Moves.complete (h : Moves unicode s s') (hinvariant : Invariant unicode s) {documentId : ℕ}
    (hcomplete : Complete s documentId) :
  Complete s' documentId
  := by
  obtain ⟨r, hr, hstatus⟩ := hcomplete
  have hrow := h.rowStep documentId
  rw [hr] at hrow
  obtain ⟨r', hr', hmoves⟩ := hrow.moves (hinvariant.rows documentId r hr).marked
  refine ⟨r', hr', ?_⟩
  have hmove := hmoves.status
  rcases hstatus with hready | hdeleted
  · rw [hready] at hmove
    apply hmove.of_ready
  · rw [hdeleted] at hmove
    exact .inr hmove.of_deleted

/-- How the step of a call changes the number of completions. -/
theorem completions_put {c : Call config} (hfind : s.calls.find c.id = some c) (t : State config)
    (phase : Phase config) (documentId : ℕ) :
  completions { t with calls := s.calls.put { c with phase } } documentId
      + (s.events.filterMap SecurityEvent.completed).count documentId
      + (if c.phase.completes documentId then 1 else 0)
    = completions s documentId + (t.events.filterMap SecurityEvent.completed).count documentId
      + (if phase.completes documentId then 1 else 0)
  := by
  have hcount := Table.countP_put { c with phase } hfind
    fun c => c.phase.completes documentId
  simp only at hcount
  simp only [completions]
  omega

/-- A call that records no completion, and does not come to one, adds nothing to the completions. -/
theorem completions_put_le {c : Call config} {t : State config} {phase : Phase config}
    (hfind : s.calls.find c.id = some c)
    (hevents : t.events.filterMap SecurityEvent.completed
      = s.events.filterMap SecurityEvent.completed) {documentId : ℕ}
    (hphase : phase.completes documentId = false) :
  completions { t with calls := s.calls.put { c with phase } } documentId
    ≤ completions s documentId
  := by
  have hput := completions_put hfind t phase documentId
  rw [hevents, hphase] at hput
  simp only [Bool.false_eq_true, if_false] at hput
  omega

/-- The step of a call that records no completion comes to the first one at most. -/
theorem completions_put_le_one {c : Call config} {t : State config} {phase : Phase config}
    (hfind : s.calls.find c.id = some c)
    (hevents : t.events.filterMap SecurityEvent.completed
      = s.events.filterMap SecurityEvent.completed) {documentId : ℕ}
    (hzero : completions s documentId = 0) :
  completions { t with calls := s.calls.put { c with phase } } documentId ≤ 1
  := by
  have hput := completions_put hfind t phase documentId
  rw [hevents, hzero] at hput
  split at hput <;> split at hput <;> omega

/-- The statement that makes a document READY finds it UPLOADING. -/
theorem uploading_of_complete {id userId fileSize : ℕ} {key : StorageKey}
    {mimeType : Option JsString}
    (h : (s.send (.complete id userId key fileSize mimeType)).2 = 1) :
  ∃ r, s.documents.find id = some r ∧ r.status = .UPLOADING
    ∧ (s.send (.complete id userId key fileSize mimeType)).1.documents.find id
      = some { r with status := .READY, fileSize := some fileSize, mimeType, updatedAt := s.now }
  := by
  have hid : ∀ r, ((DocumentWrite.complete id userId key fileSize mimeType :
      DocumentWrite config).update s.now).guard r = true → r.id = id := by
    intro r hguard
    simp only [DocumentWrite.update, Bool.and_eq_true, decide_eq_true_eq] at hguard
    exact hguard.1.1.1.1
  obtain ⟨r, hr, hguard, hr'⟩ := Table.find_of_count hid h
  simp only [DocumentWrite.update, Bool.and_eq_true, decide_eq_true_eq] at hguard
  exact ⟨r, hr, hguard.1.2, hr'⟩

/-- Every step keeps a document completed at most once. -/
theorem Moves.completedOnce (h : Moves unicode s s') (hinvariant : Invariant unicode s)
    {documentId : ℕ} (honce : CompletedOnce s documentId) :
  CompletedOnce s' documentId
  := by
  have hof_le (hle : completions s' documentId ≤ completions s documentId) :
      CompletedOnce s' documentId := by
    refine ⟨Nat.le_trans hle honce.1, fun hne => ?_⟩
    apply h.complete hinvariant (honce.2 _)
    omega
  cases h with
  | other => apply hof_le (Nat.le_refl _)
  | @calls c calls hcreate hplain =>
      apply hof_le
      have hcount : (List.countP (fun c => c.phase.completes documentId) calls.rows)
          = s.calls.rows.countP fun c => c.phase.completes documentId := by
        rw [Table.rows_of_create hcreate, List.countP_append, List.countP_singleton,
          Phase.completes_of_plain hplain]
        rfl
      simp only [completions, hcount]
      exact Nat.le_refl _
  | removesFolder hevents =>
      apply hof_le
      simp only [completions, hevents]
      exact Nat.le_refl _
  | setsTotalPages => apply hof_le (Nat.le_refl _)
  | @acts c t phase hfind hacts =>
      cases hacts with
      | plain hevents hplain | removes hevents hplain =>
          apply hof_le (completions_put_le hfind hevents (Phase.completes_of_plain hplain _))
      | creates _ _ hevent hplain =>
          apply hof_le (completions_put_le hfind _ (Phase.completes_of_plain hplain _))
          simp [State.record, hevent]
      | saves _ hplain =>
          apply hof_le (completions_put_le hfind rfl (Phase.completes_of_plain hplain _))
      | reads howned hphase =>
          apply hof_le (completions_put_le hfind rfl _)
          rcases hphase with ⟨_, rfl⟩ | ⟨_, _, -, rfl⟩ <;> rfl
      | issues _ _ _ hnext =>
          apply hof_le (completions_put_le hfind rfl _)
          rcases hnext with hplain | ⟨-, _, -, rfl⟩
          · apply Phase.completes_of_plain hplain
          · rfl
      | verifies _ hnext =>
          apply hof_le (completions_put_le hfind rfl _)
          rcases hnext with ⟨-, rfl⟩ | ⟨_, rfl⟩ <;> rfl
      | rejects => apply hof_le (completions_put_le hfind rfl rfl)
      | @confirms id head contentType _ hphase hplain =>
          apply hof_le
          have hput := completions_put hfind
            (s.record (.UPLOAD_COMPLETED c.userId id head.size contentType)) phase documentId
          rw [hphase, Phase.completes_of_plain hplain] at hput
          simp only [State.record, List.filterMap_append, List.count_append, Phase.completes,
            SecurityEvent.completed, List.filterMap_cons, List.filterMap_nil,
            List.count_singleton, decide_eq_true_eq, beq_iff_eq, Bool.false_eq_true,
            if_false] at hput
          simp only [State.record]
          omega
      | @accepts current key head hphase =>
          cases hcompletes : (Phase.confirming current.id head ((s.send (.complete current.id c.userId
              key head.size ((storedType unicode head).or current.mimeType))).2 = 1) :
              Phase config).completes documentId with
          | false => apply hof_le (completions_put_le hfind rfl hcompletes)
          | true =>
              -- The document was UPLOADING, so that it had not been completed before.
              obtain ⟨rfl, hcount⟩ := Phase.completes_confirming.mp hcompletes
              obtain ⟨r, hr, hstatus, hr'⟩ := uploading_of_complete (of_decide_eq_true hcount)
              have hzero : completions s current.id = 0 := by
                by_contra hne
                obtain ⟨r', hr', hcomplete⟩ := honce.2 hne
                obtain rfl := Option.some.inj (hr.symm.trans hr')
                simp [hstatus] at hcomplete
              constructor
              · apply completions_put_le_one hfind rfl hzero
              · exact fun _ => ⟨_, hr', .inl rfl⟩

end

/-! ### Runs -/

/-- A document that was there stays, moves as the lifecycle says, and keeps all but its folder and
`updatedAt` once it is deleted.  A new one is a draft. -/
def FollowsLifecycle (t : Transition (State config) Label) (documentId : ℕ) : Prop :=
  match t.source.documents.find documentId with
  | none => ∀ r', t.target.documents.find documentId = some r' → r'.status = .DRAFT
  | some r => ∃ r', t.target.documents.find documentId = some r' ∧ StatusMove r.status r'.status
      ∧ (r.deletedAt ≠ none → r.Refiled r')

/-- The row has the file that was declared when its key was issued, and the storage has reported
it under that key. -/
def HasDeclaredFile (unicode : Unicode) (s : State config) (r : Document) : Prop :=
  ∃ upload ∈ s.issued, ∃ head, r.storageKey = some upload.storageKey
    ∧ r.mimeType = some upload.contentType ∧ upload.contentType ∈ config.allowedMimeTypes
    ∧ r.fileSize = some upload.fileSize
    ∧ 1 ≤ upload.fileSize ∧ upload.fileSize ≤ config.maxFileSizeBytes
    ∧ (upload.storageKey, head) ∈ s.heads ∧ head.size = upload.fileSize
    ∧ ∀ type, storedType unicode head = some type → type = upload.contentType

/-- The transition makes the document READY. -/
def EntersReady (documentId : ℕ) (t : Transition (State config) Label) : Bool :=
  (t.source.documents.find documentId).all (fun r => r.status ≠ .READY)
    && (t.target.documents.find documentId).any fun r => r.status = .READY

theorem Moves.followsLifecycle {s s' : State config} {label : Label} (h : Moves unicode s s')
    (hinvariant : Invariant unicode s) (documentId : ℕ) :
  FollowsLifecycle ⟨s, label, s'⟩ documentId
  := by
  have hrow := h.rowStep documentId
  unfold FollowsLifecycle
  simp only
  split
  · rename_i hnone
    intro r' hr'
    rw [hnone, hr'] at hrow
    apply hrow.draft
  · rename_i r hr
    rw [hr] at hrow
    obtain ⟨r', hr', hmoves⟩ := hrow.moves (hinvariant.rows documentId r hr).marked
    exact ⟨r', hr', hmoves.status, hmoves.frozen⟩

/-- A READY document has a declared file. -/
theorem Sound.hasDeclaredFile {s : State config} {r : Document} (h : Sound unicode s r)
    (hready : r.status = .READY) :
  HasDeclaredFile unicode s r
  := by
  obtain ⟨key, head, hkey, hhead, hsize, htype⟩ := h.reported hready
  obtain ⟨-, -, upload, hupload, rfl, hupload_type, hupload_size⟩ := h.declared key hkey
  refine ⟨upload, hupload, head, hkey, hupload_type, upload.allowed, hupload_size, upload.pos,
    upload.le_max, hhead, ?_, ?_⟩
  · rw [hsize] at hupload_size
    apply Option.some.inj hupload_size
  · intro type hstored
    have hmime := htype type hstored
    rw [hupload_type] at hmime
    exact (Option.some.inj hmime).symm

/-- A completed document does not become READY again. -/
theorem FollowsLifecycle.not_entersReady {t : Transition (State config) Label} {documentId : ℕ}
    (h : FollowsLifecycle t documentId) (hcomplete : Complete t.source documentId) :
  EntersReady documentId t = false
  := by
  obtain ⟨r, hr, hstatus⟩ := hcomplete
  unfold FollowsLifecycle at h
  rw [hr] at h
  obtain ⟨r', hr', hmove, -⟩ := h
  simp only [EntersReady, hr, hr', Option.all_some, Option.any_some]
  rcases hstatus with hready | hdeleted
  · simp [hready]
  · rw [hdeleted] at hmove
    simp [hmove.of_deleted]

theorem complete_of_entersReady {t : Transition (State config) Label} {documentId : ℕ}
    (h : EntersReady documentId t = true) :
  Complete t.target documentId
  := by
  simp only [EntersReady, Bool.and_eq_true, Option.any_eq_true, decide_eq_true_eq] at h
  obtain ⟨-, r, hr, hready⟩ := h
  exact ⟨r, hr, .inl hready⟩

theorem invariant_init {s : State config} (h : (system config storage unicode).init s) :
  Invariant unicode s
  := by
  obtain ⟨hdocuments, hcalls, hissued, -⟩ := h
  refine ⟨by simp [hissued], ?_, by simp [hcalls]⟩
  intro id r hr
  rw [Table.find_of_rows_eq_nil hdocuments] at hr
  cases hr

theorem completions_init {s : State config} (h : (system config storage unicode).init s)
    (documentId : ℕ) :
  completions s documentId = 0
  := by
  obtain ⟨-, hcalls, -, -, -, hevents⟩ := h
  simp [completions, hcalls, hevents]

/-- The lifecycle of documents: in every run each row follows it, the READY documents have the files
declared for their keys, a document is deleted when its status says so, and it becomes READY, and is
recorded as completed, at most once. -/
theorem document_lifecycle {s₀ s : State config} {ts : List (Transition (State config) Label)}
    (hrun : (system config storage unicode).Run s₀ ts s)
    (hinit : (system config storage unicode).init s₀) :
  (∀ t ∈ ts, ∀ documentId, FollowsLifecycle t documentId)
  ∧ (s.issued.map Upload.storageKey).Nodup
  ∧ (∀ r ∈ s.documents.rows, r.status = .READY → HasDeclaredFile unicode s r)
  ∧ (∀ r ∈ s.documents.rows, r.deletedAt ≠ none ↔ r.status = .DELETED)
  ∧ ∀ documentId, ts.countP (EntersReady documentId) ≤ 1
    ∧ (s.events.filterMap SecurityEvent.completed).count documentId ≤ 1
  := by
  have hstep : ∀ t ∈ ts, (system config storage unicode).step t.source t.label = some t.target →
      Invariant unicode t.source → Invariant unicode t.target :=
    fun t _ hstep h => (moves_of_step hstep).invariant h
  have hinvariant : Invariant unicode s := hrun.invariant (invariant_init hinit) hstep
  have hsource : ∀ t ∈ ts, Invariant unicode t.source :=
    fun t ht => hrun.invariant_source (Invariant unicode) (invariant_init hinit) hstep ht
  have hmoves : ∀ t ∈ ts, Moves unicode t.source t.target :=
    fun t ht => moves_of_step (hrun.step_of_mem ht)
  have hfollows : ∀ t ∈ ts, ∀ documentId, FollowsLifecycle t documentId :=
    fun t ht => (hmoves t ht).followsLifecycle (hsource t ht)
  have hrows : ∀ r ∈ s.documents.rows, Sound unicode s r :=
    fun r hr => hinvariant.rows r.id r (Table.mem_rows_iff.mp hr)
  refine ⟨hfollows, hinvariant.keys, fun r hr => (hrows r hr).hasDeclaredFile,
    fun r hr => (hrows r hr).marked, fun documentId => ⟨?_, ?_⟩⟩
  · refine (hrun.countP_le_one (fun s => Complete s documentId) ?_ ?_).1
    · exact fun t _ => complete_of_entersReady
    · intro t ht hcomplete
      exact ⟨(hmoves t ht).complete (hsource t ht) hcomplete,
        (hfollows t ht documentId).not_entersReady hcomplete⟩
  · have honce : Invariant unicode s ∧ CompletedOnce s documentId := by
      apply hrun.invariant
      · use invariant_init hinit
        simp [CompletedOnce, completions_init hinit]
      · rintro t - hstep ⟨hinvariant, honce⟩
        have h := moves_of_step hstep
        exact ⟨h.invariant hinvariant, h.completedOnce hinvariant honce⟩
    apply Nat.le_trans (Nat.le_add_right _ _) honce.2.1

/-- A small configuration: PDF files of at most 1000 bytes. -/
def sampleConfig : DocumentsConfig where
  maxFileSizeBytes := 1000
  allowedMimeTypes := [js "application/pdf"]

def sampleStorage : StorageConfig where
  uploadUrlTtlSeconds := 900

/-- A user with a folder and without documents. -/
def sampleState : State sampleConfig where
  now := 0
  documents := Table.empty
  folders := ⟨[FoldersService.createdFolder 3 7 (js "Reports") none 0], by simp⟩
  objects := Table.empty
  calls := Table.empty
  issued := []
  urls := []
  heads := []
  events := []

/-- The metadata of an uploaded file. -/
def sampleHead : StoredObjectMetadata where
  size := 10
  contentType := some (js "application/pdf")
  etag := some (js "abc123")

/-- The bytes of that file. -/
def sampleBytes : List UInt8 := [0x25, 0x50, 0x44, 0x46, 0x2D, 0x31, 0x2E, 0x37, 0x0D, 0x0A]

/-- A document is created in the folder, and a file of it uploaded. -/
def createAndUpload : List Label :=
  [.call 1 7 (.create ⟨js "Report", none, some 3⟩), .step 1 .advance, .step 1 (.insert 1),
    .call 2 7 (.createUploadUrl 1 ⟨js "report.pdf", js "application/pdf", 10⟩), .step 2 .advance,
    .step 2 (.issue 5), .step 2 .advance, .step 2 .advance,
    .put ⟨⟨7, 1, 5⟩, js "application/pdf", 10, 900000, 900⟩ (js "application/pdf") sampleBytes
      sampleHead.etag]

/-- Two calls complete the upload at the same time, then the folder and the document go. -/
def completeAndRemove : List Label :=
  [.call 3 7 (.completeUpload 1 ⟨none⟩), .call 4 7 (.completeUpload 1 ⟨none⟩), .step 3 .advance,
    .step 4 .advance, .step 3 (.head (some sampleHead)), .step 4 (.head (some sampleHead)),
    .step 3 .advance, .step 4 .advance, .step 4 .advance, .step 3 .advance, .setTotalPages 1 2,
    .removeFolder 7 3, .call 5 7 (.remove 1), .step 5 .advance]

/-- The document of two concurrent completions has been completed once when it is deleted. -/
theorem document_lifecycle_of_completeAndRemove :
  ∃ ts s, (system sampleConfig sampleStorage asciiUnicode).Run sampleState ts s
    ∧ (s.events.filterMap SecurityEvent.completed).count 1 = 1
    ∧ (s.documents.find 1).map (fun r => (r.status, r.folderId)) = some (.DELETED, none)
    ∧ (∀ t ∈ ts, ∀ documentId, FollowsLifecycle t documentId)
    ∧ (s.issued.map Upload.storageKey).Nodup
    ∧ (∀ r ∈ s.documents.rows, r.status = .READY → HasDeclaredFile asciiUnicode s r)
    ∧ (∀ r ∈ s.documents.rows, r.deletedAt ≠ none ↔ r.status = .DELETED)
    ∧ ∀ documentId, ts.countP (EntersReady documentId) ≤ 1
      ∧ (s.events.filterMap SecurityEvent.completed).count documentId ≤ 1
  := by
  have hsome : ((system sampleConfig sampleStorage asciiUnicode).execute (fun _ => true) sampleState
      (createAndUpload ++ completeAndRemove)).any (fun s =>
        (s.events.filterMap SecurityEvent.completed).count 1 = 1
          && (s.documents.find 1).map (fun r => (r.status, r.folderId)) = some (.DELETED, none))
      = true := by
    decide +kernel
  obtain ⟨s, hs, hend⟩ := (Option.any_eq_true _ _).mp hsome
  obtain ⟨ts, hrun, -⟩ := TransitionSystem.run_of_execute hs
  simp only [Bool.and_eq_true, decide_eq_true_eq] at hend
  refine ⟨ts, s, hrun, hend.1, hend.2, ?_⟩
  apply document_lifecycle hrun ⟨rfl, rfl, rfl, rfl, rfl, rfl⟩

end Documents

end DocuAI

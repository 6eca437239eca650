import DocuAI.Documents.Confinement
import DocuAI.Documents.Replacement

/-!
# What is stored

Clients write to the object storage by themselves, through the URLs their calls returned.  A call
returns a URL that was signed for a declared upload of a document of the calling user, the store
accepts nothing but what was signed, and a row refers to an object by the key of the upload alone.
So whoever uploads what and when, a stored object has the type and size that were declared for it,
and the row that refers to it says so.
-/

namespace DocuAI

namespace Documents

variable {config : DocumentsConfig} {storage : StorageConfig} {unicode : Unicode}

/-- `createUploadUrl` of the storage, at a time. -/
def presignedUrl (storage : StorageConfig) (upload : Upload config) (signedAt : ℕ) :
    PresignedUrl where
  key := upload.storageKey
  contentType := upload.contentType
  contentLength := upload.fileSize
  expiresAt := signedAt + storage.uploadUrlTtlSeconds * 1000
  expiresInSeconds := storage.uploadUrlTtlSeconds

/-- The URL was signed for the upload, by now. -/
def Signed (storage : StorageConfig) (now : ℕ) (upload : Upload config) (url : PresignedUrl) :
    Prop :=
  ∃ signedAt ≤ now, url = presignedUrl storage upload signedAt

/-- The object is one the store accepts through the URL. -/
structure Accepted (url : PresignedUrl) (object : StoredObject) : Prop where
  key : object.key = url.key
  contentType : object.contentType = some url.contentType
  contentLength : object.bytes.length = url.contentLength
  size : object.size = object.bytes.length

/-- The document is there, and it is the user's. -/
def Registered (s : State config) (userId documentId : ℕ) : Prop :=
  ∃ r, s.documents.find documentId = some r ∧ r.userId = userId

/-- The upload was declared for a document of its user. -/
structure Announced (s : State config) (upload : Upload config) : Prop where
  issued : upload ∈ s.issued
  registered : Registered s upload.storageKey.userId upload.storageKey.documentId

/-- The upload was issued to the user. -/
structure IssuedTo (s : State config) (userId : ℕ) (upload : Upload config) : Prop where
  issued : upload ∈ s.issued
  userId : upload.storageKey.userId = userId

/-- The call returned the URL: its user was given it. -/
def Call.Returned (c : Call config) (url : PresignedUrl) : Prop :=
  ∃ document, c.phase = .returned (.ok (.upload url document))

/-! ### What a call does about URLs -/

/-- The phases on the way to a URL, and those that returned one. -/
def Phase.signs : Phase config → Bool
  | .issuing _ _ | .superseding _ _ _ | .presigning _ _ | .presigned _ _ _ => true
  | .returned (.ok (.upload _ _)) => true
  | _ => false

/-- The steps of a call, by what they do about keys and URLs. -/
inductive Call.Signs (storage : StorageConfig) (s : State config) (c : Call config) :
    State config → Phase config → Prop where
  | other {s' : State config} {phase : Phase config} (hissued : s'.issued = s.issued)
      (hurls : s'.urls = s.urls) (hphase : phase.signs = false) : Signs storage s c s' phase
  | reads {documentId : ℕ} {current : Document} {declaration : Declaration config}
      (howned : DocumentsService.getOwned s.documents c.userId documentId = .ok current) :
      Signs storage s c s (.issuing current declaration)
  | issues {current : Document} {declaration : Declaration config} {upload : Upload config}
      {random : ℕ} {s' : State config} {phase : Phase config}
      (hphase : c.phase = .issuing current declaration)
      (hkey : upload.storageKey = ⟨c.userId, current.id, random⟩)
      (hissued : s'.issued = s.issued ++ [upload]) (hurls : s'.urls = s.urls)
      (hnext : phase.signs = false ∨ phase = .presigning current.id upload
        ∨ ∃ key, phase = .superseding current.id key upload) : Signs storage s c s' phase
  | supersedes {documentId : ℕ} {key : StorageKey} {upload : Upload config} {s' : State config}
      (hphase : c.phase = .superseding documentId key upload) (hissued : s'.issued = s.issued)
      (hurls : s'.urls = s.urls) : Signs storage s c s' (.presigning documentId upload)
  | presigns {documentId : ℕ} {upload : Upload config}
      (hphase : c.phase = .presigning documentId upload) :
      Signs storage s c s (.presigned documentId upload (presignedUrl storage upload s.now))
  | returns {documentId : ℕ} {upload : Upload config} {url : PresignedUrl} {document : Document}
      {s' : State config} (hphase : c.phase = .presigned documentId upload url)
      (hissued : s'.issued = s.issued) (hurls : s'.urls = s.urls ++ [url]) :
      Signs storage s c s' (.returned (.ok (.upload url document)))

section

variable {s s' : State config} {c : Call config} {phase : Phase config}

theorem Call.signs_save {current : Document} {data : DocumentData}
    (h : c.save s current data = (s', phase)) :
  c.Signs storage s s' phase
  := by
  obtain ⟨rfl, rfl, -⟩ | ⟨-, rfl, ⟨-, rfl⟩ | ⟨-, rfl⟩⟩ := save_cases h
  · exact .other rfl rfl rfl
  · exact .other rfl rfl rfl
  · exact .other rfl rfl rfl

theorem Call.signs_confirm {documentId : ℕ} {head : StoredObjectMetadata} {completed : Bool}
    (h : c.confirm s documentId head completed = (s', phase)) :
  c.Signs storage s s' phase
  := by
  unfold confirm at h
  split at h
  · obtain ⟨rfl, rfl⟩ := Prod.mk.inj h
    exact .other rfl rfl rfl
  · split at h
    · obtain ⟨rfl, rfl⟩ := Prod.mk.inj h
      exact .other rfl rfl rfl
    · split at h
      · obtain ⟨rfl, rfl⟩ := Prod.mk.inj h
        exact .other rfl rfl rfl
      · obtain ⟨rfl, rfl⟩ := Prod.mk.inj h
        exact .other rfl rfl rfl

theorem Call.signs_remove {documentId deletedAt : ℕ}
    (h : c.remove s documentId deletedAt = (s', phase)) :
  c.Signs storage s s' phase
  := by
  unfold remove at h
  simp only at h
  split at h
  · obtain ⟨rfl, rfl⟩ := Prod.mk.inj h
    exact .other rfl rfl rfl
  · obtain ⟨rfl, rfl⟩ := Prod.mk.inj h
    exact .other rfl rfl rfl

theorem Call.signs_deny {documentId : ℕ} (h : c.deny s documentId = (s', phase)) :
  c.Signs storage s s' phase
  := by
  obtain ⟨rfl, rfl⟩ := Prod.mk.inj h
  split
  · exact .other rfl rfl rfl
  · exact .other rfl rfl rfl

theorem Call.signs_denyFolder {folderId : ℕ} (h : c.denyFolder s folderId = (s', phase)) :
  c.Signs storage s s' phase
  := by
  obtain ⟨rfl, rfl⟩ := Prod.mk.inj h
  split
  · exact .other rfl rfl rfl
  · exact .other rfl rfl rfl

theorem Call.signs_withOwned {documentId : ℕ} {next : Document → Phase config}
    (hnext : ∀ current, DocumentsService.getOwned s.documents c.userId documentId = .ok current →
      c.Signs storage s s (next current))
    (h : c.withOwned s documentId next = (s', phase)) :
  c.Signs storage s s' phase
  := by
  unfold withOwned at h
  split at h
  · obtain ⟨rfl, rfl⟩ := Prod.mk.inj h
    exact .other rfl rfl rfl
  · rename_i current howned
    obtain ⟨rfl, rfl⟩ := Prod.mk.inj h
    apply hnext current howned

theorem Call.signs_advance (h : c.advance storage unicode s = some (s', phase)) :
  c.Signs storage s s' phase
  := by
  cases hphase : c.phase with
  | creatingIn dto folderId | moving _ _ folderId =>
      simp only [advance, hphase] at h
      obtain ⟨rfl, rfl⟩ := Prod.mk.inj (Option.some.inj h)
      refine .other rfl rfl ?_
      split <;> rfl
  | updating documentId dto =>
      simp only [advance, hphase] at h
      apply signs_withOwned _ (Option.some.inj h)
      intro current _
      refine .other rfl rfl ?_
      split
      · rfl
      · split <;> rfl
  | saving current data =>
      simp only [advance, hphase] at h
      apply signs_save (Option.some.inj h)
  | saved current data =>
      simp only [advance, hphase] at h
      split at h
      · obtain ⟨rfl, rfl⟩ := Prod.mk.inj (Option.some.inj h)
        exact .other rfl rfl rfl
      · obtain ⟨rfl, rfl⟩ := Prod.mk.inj (Option.some.inj h)
        exact .other rfl rfl rfl
  | requesting documentId declaration =>
      simp only [advance, hphase] at h
      apply signs_withOwned _ (Option.some.inj h)
      intro current howned
      split
      · exact .reads howned
      · exact .other rfl rfl rfl
  | superseding documentId key upload =>
      simp only [advance, hphase] at h
      obtain ⟨rfl, rfl⟩ := Prod.mk.inj (Option.some.inj h)
      exact .supersedes hphase rfl rfl
  | presigning documentId upload =>
      simp only [advance, hphase] at h
      obtain ⟨rfl, rfl⟩ := Prod.mk.inj (Option.some.inj h)
      exact .presigns hphase
  | presigned documentId upload url =>
      simp only [advance, hphase] at h
      split at h
      · obtain ⟨rfl, rfl⟩ := Prod.mk.inj (Option.some.inj h)
        exact .other rfl rfl rfl
      · obtain ⟨rfl, rfl⟩ := Prod.mk.inj (Option.some.inj h)
        exact .returns hphase rfl rfl
  | completing documentId dto =>
      simp only [advance, hphase] at h
      apply signs_withOwned _ (Option.some.inj h)
      intro current _
      refine .other rfl rfl ?_
      split
      · rfl
      · split <;> rfl
  | accepting current key head =>
      simp only [advance, hphase] at h
      obtain ⟨rfl, rfl⟩ := Prod.mk.inj (Option.some.inj h)
      exact .other rfl rfl rfl
  | confirming documentId head completed =>
      simp only [advance, hphase] at h
      apply signs_confirm (Option.some.inj h)
  | rejecting current key problems | discarding current key problems =>
      simp only [advance, hphase] at h
      obtain ⟨rfl, rfl⟩ := Prod.mk.inj (Option.some.inj h)
      exact .other rfl rfl rfl
  | removing documentId deletedAt =>
      simp only [advance, hphase] at h
      apply signs_remove (Option.some.inj h)
  | denying documentId =>
      simp only [advance, hphase] at h
      apply signs_deny (Option.some.inj h)
  | denyingFolder folderId =>
      simp only [advance, hphase] at h
      apply signs_denyFolder (Option.some.inj h)
  | creating _ | issuing _ _ | verifying _ _ _ | returned _ | rejected =>
      simp only [advance, hphase, reduceCtorEq] at h

/-- Every step of a call is one of the kinds. -/
theorem Call.signs_of_act {action : Action}
    (h : c.act storage unicode s action = some (s', phase)) :
  c.Signs storage s s' phase
  := by
  cases action with
  | advance => apply signs_advance h
  | insert id =>
      simp only [act] at h
      split at h
      · obtain ⟨-, rfl, rfl⟩ | ⟨documents, -, -, rfl, rfl⟩ := create_cases h
        · exact .other rfl rfl rfl
        · exact .other rfl rfl rfl
      · cases h
  | issue random =>
      simp only [act] at h
      split at h
      · rename_i hphase
        obtain ⟨upload, rfl, -, rfl, rfl | rfl | ⟨-, key, -, rfl⟩⟩ := issue_cases h
        · exact .issues hphase rfl rfl rfl (.inl rfl)
        · exact .issues hphase rfl rfl rfl (.inr (.inl rfl))
        · exact .issues hphase rfl rfl rfl (.inr (.inr ⟨key, rfl⟩))
      · cases h
  | head answer =>
      simp only [act] at h
      split at h
      · obtain ⟨rfl, rfl⟩ | ⟨head, rfl, ⟨-, rfl⟩ | ⟨problems, rfl⟩⟩ :=
          verify_cases (Option.some.inj h)
        · exact .other rfl rfl rfl
        · exact .other rfl rfl rfl
        · exact .other rfl rfl rfl
      · cases h
  | undeleted =>
      simp only [act] at h
      split at h
      · rename_i hphase
        obtain ⟨rfl, rfl⟩ := Prod.mk.inj (Option.some.inj h)
        exact .supersedes hphase rfl rfl
      · obtain ⟨rfl, rfl⟩ := Prod.mk.inj (Option.some.inj h)
        exact .other rfl rfl rfl
      · cases h
  | throw =>
      obtain ⟨rfl, rfl⟩ := throw_cases h
      exact .other rfl rfl rfl

end

/-! ### Everything stored is accounted for -/

/-- What a call on its way to a URL knows. -/
def Phase.Accounted (storage : StorageConfig) (s : State config) (userId : ℕ) :
    Phase config → Prop
  | .issuing current _ => Registered s userId current.id
  | .superseding _ _ upload | .presigning _ upload => IssuedTo s userId upload
  | .presigned _ upload url => IssuedTo s userId upload ∧ Signed storage s.now upload url
  | .returned (.ok (.upload url _)) =>
      ∃ upload, IssuedTo s userId upload ∧ Signed storage s.now upload url
  | _ => True

/-- The objects came through URLs that calls returned, the URLs are for keys issued to the callers,
and the keys for their documents. -/
structure Accounted (storage : StorageConfig) (s : State config) : Prop where
  calls : ∀ c ∈ s.calls.rows, c.phase.Accounted storage s c.userId
  issued : ∀ upload ∈ s.issued,
    Registered s upload.storageKey.userId upload.storageKey.documentId
  urls : ∀ url ∈ s.urls, ∃ c ∈ s.calls.rows, c.Returned url
  objects : ∀ object ∈ s.objects.rows, ∃ url ∈ s.urls, Accepted url object

/-- What a later state keeps. -/
structure Later (s s' : State config) : Prop where
  now : s.now ≤ s'.now
  issued : s.issued ⊆ s'.issued
  returned : ∀ c ∈ s.calls.rows, ∀ url, c.Returned url → c ∈ s'.calls.rows
  registered : ∀ userId documentId, Registered s userId documentId → Registered s' userId documentId

section

variable {s s' : State config}

theorem Signed.mono {now now' : ℕ} {upload : Upload config} {url : PresignedUrl}
    (h : Signed storage now upload url) (hle : now ≤ now') :
  Signed storage now' upload url
  := by
  obtain ⟨signedAt, hsigned, hurl⟩ := h
  exact ⟨signedAt, hsigned.trans hle, hurl⟩

theorem IssuedTo.mono {userId : ℕ} {upload : Upload config} (h : IssuedTo s userId upload)
    (hlater : Later s s') :
  IssuedTo s' userId upload
  := ⟨hlater.issued h.issued, h.userId⟩

theorem Phase.Accounted.mono {phase : Phase config} {userId : ℕ}
    (h : phase.Accounted storage s userId) (hlater : Later s s') :
  phase.Accounted storage s' userId
  := by
  cases phase with
  | issuing current declaration => apply hlater.registered _ _ h
  | superseding documentId key upload | presigning documentId upload =>
      apply IssuedTo.mono h hlater
  | presigned documentId upload url => exact ⟨h.1.mono hlater, h.2.mono hlater.now⟩
  | returned result =>
      rcases result with error | document | ⟨url, document⟩ | _
      case ok.upload =>
        obtain ⟨upload, hissued, hsigned⟩ := h
        exact ⟨upload, hissued.mono hlater, hsigned.mono hlater.now⟩
      all_goals trivial
  | _ => trivial

/-- Phases that are not on the way to a URL need to know nothing. -/
theorem Phase.accounted_of_not_signs {phase : Phase config} (h : phase.signs = false)
    (userId : ℕ) :
  phase.Accounted storage s userId
  := by
  cases phase with
  | issuing | superseding | presigning | presigned => cases h
  | returned result =>
      rcases result with error | document | ⟨url, document⟩ | _
      case ok.upload => cases h
      all_goals trivial
  | _ => trivial

/-- Documents stay, and stay with their users. -/
theorem RowStep.registered {r : Document} {row' : Option Document}
    (h : RowStep unicode s s' (some r) row') :
  ∃ r', row' = some r' ∧ r'.userId = r.userId
  := by
  cases h with
  | kept => exact ⟨r, rfl, rfl⟩
  | @refiled _ r' hsame => exact ⟨r', rfl, by rw [hsame]⟩
  | @written w => exact ⟨_, rfl, w.userId_apply s.now r⟩

/-- The statements and requests of a call take no time. -/
theorem Call.Acts.now_eq {c : Call config} {phase : Phase config} (h : c.Acts unicode s s' phase) :
  s'.now = s.now
  := by
  cases h <;> rfl

theorem now_le_of_step {label : Label}
    (h : (system config storage unicode).step s label = some s') :
  s.now ≤ s'.now
  := by
  change step storage unicode s label = some s' at h
  cases label with
  | tick ms =>
      obtain rfl := Option.some.inj h
      apply Nat.le_add_right
  | call id userId operation =>
      obtain ⟨calls, -, h⟩ := Option.bind_eq_some_iff.mp h
      obtain rfl := Option.some.inj h
      exact le_rfl
  | step callId action =>
      obtain ⟨c, -, h⟩ := Option.bind_eq_some_iff.mp h
      obtain ⟨next, hact, h⟩ := Option.bind_eq_some_iff.mp h
      obtain rfl := Option.some.inj h
      exact (Call.acts_of_act hact).now_eq.ge
  | put url contentType bytes etag =>
      simp only [step] at h
      split at h
      · obtain rfl := Option.some.inj h
        exact le_rfl
      · cases h
  | removeFolder userId folderId =>
      obtain ⟨documents, folders, events, rfl⟩ := State.removeFolder_eq_some h
      exact le_rfl
  | writeFolder | setTotalPages =>
      obtain rfl := Option.some.inj h
      exact le_rfl

/-- A call that returned takes no step. -/
theorem Call.Returned.act_eq_none {c : Call config} {url : PresignedUrl} (h : c.Returned url)
    (action : Action) :
  c.act storage unicode s action = none
  := by
  obtain ⟨document, hphase⟩ := h
  cases action with
  | advance => simp only [act, advance, hphase]
  | _ => simp only [act, hphase]

theorem returned_of_step {label : Label}
    (h : (system config storage unicode).step s label = some s') :
  ∀ c ∈ s.calls.rows, ∀ url, c.Returned url → c ∈ s'.calls.rows
  := by
  change step storage unicode s label = some s' at h
  intro c hc url hreturned
  cases label with
  | call id userId operation =>
      obtain ⟨calls, hcreate, h⟩ := Option.bind_eq_some_iff.mp h
      obtain rfl := Option.some.inj h
      change c ∈ calls.rows
      rw [Table.rows_of_create hcreate]
      exact List.mem_append_left _ hc
  | step callId action =>
      obtain ⟨moving, hfind, h⟩ := Option.bind_eq_some_iff.mp h
      obtain ⟨next, hact, h⟩ := Option.bind_eq_some_iff.mp h
      obtain rfl := Option.some.inj h
      obtain rfl := Table.key_of_find hfind
      apply Table.mem_rows_put_iff.mpr
      refine .inr ⟨hc, ?_⟩
      intro hid
      -- the call that moves would be the one that returned
      have hsame : s.calls.find moving.id = some c := hid ▸ Table.mem_rows_iff.mp hc
      obtain rfl := Option.some.inj (hfind.symm.trans hsame)
      rw [hreturned.act_eq_none] at hact
      cases hact
  | put url contentType bytes etag =>
      simp only [step] at h
      split at h
      · obtain rfl := Option.some.inj h
        exact hc
      · cases h
  | removeFolder userId folderId =>
      obtain ⟨documents, folders, events, rfl⟩ := State.removeFolder_eq_some h
      exact hc
  | tick | writeFolder | setTotalPages =>
      obtain rfl := Option.some.inj h
      exact hc

theorem later_of_step {label : Label}
    (h : (system config storage unicode).step s label = some s') :
  Later s s'
  := by
  have hmoves := moves_of_step h
  refine ⟨now_le_of_step h, hmoves.grows.issued, returned_of_step h, ?_⟩
  rintro userId documentId ⟨r, hr, rfl⟩
  have hrow := hmoves.rowStep documentId
  rw [hr] at hrow
  exact hrow.registered

/-- A step that signs nothing, and stores nothing. -/
theorem Accounted.of_same (h : Accounted storage s) (hlater : Later s s')
    (hissued : s'.issued = s.issued) (hurls : s'.urls = s.urls)
    (hobjects : ∀ object ∈ s'.objects.rows, object ∈ s.objects.rows)
    (hcalls : ∀ c ∈ s'.calls.rows, c ∈ s.calls.rows ∨ c.phase.Accounted storage s' c.userId) :
  Accounted storage s'
  := by
  constructor
  · intro c hc
    rcases hcalls c hc with hold | hnew
    · apply (h.calls c hold).mono hlater
    · exact hnew
  · intro upload hupload
    apply hlater.registered
    apply h.issued upload (hissued ▸ hupload)
  · intro url hurl
    obtain ⟨c, hc, hreturned⟩ := h.urls url (hurls ▸ hurl)
    exact ⟨c, hlater.returned c hc url hreturned, hreturned⟩
  · intro object hobject
    rw [hurls]
    apply h.objects object (hobjects object hobject)

/-- A step of a call keeps everything accounted for. -/
theorem Call.Signs.accounted {c : Call config} {t : State config} {phase : Phase config}
    (hsigns : c.Signs storage s t phase) (h : Accounted storage s)
    (hfind : s.calls.find c.id = some c)
    (hlater : Later s { t with calls := s.calls.put { c with phase } })
    (hobjects : ∀ object ∈ t.objects.rows, object ∈ s.objects.rows) :
  Accounted storage { t with calls := s.calls.put { c with phase } }
  := by
  have hknows := h.calls c (Table.mem_of_find hfind)
  have hcalls : phase.Accounted storage { t with calls := s.calls.put { c with phase } } c.userId →
      ∀ c' ∈ (s.calls.put { c with phase }).rows, c' ∈ s.calls.rows ∨ c'.phase.Accounted storage
        { t with calls := s.calls.put { c with phase } } c'.userId := by
    intro hphase c' hc'
    rcases Table.mem_rows_put_iff.mp hc' with rfl | ⟨hold, -⟩
    · exact .inr hphase
    · exact .inl hold
  cases hsigns with
  | other hissued hurls hphase =>
      apply h.of_same hlater hissued hurls hobjects (hcalls _)
      apply Phase.accounted_of_not_signs hphase
  | @reads documentId current declaration howned =>
      obtain ⟨hrow, huser, -⟩ := DocumentsService.getOwned_eq_ok_iff.mp howned
      obtain rfl := Table.key_of_find hrow
      apply h.of_same hlater rfl rfl hobjects (hcalls _)
      exact hlater.registered c.userId current.id ⟨current, hrow, huser⟩
  | @issues current declaration upload random _ _ hphase hkey hissued hurls hnext =>
      rw [hphase] at hknows
      have hmem : upload ∈ t.issued := by
        rw [hissued]
        exact List.mem_append_right _ List.mem_cons_self
      have huser : upload.storageKey.userId = c.userId := by
        rw [hkey]
      constructor
      · intro c' hc'
        rcases Table.mem_rows_put_iff.mp hc' with rfl | ⟨hold, -⟩
        · rcases hnext with hquiet | rfl | ⟨key, rfl⟩
          · apply Phase.accounted_of_not_signs hquiet
          · exact ⟨hmem, huser⟩
          · exact ⟨hmem, huser⟩
        · apply (h.calls c' hold).mono hlater
      · intro issued hin
        apply hlater.registered
        change issued ∈ t.issued at hin
        rw [hissued, List.mem_append, List.mem_singleton] at hin
        rcases hin with hin | rfl
        · apply h.issued issued hin
        · rw [hkey]
          exact hknows
      · intro url hurl
        obtain ⟨giver, hgiver, hreturned⟩ := h.urls url (hurls ▸ hurl)
        exact ⟨giver, hlater.returned giver hgiver url hreturned, hreturned⟩
      · intro object hobject
        change ∃ url ∈ t.urls, _
        rw [hurls]
        apply h.objects object (hobjects object hobject)
  | supersedes hphase hissued hurls =>
      rw [hphase] at hknows
      apply h.of_same hlater hissued hurls hobjects (hcalls _)
      exact hknows.mono hlater
  | presigns hphase =>
      rw [hphase] at hknows
      apply h.of_same hlater rfl rfl hobjects (hcalls _)
      exact ⟨hknows.mono hlater, s.now, hlater.now, rfl⟩
  | @returns documentId upload url document _ hphase hissued hurls =>
      rw [hphase] at hknows
      have hown : IssuedTo { t with calls := s.calls.put { c with
          phase := .returned (.ok (.upload url document)) } } c.userId upload := hknows.1.mono hlater
      constructor
      · intro c' hc'
        rcases hcalls ⟨upload, hown, hknows.2.mono hlater.now⟩ c' hc' with hold | hnew
        · apply (h.calls c' hold).mono hlater
        · exact hnew
      · intro issued hin
        apply hlater.registered
        apply h.issued issued (hissued ▸ hin)
      · intro given hgiven
        change given ∈ t.urls at hgiven
        rw [hurls, List.mem_append, List.mem_singleton] at hgiven
        rcases hgiven with hgiven | rfl
        · obtain ⟨giver, hgiver, hreturned⟩ := h.urls given hgiven
          exact ⟨giver, hlater.returned giver hgiver given hreturned, hreturned⟩
        · exact ⟨_, Table.mem_rows_put_iff.mpr (.inl rfl), document, rfl⟩
      · intro object hobject
        obtain ⟨given, hgiven, haccepted⟩ := h.objects object (hobjects object hobject)
        refine ⟨given, ?_, haccepted⟩
        change given ∈ t.urls
        rw [hurls]
        exact List.mem_append_left _ hgiven

theorem Operation.start_signs (now : ℕ) (operation : Operation) :
  (operation.start config unicode now).signs = false
  := by
  cases operation with
  | create dto => simp only [start]; split <;> rfl
  | update documentId dto => rfl
  | createUploadUrl documentId dto => simp only [start]; split <;> rfl
  | completeUpload documentId dto => rfl
  | remove documentId => rfl

/-- What a step of a call leaves of the objects was there. -/
theorem Call.objects_subset {c : Call config} {action : Action} {next : State config × Phase config}
    (h : c.act storage unicode s action = some next) :
  ∀ object ∈ next.1.objects.rows, object ∈ s.objects.rows
  := by
  intro object hobject
  rcases objects_act h with hsame | ⟨key, -, herase⟩
  · rwa [hsame] at hobject
  · rw [herase] at hobject
    exact List.mem_of_mem_filter hobject

/-- Every step keeps everything accounted for. -/
theorem Accounted.step {label : Label} (h : Accounted storage s)
    (hstep : (system config storage unicode).step s label = some s') :
  Accounted storage s'
  := by
  have hlater := later_of_step hstep
  change Documents.step storage unicode s label = some s' at hstep
  cases label with
  | call id userId operation =>
      obtain ⟨calls, hcreate, hstep⟩ := Option.bind_eq_some_iff.mp hstep
      obtain rfl := Option.some.inj hstep
      apply h.of_same hlater rfl rfl (fun _ h => h)
      intro c hc
      change c ∈ Table.rows calls at hc
      rw [Table.rows_of_create hcreate, List.mem_append, List.mem_singleton] at hc
      rcases hc with hold | rfl
      · exact .inl hold
      · exact .inr (Phase.accounted_of_not_signs (Operation.start_signs s.now operation) userId)
  | step callId action =>
      obtain ⟨c, hc, hstep⟩ := Option.bind_eq_some_iff.mp hstep
      obtain ⟨next, hact, hstep⟩ := Option.bind_eq_some_iff.mp hstep
      obtain rfl := Option.some.inj hstep
      obtain rfl := Table.key_of_find hc
      exact (Call.signs_of_act hact).accounted h hc hlater (Call.objects_subset hact)
  | put url contentType bytes etag =>
      simp only [Documents.step] at hstep
      split at hstep
      swap
      · cases hstep
      rename_i hguard
      obtain ⟨hurl, -, rfl, hlength⟩ := hguard
      obtain rfl := Option.some.inj hstep
      constructor
      · exact fun c hc => (h.calls c hc).mono hlater
      · exact h.issued
      · exact h.urls
      · intro object hobject
        rcases Table.mem_rows_put_iff.mp hobject with rfl | ⟨hold, -⟩
        · exact ⟨url, hurl, rfl, rfl, hlength, rfl⟩
        · apply h.objects object hold
  | removeFolder userId folderId =>
      obtain ⟨documents, folders, events, rfl⟩ := State.removeFolder_eq_some hstep
      exact h.of_same hlater rfl rfl (fun _ h => h) (fun _ h => .inl h)
  | tick | writeFolder | setTotalPages =>
      obtain rfl := Option.some.inj hstep
      exact h.of_same hlater rfl rfl (fun _ h => h) (fun _ h => .inl h)

theorem accounted_init (hinit : (system config storage unicode).init s)
    (hempty : s.objects.rows = []) :
  Accounted storage s
  := by
  obtain ⟨-, hcalls, hissued, hurls, -⟩ := hinit
  refine ⟨?_, ?_, ?_, ?_⟩
  · simp [hcalls]
  · simp [hissued]
  · simp [hurls]
  · simp [hempty]

end

/-! ### Runs -/

/-- The row says of the object what it is. -/
structure Describes (r : Document) (object : StoredObject) : Prop where
  owner : r.id = object.key.documentId ∧ r.userId = object.key.userId
  mimeType : r.mimeType = object.contentType
  fileSize : r.fileSize = some object.bytes.length

/-- Two issued keys that are the same were issued for the same upload. -/
theorem upload_of_key {s : State config} (hinvariant : Invariant unicode s)
    {upload upload' : Upload config} (hupload : upload ∈ s.issued) (hupload' : upload' ∈ s.issued)
    (hkey : upload.storageKey = upload'.storageKey) :
  upload = upload'
  := List.inj_on_of_nodup_map hinvariant.keys hupload hupload' hkey

/-- A call returned no URL but one that was signed for an upload issued to its user. -/
theorem Accounted.issuedTo {s : State config} (h : Accounted storage s) {c : Call config}
    (hc : c ∈ s.calls.rows) {url : PresignedUrl} (hreturned : c.Returned url) :
  ∃ upload, IssuedTo s c.userId upload ∧ Signed storage s.now upload url
  := by
  obtain ⟨document, hphase⟩ := hreturned
  have hknows := h.calls c hc
  rw [hphase] at hknows
  exact hknows

/-- A URL that was given to a client was signed for an issued upload. -/
theorem Accounted.signed {s : State config} (h : Accounted storage s) {url : PresignedUrl}
    (hurl : url ∈ s.urls) :
  ∃ upload ∈ s.issued, Signed storage s.now upload url
  := by
  obtain ⟨c, hc, hreturned⟩ := h.urls url hurl
  obtain ⟨upload, hissued, hsigned⟩ := h.issuedTo hc hreturned
  exact ⟨upload, hissued.issued, hsigned⟩

/-- A row that refers to an object describes it. -/
theorem Accounted.describes {s : State config} (h : Accounted storage s)
    (hinvariant : Invariant unicode s) {r : Document} (hr : r ∈ s.documents.rows)
    {key : StorageKey} (hkey : r.storageKey = some key) {object : StoredObject}
    (hobject : s.objects.find key = some object) :
  Describes r object
  := by
  obtain ⟨url, hurl, haccepted⟩ := h.objects object (Table.mem_of_find hobject)
  obtain ⟨upload, hupload, signedAt, -, rfl⟩ := h.signed hurl
  have hrow := hinvariant.rows r.id r (Table.mem_rows_iff.mp hr)
  obtain ⟨hid, huser, declared, hdeclared, rfl, htype, hsize⟩ := hrow.declared key hkey
  have hobjectKey : object.key = declared.storageKey := Table.key_of_find hobject
  obtain rfl : upload = declared := by
    apply upload_of_key hinvariant hupload hdeclared
    rw [← hobjectKey]
    exact haccepted.key.symm
  constructor
  · rw [hobjectKey]
    exact ⟨hid.symm, huser.symm⟩
  · rw [htype, haccepted.contentType]
    rfl
  · rw [hsize, haccepted.contentLength]
    rfl

/-- Storage and database agree: in every run that starts with nothing stored, a call returns no URL
but one that was signed for an upload declared for a document of its own user, within the limits;
clients use no other URLs; the objects are what such a URL accepts; and every row that refers to an
object, in whatever state, has its size and type. -/
theorem stored_objects_declared {s₀ s : State config} {ts : List (Transition (State config) Label)}
    (hrun : (system config storage unicode).Run s₀ ts s)
    (hinit : (system config storage unicode).init s₀) (hempty : s₀.objects.rows = []) :
  (∀ c ∈ s.calls.rows, ∀ url, c.Returned url → ∃ upload, Announced s upload
    ∧ upload.storageKey.userId = c.userId ∧ Signed storage s.now upload url)
  ∧ (∀ url ∈ s.urls, ∃ c ∈ s.calls.rows, c.Returned url)
  ∧ (∀ object ∈ s.objects.rows, ∃ url ∈ s.urls, Accepted url object
    ∧ url.contentType ∈ config.allowedMimeTypes
    ∧ 1 ≤ object.bytes.length ∧ object.bytes.length ≤ config.maxFileSizeBytes)
  ∧ ∀ r ∈ s.documents.rows, ∀ key, r.storageKey = some key →
    ∀ object, s.objects.find key = some object → Describes r object
  := by
  have hinvariant : Invariant unicode s :=
    hrun.invariant (invariant_init hinit) fun t _ hstep h => (moves_of_step hstep).invariant h
  have haccounted : Accounted storage s :=
    hrun.invariant (accounted_init hinit hempty) fun t _ hstep h => h.step hstep
  refine ⟨?_, haccounted.urls, ?_, ?_⟩
  · intro c hc url hreturned
    obtain ⟨upload, ⟨hissued, huser⟩, hsigned⟩ := haccounted.issuedTo hc hreturned
    exact ⟨upload, ⟨hissued, haccounted.issued upload hissued⟩, huser, hsigned⟩
  · intro object hobject
    obtain ⟨url, hurl, haccepted⟩ := haccounted.objects object hobject
    obtain ⟨upload, hupload, signedAt, -, rfl⟩ := haccounted.signed hurl
    refine ⟨_, hurl, haccepted, upload.allowed, ?_, ?_⟩
    · rw [haccepted.contentLength]
      exact upload.pos
    · rw [haccepted.contentLength]
      exact upload.le_max
  · intro r hr key hkey object hobject
    apply haccounted.describes hinvariant hr hkey hobject

/-- A file that was replaced after its document became READY still has the type and size the
document says. -/
theorem stored_objects_declared_of_replacement :
  ∃ ts s, (system sampleConfig sampleStorage asciiUnicode).Run sampleState ts s
    ∧ ReadyUnder s ⟨7, 1, 5⟩ ∧ bytesUnder s ⟨7, 1, 5⟩ = some otherBytes
    ∧ (∀ c ∈ s.calls.rows, ∀ url, c.Returned url → ∃ upload, Announced s upload
      ∧ upload.storageKey.userId = c.userId ∧ Signed sampleStorage s.now upload url)
    ∧ (∀ url ∈ s.urls, ∃ c ∈ s.calls.rows, c.Returned url)
    ∧ (∀ object ∈ s.objects.rows, ∃ url ∈ s.urls, Accepted url object
      ∧ url.contentType ∈ sampleConfig.allowedMimeTypes
      ∧ 1 ≤ object.bytes.length ∧ object.bytes.length ≤ sampleConfig.maxFileSizeBytes)
    ∧ ∀ r ∈ s.documents.rows, ∀ key, r.storageKey = some key →
      ∀ object, s.objects.find key = some object → Describes r object
  := by
  have hsome : ((system sampleConfig sampleStorage asciiUnicode).execute (fun _ => true) sampleState
      (createAndUpload ++ complete ++ [upload otherBytes (js "def456")])).any (fun s =>
        decide (ReadyUnder s ⟨7, 1, 5⟩) && bytesUnder s ⟨7, 1, 5⟩ = some otherBytes) = true := by
    decide +kernel
  obtain ⟨s, hs, hend⟩ := (Option.any_eq_true _ _).mp hsome
  obtain ⟨ts, hrun, -⟩ := TransitionSystem.run_of_execute hs
  simp only [Bool.and_eq_true, decide_eq_true_eq] at hend
  refine ⟨ts, s, hrun, hend.1, hend.2, ?_⟩
  exact stored_objects_declared hrun ⟨rfl, rfl, rfl, rfl, rfl, rfl⟩ rfl

end Documents

end DocuAI

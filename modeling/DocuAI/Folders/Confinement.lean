import DocuAI.Documents.Confinement
import DocuAI.Folders.Hierarchy

/-!
# Calls on folders stay with their user

A call changes folders and documents of its user only (`Call.safe_act`), and what it does is
determined by these (`Call.act_only`).  Three of its statements are not restricted to the user: the
one that sets the columns of a folder, the foreign key that keeps a parent from being deleted, and
the one that clears references to a deleted folder.  They meet rows of the user only, as the folder
the call has looked up is the user's, and so are its children and the documents in it.
-/

namespace DocuAI

namespace Folders

open FoldersService

variable {config : DocumentsConfig}

/-! ### What a call changes -/

/-- A step of a call changes folders and documents of its user only, and no user of a folder. -/
structure Call.Safe (holds : ℕ → ℕ → Prop) (c : Call) (action : Action) (s s' : Store) : Prop where
  others : ∀ other ≠ c.userId, s'.folders.restrict (Folder.isOf other)
    = s.folders.restrict (Folder.isOf other)
  folders : ∀ folder' ∈ s'.folders.rows,
    (∃ folder ∈ s.folders.rows, folder.id = folder'.id ∧ folder.userId = folder'.userId)
      ∨ action = .insert folder'.id
  documents : DocumentsKept holds c.userId s.documents s'.documents

theorem isOf_save_apply (now id : ℕ) (data : FolderData) (userId : ℕ) (folder : Folder) :
  ((save now id data).apply folder).isOf userId = folder.isOf userId
  := by
  rw [Folder.isOf, Folder.isOf, userId_save_apply]

theorem isOf_promote_apply (now : ℕ) (folder : Folder) (userId userId' : ℕ) (child : Folder) :
  ((promote now folder userId).apply child).isOf userId' = child.isOf userId'
  := by
  rw [Folder.isOf, Folder.isOf, userId_promote_apply]

/-- The folder a user's call has looked up is the only one with its id. -/
theorem userId_of_owned {folders : Table Folder.id} {userId : ℕ} {current folder : Folder}
    (h : ownedBy folders userId current.id = some current) (hfolder : folder ∈ folders.rows)
    (hid : folder.id = current.id) :
  folder.userId = userId
  := by
  obtain ⟨hfind, huser⟩ := ownedBy_eq_some_iff.mp h
  rw [Table.mem_rows_iff, hid, hfind] at hfolder
  rw [← Option.some.inj hfolder]
  apply huser

section

variable {holds : ℕ → ℕ → Prop} {s s' : Store} {c : Call} {action : Action} {phase : Phase}

theorem Call.Safe.refl (hrows : ∀ document ∈ s.documents.rows, document.Owned holds) :
  c.Safe holds action s s
  := ⟨fun _ _ => rfl, fun folder hfolder => .inl ⟨folder, hfolder, rfl, rfl⟩, .refl hrows⟩

/-- An update of folders of the user. -/
theorem others_updateMany {folders : Table Folder.id} {userId : ℕ} {u : Update Folder.id}
    (huser : ∀ folder, (u.apply folder).userId = folder.userId)
    (hguard : ∀ folder ∈ folders.rows, u.guard folder = true → folder.userId = userId) :
  ∀ other ≠ userId, (folders.updateMany u).1.restrict (Folder.isOf other)
    = folders.restrict (Folder.isOf other)
  := by
  intro other hne
  apply Table.restrict_updateMany_of_not
  · intro folder
    rw [Folder.isOf, Folder.isOf, huser]
  · intro folder hfolder hother
    by_contra hadmits
    apply hne
    rw [← of_decide_eq_true hother]
    apply hguard folder hfolder (Bool.not_eq_false _ ▸ hadmits)

/-- Two changes of documents by a user, one after the other. -/
theorem documentsKept_trans {userId : ℕ} {a b d : Table Document.id}
    (h : DocumentsKept holds userId a b) (h' : DocumentsKept holds userId b d) :
  DocumentsKept holds userId a d
  := by
  refine ⟨?_, ?_, h'.owned⟩
  · intro other hne
    rw [h'.others other hne, h.others other hne]
  · intro id document hfind
    obtain ⟨document', hfind', huser⟩ := h.owners id document hfind
    obtain ⟨document'', hfind'', huser'⟩ := h'.owners id document' hfind'
    exact ⟨document'', hfind'', huser'.trans huser⟩

/-- What is done to the documents of a folder that is removed. -/
theorem documentsKept_delete {folder : Folder} {now : ℕ} {unfiled : List ℕ}
    (howned : ownedBy s.folders c.userId folder.id = some folder)
    (hrows : ∀ document ∈ s.documents.rows, document.Owned holds)
    (hholds : ∀ userId folderId, holds userId folderId → HeldBy s.folders userId folderId) :
  DocumentsKept holds c.userId s.documents
    ((s.documents.updateMany
        (((DocumentWrite.unfile folder.id c.userId : DocumentWrite config).update now).among
          fun document => document.id ∈ unfiled)).1.updateMany
      ((DocumentWrite.unreference folder.id : DocumentWrite config).update now)).1
  := by
  obtain ⟨hfind, huser⟩ := ownedBy_eq_some_iff.mp howned
  have hcleared : ∀ (w : DocumentWrite config) (document : Document), document.Owned holds →
      w = .unfile folder.id c.userId ∨ w = .unreference folder.id →
      ((w.update now).data document).Owned holds := by
    rintro w document hdocument (rfl | rfl)
    · exact hdocument.of_same rfl (.inr rfl) rfl
    · exact hdocument.of_same rfl (.inr rfl) rfl
  have hunfiled : DocumentsKept holds c.userId s.documents (s.documents.updateMany
      (((DocumentWrite.unfile folder.id c.userId : DocumentWrite config).update now).among
        fun document => document.id ∈ unfiled)).1 := by
    apply DocumentsKept.updateMany hrows
    · intro document
      unfold Update.apply
      split <;> rfl
    · intro document _ hguard
      simp only [Update.among, DocumentWrite.update, Bool.and_eq_true, decide_eq_true_eq] at hguard
      exact hguard.2.2
    · intro document hdocument _
      exact hcleared _ document hdocument (.inl rfl)
  apply documentsKept_trans hunfiled
  apply DocumentsKept.updateMany hunfiled.owned (DocumentWrite.userId_apply _ now)
  · intro document hdocument hguard
    have hin : document.folderId = some folder.id := of_decide_eq_true hguard
    have hheld := hholds _ _ ((hunfiled.owned document hdocument).folder folder.id hin) folder hfind
    rw [← hheld, huser]
  · intro document hdocument _
    exact hcleared _ document hdocument (.inr rfl)

theorem Call.safe_act (howned : c.phase.Knows (ownedBy s.folders c.userId))
    (hrows : ∀ document ∈ s.documents.rows, document.Owned holds)
    (hholds : ∀ userId folderId, holds userId folderId → HeldBy s.folders userId folderId)
    (h : c.act config s action = some (s', phase)) :
  c.Safe holds action s s'
  := by
  cases Call.acts_of_act h with
  | reads | throws | orphans | refuses | keeps => apply Call.Safe.refl hrows
  | creates hphase haction hcreate =>
      refine ⟨?_, ?_, .refl hrows⟩
      · intro other hne
        apply Table.restrict_create_of_not hcreate
        exact decide_eq_false (Ne.symm hne)
      · intro folder' hfolder'
        rw [Table.rows_of_create hcreate, List.mem_append, List.mem_singleton] at hfolder'
        rcases hfolder' with hfolder' | rfl
        · exact .inl ⟨folder', hfolder', rfl, rfl⟩
        · exact .inr haction
  | @saves current folder data hphase =>
      rw [hphase] at howned
      have hcurrent := howned.1
      refine ⟨?_, ?_, .refl hrows⟩
      · apply others_updateMany (userId_save_apply s.now current.id data)
        intro folder hfolder hguard
        exact userId_of_owned hcurrent hfolder (of_decide_eq_true hguard)
      · intro folder' hfolder'
        obtain ⟨folder, hfolder, rfl⟩ := List.mem_map.mp hfolder'
        exact .inl ⟨folder, hfolder, (Update.key_apply _ folder).symm,
          (userId_save_apply s.now current.id data folder).symm⟩
  | @deletes folder unfiled promotedFolders hphase =>
      rw [hphase] at howned
      refine ⟨?_, ?_, documentsKept_delete howned hrows hholds⟩
      · intro other hne
        rw [Table.restrict_erase_of_not]
        · apply others_updateMany (userId_promote_apply s.now folder c.userId) _ other hne
          intro child _ hguard
          simp only [promote, Bool.and_eq_true, decide_eq_true_eq] at hguard
          exact hguard.2
        · intro child hchild hid
          obtain ⟨old, hold, rfl⟩ := List.mem_map.mp hchild
          have hid : old.id = folder.id :=
            (Update.key_apply (promote s.now folder c.userId) old).symm.trans hid
          rw [isOf_promote_apply, Folder.isOf, userId_of_owned howned hold hid]
          exact decide_eq_false (Ne.symm hne)
      · intro folder' hfolder'
        obtain ⟨hfolder', -⟩ := List.mem_filter.mp hfolder'
        obtain ⟨old, hold, rfl⟩ := List.mem_map.mp hfolder'
        exact .inl ⟨old, hold, (Update.key_apply _ old).symm,
          (userId_promote_apply s.now folder c.userId old).symm⟩

end

/-! ### What a call sees -/

/-- The part of the store that is a user's. -/
def Store.only (s : Store) (userId : ℕ) : Store :=
  { s with
    folders := s.folders.restrict (Folder.isOf userId)
    documents := s.documents.restrict (Document.isOf userId) }

/-- What of a step concerns a user. -/
def seen (userId : ℕ) (r : Store × Phase) : Store × Phase :=
  (r.1.only userId, r.2)

@[simp]
theorem seen_mk (s : Store) (phase : Phase) (userId : ℕ) :
  seen userId (s, phase) = (s.only userId, phase)
  := rfl

@[simp]
theorem Store.only_only (s : Store) (userId : ℕ) :
  (s.only userId).only userId = s.only userId
  := by
  simp [only]

section

variable (folders : Table Folder.id) (userId : ℕ)

theorem getOwned_restrict (folderId : ℕ) :
  getOwned (folders.restrict (Folder.isOf userId)) userId folderId
    = getOwned folders userId folderId
  := by
  have hfilter : ((folders.restrict (Folder.isOf userId)).find folderId).filter
        (fun folder => folder.userId = userId)
      = (folders.find folderId).filter fun folder => folder.userId = userId := by
    rw [Table.find_restrict]
    cases folders.find folderId with
    | none => rfl
    | some folder => by_cases huser : folder.userId = userId <;>
        simp [Option.filter, Folder.isOf, huser]
  unfold getOwned
  rw [hfilter]

theorem anchor_restrict (folderId : ℕ) :
  anchor (folders.restrict (Folder.isOf userId)) userId folderId
    = anchor folders userId folderId
  := by
  apply Table.filter_restrict
  intro folder _ hanchor
  exact (Bool.and_eq_true_iff.mp hanchor).2

theorem ancestorChain_restrict (limit folderId : ℕ) :
  ancestorChain (folders.restrict (Folder.isOf userId)) userId limit folderId
    = ancestorChain folders userId limit folderId
  := by
  have hjoin : joinParent (folders.restrict (Folder.isOf userId)) userId
      = joinParent folders userId := by
    funext c
    apply Table.filter_restrict
    intro folder _ hjoin
    exact (Bool.and_eq_true_iff.mp hjoin).2
  unfold ancestorChain
  rw [hjoin, anchor_restrict]

theorem subtreeHeight_restrict (limit folderId : ℕ) :
  subtreeHeight (folders.restrict (Folder.isOf userId)) userId limit folderId
    = subtreeHeight folders userId limit folderId
  := by
  have hjoin : joinChildren (folders.restrict (Folder.isOf userId)) userId
      = joinChildren folders userId := by
    funext s
    apply Table.filter_restrict
    intro folder _ hjoin
    exact (Bool.and_eq_true_iff.mp hjoin).2
  unfold subtreeHeight
  rw [hjoin, anchor_restrict]

variable {folders userId}

/-- A folder of the user may be referred to, also when only the folders of the user are seen. -/
theorem admits_restrict {parentId : Option ℕ}
    (h : ∀ p, parentId = some p → ∃ parent, ownedBy folders userId p = some parent) :
  admits (folders.restrict (Folder.isOf userId)) parentId = true ∧ admits folders parentId = true
  := by
  cases parentId with
  | none => exact ⟨rfl, rfl⟩
  | some p =>
      obtain ⟨parent, howned⟩ := h p rfl
      obtain ⟨hfind, huser⟩ := ownedBy_eq_some_iff.mp howned
      simp [admits, Table.find_restrict, hfind, Option.filter, Folder.isOf, huser]

/-- A change of columns of a folder of the user. -/
theorem restrict_save (now : ℕ) (data : FolderData) (current : Folder) :
  (folders.updateMany (save now current.id data)).1.restrict (Folder.isOf userId)
    = ((folders.restrict (Folder.isOf userId)).updateMany (save now current.id data)).1
  := by
  apply Table.restrict_updateMany
  intro folder
  apply isOf_save_apply

end

section

variable (s : Store) (c : Call)

theorem Call.withOwned_only (folderId : ℕ) (next : Folder → Phase) :
  c.withOwned (s.only c.userId) folderId next = c.withOwned s folderId next
  := by
  unfold withOwned
  rw [show (s.only c.userId).folders = s.folders.restrict (Folder.isOf c.userId) from rfl,
    getOwned_restrict]

theorem Call.create_only {name : JsString} {parentId : Option ℕ} {id : ℕ}
    (hparent : ∀ p, parentId = some p → ∃ parent, ownedBy s.folders c.userId p = some parent)
    (hfresh : s.folders.find id = none) :
  (c.create (s.only c.userId) name parentId id).map (seen c.userId)
    = (c.create s name parentId id).map (seen c.userId)
  := by
  obtain ⟨honly, hadmits⟩ := admits_restrict hparent
  obtain ⟨folders, hcreate⟩ := Table.exists_create
    (r := createdFolder id c.userId name parentId s.now) hfresh
  have hcreateOnly : (s.only c.userId).folders.create
      (createdFolder id c.userId name parentId (s.only c.userId).now)
        = some (folders.restrict (Folder.isOf c.userId)) :=
    Table.create_restrict hcreate (decide_eq_true rfl)
  unfold create
  rw [show (s.only c.userId).folders = s.folders.restrict (Folder.isOf c.userId) from rfl] at *
  simp only [honly, hadmits, Bool.not_true, Bool.false_eq_true, if_false, hcreate, hcreateOnly]
  simp [Store.only]

theorem Call.save_only {current : Folder} {data : FolderData}
    (hcurrent : ownedBy s.folders c.userId current.id = some current)
    (hparent : ∀ p, data.parentId.join = some p → ∃ parent, ownedBy s.folders c.userId p = some parent) :
  seen c.userId (save (s.only c.userId) current data) = seen c.userId (save s current data)
  := by
  obtain ⟨honly, hadmits⟩ := admits_restrict hparent
  obtain ⟨hfind, huser⟩ := ownedBy_eq_some_iff.mp hcurrent
  have hsaved : ∀ t : Table Folder.id, t.find current.id = some current →
      (t.updateMany (FoldersService.save s.now current.id data)).1.find current.id
        = some ((FoldersService.save s.now current.id data).apply current) := by
    intro t ht
    rw [Table.find_updateMany, ht, Option.map_some]
  have hfindOnly : (s.folders.restrict (Folder.isOf c.userId)).find current.id = some current := by
    rw [Table.find_restrict, hfind]
    simp [Option.filter, Folder.isOf, huser]
  unfold save
  simp only [Store.only, honly, hadmits, hsaved _ hfind, hsaved _ hfindOnly]
  split
  · simp [Store.only]
  · simp [Store.only, restrict_save]

theorem Call.unfile_only (folder : Folder) :
  c.unfile config (s.only c.userId) folder = c.unfile config s folder
  := by
  have hfilter : (s.only c.userId).documents.rows.filter
        ((DocumentWrite.unfile folder.id c.userId : DocumentWrite config).update s.now).guard
      = s.documents.rows.filter
        ((DocumentWrite.unfile folder.id c.userId : DocumentWrite config).update s.now).guard := by
    apply Table.filter_restrict
    intro document _ hguard
    exact (Bool.and_eq_true_iff.mp hguard).2
  unfold unfile
  simp only [show (s.only c.userId).now = s.now from rfl, hfilter]

/-- Whoever has a folder of the user as parent is a folder of the user. -/
theorem userId_of_parentId {userId : ℕ} {folder child : Folder}
    (h : ∀ userId, Hierarchy (ownedBy s.folders userId))
    (howned : ownedBy s.folders userId folder.id = some folder) (hchild : child ∈ s.folders.rows)
    (hparent : child.parentId = some folder.id) :
  child.userId = userId
  := by
  have hchildOwned : ownedBy s.folders child.userId child.id = some child :=
    ownedBy_eq_some_iff.mpr ⟨Table.mem_rows_iff.mp hchild, rfl⟩
  obtain ⟨parent, hfound⟩ := (h child.userId).closed hchildOwned hparent
  obtain ⟨hfind, huser⟩ := ownedBy_eq_some_iff.mp howned
  obtain ⟨hfind', huser'⟩ := ownedBy_eq_some_iff.mp hfound
  rw [hfind] at hfind'
  obtain rfl := Option.some.inj hfind'
  rw [← huser', huser]

theorem Call.delete_only {folder : Folder} {unfiled : List ℕ}
    (h : ∀ userId, Hierarchy (ownedBy s.folders userId))
    (howned : ownedBy s.folders c.userId folder.id = some folder) :
  seen c.userId (c.delete config (s.only c.userId) folder unfiled)
    = seen c.userId (c.delete config s folder unfiled)
  := by
  let promoted := s.folders.updateMany (promote s.now folder c.userId)
  have hpromoted : (s.folders.restrict (Folder.isOf c.userId)).updateMany
      (promote s.now folder c.userId) = (promoted.1.restrict (Folder.isOf c.userId), promoted.2) := by
    apply Prod.ext
    · symm
      apply Table.restrict_updateMany
      intro child
      apply isOf_promote_apply
    · apply Table.count_restrict
      intro child _ hguard
      exact (Bool.and_eq_true_iff.mp hguard).2
  have hdeleted : (promoted.1.restrict (Folder.isOf c.userId)).rows.countP
        (fun r => r.id = folder.id && r.userId = c.userId)
      = promoted.1.rows.countP fun r => r.id = folder.id && r.userId = c.userId := by
    rw [List.countP_eq_length_filter, List.countP_eq_length_filter, Table.filter_restrict]
    intro r _ hr
    exact (Bool.and_eq_true_iff.mp hr).2
  have hchildren : (promoted.1.restrict (Folder.isOf c.userId)).rows.any
        (fun r => r.id ≠ folder.id && r.parentId = some folder.id)
      = promoted.1.rows.any fun r => r.id ≠ folder.id && r.parentId = some folder.id := by
    apply Table.any_restrict
    intro r hr hchild
    obtain ⟨old, hold, rfl⟩ := List.mem_map.mp hr
    rw [isOf_promote_apply]
    apply decide_eq_true
    by_contra hne
    rw [Update.apply_of_not_guard] at hchild
    · simp only [Bool.and_eq_true, decide_eq_true_eq] at hchild
      apply hne (userId_of_parentId s h howned hold hchild.2)
    · simp [promote, hne]
  have hdocuments : ∀ (u : Update Document.id) (t : Table Document.id),
      (∀ document, (u.apply document).userId = document.userId) →
        ((t.restrict (Document.isOf c.userId)).updateMany u).1
          = (t.updateMany u).1.restrict (Document.isOf c.userId) := by
    intro u t hu
    symm
    apply Table.restrict_updateMany
    intro document
    rw [Document.isOf, Document.isOf, hu]
  have hunfiled := hdocuments
    (((DocumentWrite.unfile folder.id c.userId : DocumentWrite config).update s.now).among
      fun document => document.id ∈ unfiled) s.documents (by
        intro document
        unfold Update.apply
        split <;> rfl)
  have hunreferenced := fun t => hdocuments
    ((DocumentWrite.unreference folder.id : DocumentWrite config).update s.now) t
      (DocumentWrite.userId_apply _ s.now)
  unfold delete
  simp only [show (s.only c.userId).folders = s.folders.restrict (Folder.isOf c.userId) from rfl,
    show (s.only c.userId).documents = s.documents.restrict (Document.isOf c.userId) from rfl,
    show (s.only c.userId).now = s.now from rfl, hpromoted, hdeleted, hchildren, hunfiled,
    hunreferenced]
  split
  · simp
  · split
    · simp
    · simp [Store.only, Table.restrict_erase, promoted]

theorem Call.advance_only (h : ∀ userId, Hierarchy (ownedBy s.folders userId))
    (hknows : c.phase.Knows (ownedBy s.folders c.userId)) :
  (c.advance config (s.only c.userId)).map (seen c.userId)
    = (c.advance config s).map (seen c.userId)
  := by
  have hchain := ancestorChain_restrict s.folders c.userId
  have hheight := subtreeHeight_restrict s.folders c.userId
  cases hphase : c.phase with
  | creatingIn name parentId =>
      have hplace : c.place (s.only c.userId) name parentId = c.place s name parentId := by
        simp only [place, Store.only, hchain]
      simp only [advance, hphase, Option.map_some, seen_mk, hplace, Store.only_only]
  | updating folderId dto | removing folderId =>
      simp only [advance, hphase, Option.map_some, seen_mk, withOwned_only, Store.only_only]
  | moving current name newParentId =>
      have hmove : c.move (s.only c.userId) current name newParentId
          = c.move s current name newParentId := by
        simp only [move, Store.only, hchain]
      simp only [advance, hphase, Option.map_some, seen_mk, hmove, Store.only_only]
  | measuring current name newParentId parentDepth =>
      have hmeasure : c.measure (s.only c.userId) current name newParentId parentDepth
          = c.measure s current name newParentId parentDepth := by
        simp only [measure, Store.only, hheight]
      simp only [advance, hphase, Option.map_some, seen_mk, hmeasure, Store.only_only]
  | saving current data =>
      rw [hphase] at hknows
      obtain ⟨hcurrent, hplaced⟩ := hknows
      have hparent : ∀ p, data.parentId.join = some p →
          ∃ parent, ownedBy s.folders c.userId p = some parent := by
        intro p hp
        obtain ⟨depth, height, hadmits, -, -⟩ := hplaced (some p) (Option.join_eq_some_iff.mp hp)
        exact hadmits.exists_owned rfl
      simp only [advance, hphase, Option.map_some, save_only s c hcurrent hparent]
  | unfiling folder =>
      simp only [advance, hphase, Option.map_some, seen_mk, unfile_only, Store.only_only]
  | deleting folder unfiled =>
      rw [hphase] at hknows
      simp only [advance, hphase, Option.map_some, delete_only s c h hknows]
  | waiting | creating | returned | rejected => simp only [advance, hphase]

/-- What a step of a call makes of the rows of its user, and where the call goes, depends on these
rows only, as long as the id of a new folder is not taken. -/
theorem Call.act_only {action : Action} (h : ∀ userId, Hierarchy (ownedBy s.folders userId))
    (hknows : c.phase.Knows (ownedBy s.folders c.userId))
    (hfresh : ∀ id, action = .insert id → s.folders.find id = none) :
  (c.act config (s.only c.userId) action).map (seen c.userId)
    = (c.act config s action).map (seen c.userId)
  := by
  cases action with
  | lock =>
      simp only [act]
      split
      · simp
      · rfl
  | advance => apply advance_only s c h hknows
  | insert id =>
      simp only [act]
      split
      · rename_i name parentId hphase
        rw [hphase] at hknows
        apply create_only s c _ (hfresh id rfl)
        intro p hp
        exact (hknows p hp).1
      · rfl
  | throw =>
      simp only [act]
      split
      · rfl
      · rfl
      · simp

end

end Folders

end DocuAI

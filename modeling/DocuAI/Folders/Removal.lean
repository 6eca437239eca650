import DocuAI.Folders.Hierarchy

/-!
# The removal of a folder

What the statements of `remove` make of the folders and the documents.  When the folders form
a bounded forest, all children of the folder are the user's and move up to its parent, so that no
folder keeps the database from deleting it, the folders that stay keep their ancestors, and none of
them gets deeper.
-/

namespace DocuAI

namespace Folders

open FoldersService Forest Relation

variable {folders : Table Folder.id}

/-! ### The forest of all users -/

/-- The parent of a folder of any user. -/
def parentIn (folders : Table Folder.id) (id : ℕ) : Option ℕ :=
  (folders.find id).bind Folder.parentId

theorem isParent_iff {a b : ℕ} :
  IsParent folders a b ↔ parentIn folders a = some b
  := Option.bind_eq_some_iff.symm

theorem transGen_isParent {a b : ℕ} :
  TransGen (IsParent folders) a b ↔ TransGen (fun u v => parentIn folders u = some v) a b
  := by
  have hsame : IsParent folders = fun u v => parentIn folders u = some v := by
    ext u v
    apply isParent_iff
  rw [hsame]

/-- A folder of some depth has it in the forest of all users. -/
theorem HasDepth.depth {id depth : ℕ} (h : HasDepth folders id depth) :
  Depth (parentIn folders) id depth
  := by
  induction h with
  | root hfind hroot =>
      apply Depth.root
      rw [parentIn, hfind, Option.bind_some, hroot]
  | child hparent _ ih => exact .child (isParent_iff.mp hparent) ih

namespace BoundedForest

theorem hasDepth (h : BoundedForest folders) {id depth : ℕ} {folder : Folder}
    (hdepth : Depth (parentIn folders) id depth) (hfind : folders.find id = some folder) :
  HasDepth folders id depth
  := by
  induction hdepth generalizing folder with
  | root hroot =>
      rw [parentIn, hfind, Option.bind_some] at hroot
      exact .root hfind hroot
  | @child a b depth hparent _ ih =>
      have hparentId : folder.parentId = some b := by
        rw [parentIn, hfind, Option.bind_some] at hparent
        exact hparent
      obtain ⟨parent, hmem, rfl, -⟩ := h.parent folder (Table.mem_of_find hfind) _ hparentId
      exact .child (isParent_iff.mpr hparent) (ih (Table.mem_rows_iff.mp hmem))

/-- In a bounded forest the folders of each user form one. -/
theorem hierarchy (h : BoundedForest folders) (userId : ℕ) :
  Hierarchy (ownedBy folders userId)
  := by
  have hup : ∀ {id depth}, HasDepth folders id depth →
      up (parentOf (ownedBy folders userId)) depth id = none := by
    intro id depth hdepth
    induction hdepth with
    | @root id folder hfind hroot =>
        rw [up, parentOf]
        cases howned : ownedBy folders userId id with
        | none => rfl
        | some folder' =>
            rw [(ownedBy_eq_some_iff.mp howned).1] at hfind
            obtain rfl := Option.some.inj hfind
            rw [Option.bind_some, hroot]
            rfl
    | @child id parentId depth hparent _ ih =>
        rw [up]
        cases hsome : parentOf (ownedBy folders userId) id with
        | none => rfl
        | some b =>
            obtain ⟨folder, howned, hb⟩ := Option.bind_eq_some_iff.mp hsome
            obtain ⟨folder', hfind, hparentId⟩ := hparent
            rw [(ownedBy_eq_some_iff.mp howned).1] at hfind
            obtain rfl := Option.some.inj hfind
            rw [hparentId] at hb
            obtain rfl := Option.some.inj hb
            apply ih
  constructor
  · intro id folder parentId howned hparentId
    obtain ⟨hfind, huser⟩ := ownedBy_eq_some_iff.mp howned
    obtain ⟨parent, hmem, hid, huser'⟩ := h.parent folder (Table.mem_of_find hfind) parentId hparentId
    use parent
    apply ownedBy_eq_some_iff.mpr
    constructor
    · rw [← hid]
      apply Table.mem_rows_iff.mp hmem
    · rw [huser', huser]
  · intro a
    cases howned : ownedBy folders userId a with
    | none => rw [MAX_FOLDER_DEPTH, up, parentOf, howned]; rfl
    | some folder =>
        obtain ⟨hfind, -⟩ := ownedBy_eq_some_iff.mp howned
        obtain ⟨depth, hle, hdepth⟩ := h.depth folder (Table.mem_of_find hfind)
        rw [Table.key_of_find hfind] at hdepth
        apply up_eq_none_of_le (hup hdepth) hle

/-- No folder is its own parent. -/
theorem parentIn_ne_self (h : BoundedForest folders) (id : ℕ) :
  parentIn folders id ≠ some id
  := by
  intro hself
  apply h.acyclic id
  apply TransGen.single (isParent_iff.mpr hself)

end BoundedForest

/-! ### The folders that stay -/

section

variable {folder : Folder} {now : ℕ}

/-- The children of the folder are those with its user that have it as their parent. -/
theorem BoundedForest.guard_promote (h : BoundedForest folders) (now : ℕ)
    (hfind : folders.find folder.id = some folder) {child : Folder} (hchild : child ∈ folders.rows) :
  (FoldersService.promote now folder folder.userId).guard child = decide (child.parentId = some folder.id)
  := by
  simp only [FoldersService.promote]
  by_cases hparent : child.parentId = some folder.id
  · obtain ⟨parent, hmem, hid, huser⟩ := h.parent child hchild folder.id hparent
    rw [Table.mem_rows_iff, hid, hfind] at hmem
    obtain rfl := Option.some.inj hmem
    simp [hparent, huser]
  · simp [hparent]

theorem BoundedForest.parentId_promote (h : BoundedForest folders)
    (hfind : folders.find folder.id = some folder) {child : Folder} (hchild : child ∈ folders.rows) :
  ((FoldersService.promote now folder folder.userId).apply child).parentId
    = if child.parentId = some folder.id then folder.parentId else child.parentId
  := by
  have hguard := h.guard_promote now hfind hchild
  by_cases hparent : child.parentId = some folder.id
  · rw [if_pos hparent, Update.apply_of_guard _ (by simpa [hparent] using hguard)]
    rfl
  · rw [if_neg hparent, Update.apply_of_not_guard _ (by simpa [hparent] using hguard)]

/-- Once its children have moved up, no folder has the folder as its parent. -/
theorem BoundedForest.parentId_ne_of_promote (h : BoundedForest folders)
    (hfind : folders.find folder.id = some folder) {child : Folder}
    (hchild : child ∈ (folders.updateMany (FoldersService.promote now folder folder.userId)).1.rows) :
  child.parentId ≠ some folder.id
  := by
  obtain ⟨old, hold, rfl⟩ := List.mem_map.mp hchild
  rw [h.parentId_promote hfind hold]
  split
  · have hself := h.parentIn_ne_self folder.id
    rw [parentIn, hfind, Option.bind_some] at hself
    exact hself
  · assumption

/-- The folders without the folder, whose children have moved up. -/
def without (folders : Table Folder.id) (folder : Folder) (now : ℕ) : Table Folder.id :=
  (folders.updateMany (FoldersService.promote now folder folder.userId)).1.erase folder.id

theorem find_without (id : ℕ) :
  (without folders folder now).find id
    = if id = folder.id then none
      else (folders.find id).map (FoldersService.promote now folder folder.userId).apply
  := by
  rw [without, Table.find_erase, Table.find_updateMany]

theorem BoundedForest.parentIn_without (h : BoundedForest folders) (now : ℕ)
    (hfind : folders.find folder.id = some folder) :
  parentIn (without folders folder now) = Forest.promote (parentIn folders) folder.id
  := by
  have hparent : parentIn folders folder.id = folder.parentId := by
    rw [parentIn, hfind, Option.bind_some]
  ext a : 1
  rw [parentIn, find_without]
  by_cases ha : a = folder.id
  · rw [if_pos ha, ha, promote_self]
    rfl
  · rw [if_neg ha, Forest.promote, if_neg ha, hparent, parentIn]
    cases hchild : folders.find a with
    | none => rfl
    | some child => apply h.parentId_promote hfind (Table.mem_of_find hchild)

theorem BoundedForest.boundedForest_without (h : BoundedForest folders)
    (hfind : folders.find folder.id = some folder) :
  BoundedForest (without folders folder now)
  := by
  have howned : ownedBy folders folder.userId folder.id = some folder :=
    ownedBy_eq_some_iff.mpr ⟨hfind, rfl⟩
  apply boundedForest_of_hierarchy
  intro userId
  rw [without, ownedBy_delete howned]
  split
  · rename_i huser
    subst huser
    apply (h.hierarchy folder.userId).remove howned
    intro a f hf
    exact (ownedBy_eq_some_iff.mp hf).2
  · apply h.hierarchy

/-! ### What a removal leaves -/

/-- What the removal makes of a document: one in the folder moves to the root. -/
def unfiledFrom (folder : Folder) (now : ℕ) (document : Document) : Document :=
  if document.folderId = some folder.id then
    { document with
      folderId := none
      updatedAt := if document.userId = folder.userId then now else document.updatedAt }
  else document

/-- The folders that stay keep their user, their name, and their ancestors among each other, none of
them gets deeper, and the documents stay but for their folder. -/
structure Removes (folder : Folder) (now : ℕ) (folders folders' : Table Folder.id)
    (documents documents' : Table Document.id) : Prop where
  kept : ∀ id, (folders'.find id).map (fun r => (r.userId, r.name))
    = if id = folder.id then none else (folders.find id).map fun r => (r.userId, r.name)
  ancestors : ∀ a b, a ≠ folder.id → b ≠ folder.id →
    (TransGen (IsParent folders') a b ↔ TransGen (IsParent folders) a b)
  depth : ∀ id depth, id ≠ folder.id → HasDepth folders id depth →
    ∃ depth' ≤ depth, HasDepth folders' id depth'
  documents : documents'.rows = documents.rows.map (unfiledFrom folder now)

theorem BoundedForest.removes (h : BoundedForest folders)
    (hfind : folders.find folder.id = some folder) {documents documents' : Table Document.id}
    (hdocuments : documents'.rows = documents.rows.map (unfiledFrom folder now)) :
  Removes folder now folders (without folders folder now) documents documents'
  := by
  have hself := h.parentIn_ne_self folder.id
  have hparentIn := h.parentIn_without now hfind
  refine ⟨?_, ?_, ?_, hdocuments⟩
  · intro id
    rw [find_without]
    split
    · rfl
    · rw [Option.map_map]
      congr 1
      funext r
      rw [Function.comp_apply, userId_promote_apply]
      congr 1
      unfold Update.apply
      split <;> rfl
  · intro a b ha hb
    rw [transGen_isParent, transGen_isParent, hparentIn]
    apply transGen_promote hself ha hb
  · intro id depth hid hdepth
    obtain ⟨depth', hle, hdepth'⟩ := hdepth.depth.promote hself hid
    rw [← hparentIn] at hdepth'
    refine ⟨depth', hle, ?_⟩
    obtain ⟨r, hr⟩ : ∃ r, folders.find id = some r := by
      cases hdepth with
      | root hr => exact ⟨_, hr⟩
      | child hparent =>
          obtain ⟨r, hr, -⟩ := hparent
          exact ⟨r, hr⟩
    apply (h.boundedForest_without hfind).hasDepth hdepth'
    rw [find_without, if_neg hid, hr, Option.map_some]

end

/-! ### The statements of `remove` -/

section

variable {config : DocumentsConfig} {s : Store} {c : Call} {folder : Folder} {now : ℕ}

/-- The documents in a folder, all of which the folder's user has. -/
def documentsIn (documents : Table Document.id) (folder : Folder) : ℕ :=
  documents.rows.countP fun document =>
    document.folderId = some folder.id && document.userId = folder.userId

theorem apply_unfile (folderId userId now : ℕ) (document : Document) :
  ((.unfile folderId userId : DocumentWrite config).update now).apply document
    = if document.folderId = some folderId ∧ document.userId = userId then
        { document with folderId := none, updatedAt := now }
      else document
  := by
  simp [Update.apply, DocumentWrite.update]

theorem apply_unreference (folderId now : ℕ) (document : Document) :
  ((.unreference folderId : DocumentWrite config).update now).apply document
    = if document.folderId = some folderId then { document with folderId := none } else document
  := by
  simp [Update.apply, DocumentWrite.update]

/-- What the statements of the removal do to the documents, none of which is changed in between. -/
theorem rows_unfiled (config : DocumentsConfig) (documents : Table Document.id) (folder : Folder)
    (now : ℕ) {unfiled : List ℕ}
    (hunfiled : unfiled = (documents.rows.filter fun document =>
      document.folderId = some folder.id && document.userId = folder.userId).map Document.id) :
  ((documents.updateMany
      (((.unfile folder.id folder.userId : DocumentWrite config).update now).among
        fun document => document.id ∈ unfiled)).1.updateMany
    ((.unreference folder.id : DocumentWrite config).update now)).1.rows
  = documents.rows.map (unfiledFrom folder now)
  := by
  rw [Table.rows_updateMany, Table.rows_updateMany, List.map_map]
  apply List.map_congr_left
  intro document hdocument
  rw [Function.comp_apply, Update.apply_among, apply_unfile, apply_unreference, unfiledFrom]
  · by_cases hin : document.folderId = some folder.id
    · by_cases huser : document.userId = folder.userId
      · simp [hin, huser]
      · simp [hin, huser]
    · simp [hin]
  · intro hguard
    rw [hunfiled]
    apply decide_eq_true
    apply List.mem_map_of_mem
    apply List.mem_filter.mpr ⟨hdocument, hguard⟩

/-- The folder is deleted, and what the statements before it have done is committed. -/
theorem Call.delete_eq (config : DocumentsConfig) (s : Store) (c : Call) (h : BoundedForest s.folders)
    (hfind : s.folders.find folder.id = some folder)
    (huser : c.userId = folder.userId) {unfiled : List ℕ}
    (hunfiled : unfiled = (s.documents.rows.filter fun document =>
      document.folderId = some folder.id && document.userId = folder.userId).map Document.id) :
  ∃ s', c.delete config s folder unfiled
      = (s', .returned (.ok (.deletion folder.id (documentsIn s.documents folder)
        (s.folders.rows.countP fun child => child.parentId = some folder.id))))
    ∧ s'.folders = without s.folders folder s.now
    ∧ s'.documents.rows = s.documents.rows.map (unfiledFrom folder s.now)
  := by
  have hcount : ((s.folders.updateMany
      (FoldersService.promote s.now folder folder.userId)).1.rows.countP
        fun r => r.id = folder.id && r.userId = folder.userId) = 1 := by
    rw [List.countP_eq_length_filter, Table.filter_key, Table.find_updateMany, hfind,
      Option.map_some]
    simp [Option.filter, userId_promote_apply]
  have hchildren : ((s.folders.updateMany
      (FoldersService.promote s.now folder folder.userId)).1.rows.any
        fun r => r.id ≠ folder.id && r.parentId = some folder.id) = false := by
    apply List.any_eq_false.mpr
    intro child hchild
    have hne := h.parentId_ne_of_promote hfind hchild
    simp [hne]
  have hpromoted : (s.folders.updateMany (FoldersService.promote s.now folder folder.userId)).2
      = s.folders.rows.countP fun child => child.parentId = some folder.id := by
    apply List.countP_congr
    intro child hchild
    rw [h.guard_promote s.now hfind hchild]
  have hmoved : unfiled.length = documentsIn s.documents folder := by
    rw [hunfiled, List.length_map, documentsIn, List.countP_eq_length_filter]
  unfold delete
  simp only [huser, hcount, hchildren, hpromoted, hmoved, ne_eq, not_true_eq_false, if_false,
    Bool.false_eq_true]
  refine ⟨_, rfl, rfl, ?_⟩
  apply rows_unfiled config s.documents folder s.now hunfiled

end

end Folders

end DocuAI

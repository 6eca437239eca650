import DocuAI.Backend.Operations
import DocuAI.Backend.References
import DocuAI.Folders.Removal

/-!
# Removing a folder loses nothing

Whenever the folders form a bounded forest, the removal of a folder by its user succeeds unless
a statement fails, and then it has changed nothing (`remove_loses_nothing`).  The children of the
folder move up to its parent and its documents to the root; nothing else of the folders and documents
changes but the time of the last update, which is why the documents of the folder are not the same up
to their folder (`not_same_but_folder`).
-/

namespace DocuAI

namespace Backend

open Folders

variable {config : AppConfig} {unicode : Unicode} {hashtext : ℕ → ℕ} {texts : Texts}
  {env : Environment}

/-- A statement of a call on folders, unless it fails. -/
theorem complete_folders (config : AppConfig) (env : Environment) (n : ℕ) (s s' : Store) (c : Call)
    (phase : Phase)
    (hended : foldersEnded c.phase = false)
    (hact : env.throws n = false →
      c.act config.documents { s with now := env.clock n } (env.folders n c.phase)
        = some (s', phase)) :
  (foldersProgram config env).complete (n + 1) (s, c)
    = if env.throws n then some ({ s with now := env.clock n }, { c with phase := .rejected })
      else (foldersProgram config env).complete n (s', { c with phase })
  := by
  rw [Program.complete_succ hended]
  cases hthrows : env.throws n with
  | true =>
      have hrejected : (foldersProgram config env).next n (s, c)
          = some ({ s with now := env.clock n }, { c with phase := .rejected }) := by
        have hthrow : c.act config.documents { s with now := env.clock n } .throw
            = some ({ s with now := env.clock n }, .rejected) := by
          rw [Call.act]
          split
          · rename_i hphase
            rw [hphase] at hended
            cases hended
          · rename_i hphase
            rw [hphase] at hended
            cases hended
          · rfl
        simp [foldersProgram, Environment.folders, hthrows, hthrow]
      rw [hrejected, if_pos rfl, Option.bind_some]
      apply Program.complete_of_ended
      rfl
  | false =>
      have hnext : (foldersProgram config env).next n (s, c) = some (s', { c with phase }) := by
        simp [foldersProgram, hact hthrows]
      rw [hnext, if_neg Bool.false_ne_true, Option.bind_some]

/-- One of the first statements of a call fails. -/
def statementFails (env : Environment) (count : ℕ) : Prop :=
  ∃ k < count, env.throws (MAX_STATEMENTS - (k + 1)) = true

/-- How the removal of a folder by its user ends: at the first of its four statements that fails, or
with the folder removed. -/
structure RemovalEnds (env : Environment) (t : Tables) (folder : Folder) (r : Store × Call) :
    Prop where
  fails : statementFails env 4 →
    r.2.phase = .rejected ∧ r.1.folders = t.folders ∧ r.1.documents = t.documents
  succeeds : ¬statementFails env 4 →
    r.2.phase = .returned (.ok (.deletion folder.id (documentsIn t.documents folder)
        (t.folders.rows.countP fun child => child.parentId = some folder.id)))
      ∧ r.1.folders = without t.folders folder (env.clock 6)
      ∧ r.1.documents.rows = t.documents.rows.map (unfiledFrom folder (env.clock 6))

theorem removalEnds_of_throws {t : Tables} {folder : Folder} {k : ℕ} (hk : k < 4)
    (hthrows : env.throws (MAX_STATEMENTS - (k + 1)) = true) (now : ℕ) :
  RemovalEnds env t folder ({ now, folders := t.folders, documents := t.documents },
    { id := 0, userId := folder.userId, phase := .rejected })
  where
  fails _ := ⟨rfl, rfl, rfl⟩
  succeeds hnot := absurd ⟨k, hk, hthrows⟩ hnot

theorem complete_remove (config : AppConfig) (env : Environment) {t : Tables} {folder : Folder}
    (hforest : BoundedForest t.folders)
    (hfolder : folder ∈ t.folders.rows) :
  ∃ r, (foldersProgram config env).complete MAX_STATEMENTS
      (foldersStart env t folder.userId (.remove folder.id)) = some r
    ∧ RemovalEnds env t folder r
  := by
  have hfind : t.folders.find folder.id = some folder := Table.mem_rows_iff.mp hfolder
  let store : ℕ → Store := fun n =>
    { now := env.clock n, folders := t.folders, documents := t.documents }
  let call : Phase → Call := fun phase => { id := 0, userId := folder.userId, phase }
  let unfiled := (t.documents.rows.filter fun document =>
    document.folderId = some folder.id && document.userId = folder.userId).map Document.id
  obtain ⟨removed, hdelete, hfolders, hdocuments⟩ :=
    Call.delete_eq config.documents (store 6) (call (.deleting folder unfiled)) hforest hfind rfl
      (rfl : unfiled = _)
  let ended := call (.returned (.ok (.deletion folder.id (documentsIn t.documents folder)
    (t.folders.rows.countP fun child => child.parentId = some folder.id))))
  have hlock := complete_folders config env 9 (store 10) (store 9) (call (.waiting (.remove folder.id)))
    (.removing folder.id) rfl
    (by intro h; simp [Environment.folders, h]; rfl)
  have hlookup := complete_folders config env 8 (store 9) (store 8) (call (.removing folder.id))
    (.unfiling folder) rfl
    (by
      intro h
      simp [Environment.folders, h, call, store, Call.act, Call.advance, Call.withOwned,
        FoldersService.getOwned, hfind, Option.filter])
  have hunfile := complete_folders config env 7 (store 8) (store 7) (call (.unfiling folder))
    (.deleting folder unfiled) rfl
    (by intro h; simp [Environment.folders, h]; rfl)
  have hremove := complete_folders config env 6 (store 7) removed (call (.deleting folder unfiled))
    ended.phase rfl
    (by
      intro h
      simp only [Environment.folders, h]
      exact congrArg some hdelete)
  have hended : (foldersProgram config env).complete 6 (removed, ended) = some (removed, ended) :=
    Program.complete_of_ended rfl 6
  have hstart : (foldersProgram config env).complete MAX_STATEMENTS
      (foldersStart env t folder.userId (.remove folder.id))
        = (foldersProgram config env).complete 10 (store 10, call (.waiting (.remove folder.id))) :=
    rfl
  rw [hstart, hlock]
  split
  · rename_i hthrows
    exact ⟨_, rfl, removalEnds_of_throws (k := 0) (by decide) hthrows _⟩
  rename_i h₉
  change ∃ r, (foldersProgram config env).complete 9 (store 9, call (.removing folder.id)) = some r
    ∧ RemovalEnds env t folder r
  rw [hlookup]
  split
  · rename_i hthrows
    exact ⟨_, rfl, removalEnds_of_throws (k := 1) (by decide) hthrows _⟩
  rename_i h₈
  change ∃ r, (foldersProgram config env).complete 8 (store 8, call (.unfiling folder)) = some r
    ∧ RemovalEnds env t folder r
  rw [hunfile]
  split
  · rename_i hthrows
    exact ⟨_, rfl, removalEnds_of_throws (k := 2) (by decide) hthrows _⟩
  rename_i h₇
  change ∃ r, (foldersProgram config env).complete 7 (store 7, call (.deleting folder unfiled))
      = some r ∧ RemovalEnds env t folder r
  rw [hremove]
  split
  · rename_i hthrows
    exact ⟨_, rfl, removalEnds_of_throws (k := 3) (by decide) hthrows _⟩
  rename_i h₆
  refine ⟨_, hended, ?_, fun _ => ⟨rfl, hfolders, hdocuments⟩⟩
  rintro ⟨k, hk, hthrows⟩
  have hcases : k = 0 ∨ k = 1 ∨ k = 2 ∨ k = 3 := by omega
  rcases hcases with rfl | rfl | rfl | rfl
  · exact absurd hthrows h₉
  · exact absurd hthrows h₈
  · exact absurd hthrows h₇
  · exact absurd hthrows h₆

/-- The removal of a folder of a bounded forest by its user succeeds unless one of its statements
fails, and then nothing has changed.  It moves the documents of the folder to the root and its
children up, and loses nothing else. -/
theorem remove_loses_nothing (config : AppConfig) (unicode : Unicode) (hashtext : ℕ → ℕ)
    (texts : Texts) (env : Environment) {t : Tables} {folder : Folder}
    (hforest : BoundedForest t.folders) (hfolder : folder ∈ t.folders.rows) :
  ∃ response t', perform config unicode hashtext texts env t folder.userId
      (.folders (.remove folder.id)) = some (response, t')
    ∧ (statementFails env 4 → response = .internalError ∧ t' = t)
    ∧ (¬statementFails env 4 → ∃ movedDocuments promotedFolders,
      response = .value (.folders (.deletion folder.id movedDocuments promotedFolders))
        ∧ Removes folder (env.clock 6) t.folders t'.folders t.documents t'.documents
        ∧ t'.ocrJobs = t.ocrJobs ∧ t'.ocrPages = t.ocrPages ∧ t'.objects = t.objects
        ∧ promotedFolders = t.folders.rows.countP (fun child => child.parentId = some folder.id)
        ∧ movedDocuments = t.documents.rows.countP (fun document =>
          document.folderId = some folder.id && document.userId = folder.userId)
        ∧ ((∀ document ∈ t.documents.rows, ∀ folder' ∈ t.folders.rows,
            document.folderId = some folder'.id → document.userId = folder'.userId) →
          movedDocuments
            = t.documents.rows.countP fun document => document.folderId = some folder.id))
  := by
  obtain ⟨r, hcomplete, hends⟩ := complete_remove config env hforest hfolder
  refine ⟨foldersResponse r.2.phase, { t with folders := r.1.folders, documents := r.1.documents },
    ?_, ?_, ?_⟩
  · rw [perform, hcomplete]
    rfl
  · intro hfails
    obtain ⟨hphase, hfolders, hdocuments⟩ := hends.fails hfails
    rw [hphase, hfolders, hdocuments]
    exact ⟨rfl, rfl⟩
  · intro hnot
    obtain ⟨hphase, hfolders, hdocuments⟩ := hends.succeeds hnot
    rw [hphase, hfolders]
    refine ⟨_, _, rfl, ?_, rfl, rfl, rfl, rfl, rfl, ?_⟩
    · apply hforest.removes (Table.mem_rows_iff.mp hfolder) hdocuments
    · intro hplaced
      apply List.countP_congr
      intro document hdocument
      simp only [Bool.and_eq_true, decide_eq_true_eq, and_iff_left_iff_imp]
      apply hplaced document hdocument folder hfolder

/-! Three folders, each in the one before, and a document in the middle one, which is removed. -/

def nestThree : List Label :=
  [.folders (.call 1 7 (.create ⟨js "Outer", none⟩)), .folders (.step 1 .lock),
    .folders (.step 1 (.insert 1)), .folders (.call 2 7 (.create ⟨js "Middle", some 1⟩)),
    .folders (.step 2 .lock), .folders (.step 2 .advance), .folders (.step 2 (.insert 2)),
    .folders (.call 3 7 (.create ⟨js "Inner", some 2⟩)), .folders (.step 3 .lock),
    .folders (.step 3 .advance), .folders (.step 3 (.insert 3)),
    .documents (.call 1 7 (.create ⟨js "Kept", none, some 2⟩)), .documents (.step 1 .advance),
    .documents (.step 1 (.insert 10))]

def sampleTexts : Texts where
  collate _ _ := .eq
  contains _ _ := true

def sampleEnvironment : Environment where
  clock _ := 5
  throws _ := false
  id := 0
  random := 0
  head _ := none
  deletes _ := true
  available := []

/-- The removal of the middle folder. -/
def removeMiddle (t : Tables) : Option (Response × Tables) :=
  perform sampleConfig asciiUnicode id sampleTexts sampleEnvironment t 7 (.folders (.remove 2))

theorem boundedForest_of_nestThree {s : State sampleConfig}
    (h : (system sampleConfig asciiUnicode id).execute (fun _ => true) sampleState nestThree
      = some s) :
  BoundedForest s.tables.folders
  := by
  obtain ⟨ts, hrun, -⟩ := TransitionSystem.run_of_execute h
  have hinvariant := invariant_of_run hrun
    ⟨⟨rfl, rfl⟩, ⟨rfl, rfl, rfl, rfl, rfl, rfl⟩, ⟨⟨rfl, rfl, rfl, rfl⟩, rfl⟩, rfl⟩
  apply boundedForest_of_hierarchy hinvariant.hierarchy.hierarchy

theorem remove_loses_nothing_of_nestThree :
  ∃ (t t' : Tables) (folder : Folder), BoundedForest t.folders ∧ folder ∈ t.folders.rows
    ∧ removeMiddle t = some (.value (.folders (.deletion 2 1 1)), t')
    ∧ t'.folders.rows.map (fun r => (r.id, r.parentId)) = [(1, none), (3, some 1)]
    ∧ Removes folder 5 t.folders t'.folders t.documents t'.documents
  := by
  have hsome : ((system sampleConfig asciiUnicode id).execute (fun _ => true) sampleState
      nestThree).any (fun s => s.tables.folders.find 2 = some ⟨2, 7, js "Middle", some 1, 0, 0⟩
        && (removeMiddle s.tables).any fun r =>
          r.1 = .value (.folders (.deletion 2 1 1))
            && r.2.folders.rows.map (fun r => (r.id, r.parentId)) = [(1, none), (3, some 1)])
      = true := by
    decide +kernel
  obtain ⟨s, hs, hend⟩ := (Option.any_eq_true _ _).mp hsome
  simp only [Bool.and_eq_true, decide_eq_true_eq] at hend
  obtain ⟨hfind, hremoved⟩ := hend
  obtain ⟨⟨response, t'⟩, hperform, hresult⟩ := (Option.any_eq_true _ _).mp hremoved
  simp only [Bool.and_eq_true, decide_eq_true_eq] at hresult
  obtain ⟨rfl, hrows⟩ := hresult
  have hforest := boundedForest_of_nestThree hs
  have hmem := Table.mem_of_find hfind
  obtain ⟨response, t'', hperform', -, hsucceeds⟩ := remove_loses_nothing sampleConfig asciiUnicode id
    sampleTexts sampleEnvironment hforest hmem
  obtain rfl : t' = t'' := by
    rw [removeMiddle, hperform'] at hperform
    exact (Prod.mk.inj (Option.some.inj hperform)).2.symm
  obtain ⟨_, _, -, hremoves, -⟩ := hsucceeds (by rintro ⟨k, -, ⟨⟩⟩)
  exact ⟨s.tables, t', _, hforest, hmem, hperform, hrows, hremoves⟩

/-- A document that has been in the folder differs in the time of its last update, too. -/
theorem not_same_but_folder :
  ∃ (t t' : Tables) (document document' : Document), BoundedForest t.folders
    ∧ removeMiddle t = some (.value (.folders (.deletion 2 1 1)), t')
    ∧ t.documents.find 10 = some document ∧ t'.documents.find 10 = some document'
    ∧ document' ≠ document ∧ document' ≠ { document with folderId := none }
  := by
  have hsome : ((system sampleConfig asciiUnicode id).execute (fun _ => true) sampleState
      nestThree).any (fun s => (removeMiddle s.tables).any fun r =>
        r.1 = .value (.folders (.deletion 2 1 1))
          && (s.tables.documents.find 10).any fun document =>
            (r.2.documents.find 10).any fun document' =>
              document' ≠ document && document' ≠ { document with folderId := none })
      = true := by
    decide +kernel
  obtain ⟨s, hs, hend⟩ := (Option.any_eq_true _ _).mp hsome
  obtain ⟨⟨response, t'⟩, hperform, hresult⟩ := (Option.any_eq_true _ _).mp hend
  simp only [Bool.and_eq_true, decide_eq_true_eq] at hresult
  obtain ⟨rfl, hdocuments⟩ := hresult
  obtain ⟨document, hfind, hdocuments⟩ := (Option.any_eq_true _ _).mp hdocuments
  obtain ⟨document', hfind', hne⟩ := (Option.any_eq_true _ _).mp hdocuments
  simp only [Bool.and_eq_true, decide_eq_true_eq] at hne
  exact ⟨s.tables, t', document, document', boundedForest_of_nestThree hs, hperform, hfind, hfind',
    hne.1, hne.2⟩

end Backend

end DocuAI

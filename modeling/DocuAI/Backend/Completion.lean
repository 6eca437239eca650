import DocuAI.Backend.Operations
import DocuAI.Ocr.Agreement

/-!
# Every call comes to its end

The statements and storage requests a call has still to make bound how long it takes
(`Call.rank_of_act`), and whatever it meets, one of them can be made.
-/

namespace DocuAI

/-! ### Calls on folders -/

namespace Folders

variable {config : DocumentsConfig} {s s' : Store} {c : Call} {action : Action} {phase : Phase}

/-- The statements a call has still to make, at most. -/
def Phase.rank : Phase → ℕ
  | .waiting _ => 5
  | .updating _ _ => 4
  | .moving _ _ _ | .removing _ => 3
  | .creatingIn _ _ | .measuring _ _ _ _ | .unfiling _ => 2
  | .creating _ _ | .saving _ _ | .deleting _ _ => 1
  | .returned _ | .rejected => 0

theorem rank_change_le (current : Folder) (dto : UpdateFolderDto) :
  (change current dto).rank ≤ 3
  := by
  grind [change, fail, Phase.rank]

theorem Call.rank_withOwned_le {folderId n : ℕ} {next : Folder → Phase}
    (hnext : ∀ folder, (next folder).rank ≤ n) :
  (c.withOwned s folderId next).rank ≤ n
  := by
  unfold withOwned
  split
  · exact Nat.zero_le n
  · apply hnext

/-- A statement lowers the rank of its call. -/
theorem Call.rank_of_act (h : c.act config s action = some (s', phase)) :
  phase.rank < c.phase.rank
  := by
  cases action with
  | lock =>
      simp only [act] at h
      split at h
      · rename_i operation hphase
        obtain ⟨-, rfl⟩ := Prod.mk.inj (Option.some.inj h)
        rw [hphase]
        cases operation <;> grind [Operation.start, Phase.rank]
      · cases h
  | advance =>
      cases hphase : c.phase with
      | updating folderId dto =>
          simp only [act, advance, hphase] at h
          obtain ⟨-, rfl⟩ := Prod.mk.inj (Option.some.inj h)
          apply Nat.lt_succ_of_le
          apply rank_withOwned_le
          intro current
          apply rank_change_le
      | removing folderId =>
          simp only [act, advance, hphase] at h
          obtain ⟨-, rfl⟩ := Prod.mk.inj (Option.some.inj h)
          apply Nat.lt_succ_of_le
          apply rank_withOwned_le
          intro folder
          apply le_refl
      | _ =>
          simp only [act, advance, hphase] at h
          grind [place, move, measure, save, unfile, delete, fail, Phase.rank]
  | insert id =>
      simp only [act] at h
      split at h
      · rename_i hphase
        rw [hphase]
        obtain ⟨-, -, rfl⟩ | ⟨_, -, -, -, rfl⟩ := create_cases h
        · exact Nat.zero_lt_one
        · exact Nat.zero_lt_one
      · cases h
  | throw => cases hphase : c.phase <;> grind [act, Phase.rank]

end Folders

/-! ### Calls on documents -/

namespace Documents

variable {config : DocumentsConfig} {storage : StorageConfig} {unicode : Unicode}
  {s s' : State config} {c : Call config} {action : Action} {phase : Phase config}

/-- The statements and storage requests a call has still to make, at most. -/
def Phase.rank : Phase config → ℕ
  | .requesting _ _ => 6
  | .updating _ _ | .issuing _ _ | .completing _ _ => 5
  | .moving _ _ _ | .superseding _ _ _ | .verifying _ _ _ => 4
  | .saving _ _ | .presigning _ _ | .accepting _ _ _ => 3
  | .creatingIn _ _ | .saved _ _ | .presigned _ _ _ | .confirming _ _ _ | .rejecting _ _ _
  | .removing _ _ => 2
  | .creating _ | .discarding _ _ _ | .denying _ | .denyingFolder _ => 1
  | .returned _ | .rejected => 0

theorem Operation.rank_start_le (now : ℕ) (operation : Operation) :
  (operation.start config unicode now).rank ≤ 6
  := by
  cases operation <;> grind [Operation.start, Phase.rank]

theorem Call.rank_withOwned_le {documentId n : ℕ} {next : Document → Phase config} (hn : 1 ≤ n)
    (hnext : ∀ document, (next document).rank ≤ n) :
  (c.withOwned s documentId next).2.rank ≤ n
  := by
  unfold withOwned
  split
  · exact hn
  · apply hnext

/-- A statement or storage request lowers the rank of its call. -/
theorem Call.rank_of_act (h : c.act storage unicode s action = some (s', phase)) :
  phase.rank < c.phase.rank
  := by
  cases action with
  | advance =>
      cases hphase : c.phase with
      | updating documentId dto | requesting documentId declaration | completing documentId dto =>
          simp only [act, advance, hphase] at h
          have hnext : _ = phase := congrArg Prod.snd (Option.some.inj h)
          rw [← hnext]
          apply Nat.lt_succ_of_le
          apply rank_withOwned_le (by decide)
          intro current
          grind [Phase.rank]
      | _ =>
          simp only [act, advance, hphase] at h
          grind [save, accept, confirm, discard, remove, deny, denyFolder, Phase.rank]
  | insert id =>
      simp only [act] at h
      split at h
      · rename_i hphase
        rw [hphase]
        obtain ⟨-, -, rfl⟩ | ⟨_, -, -, -, rfl⟩ := create_cases h
        · exact Nat.zero_lt_one
        · exact Nat.zero_lt_one
      · cases h
  | issue random | undeleted =>
      simp only [act] at h
      grind [issue, discard, Phase.rank]
  | head answer =>
      simp only [act] at h
      split at h
      · rename_i hphase
        rw [hphase]
        obtain ⟨-, rfl⟩ | ⟨head, -, ⟨-, rfl⟩ | ⟨problems, rfl⟩⟩ :=
          verify_cases (Option.some.inj h)
        · simp [Phase.rank]
        · simp [Phase.rank]
        · simp [Phase.rank]
      · cases h
  | throw => cases hphase : c.phase <;> grind [act, Phase.rank]

/-- The call has changed nothing yet, and is about to insert a document or to issue a key. -/
def Phase.starts : Phase config → Bool
  | .creatingIn _ _ | .creating _ | .requesting _ _ | .issuing _ _ => true
  | _ => false

theorem Call.starts_withOwned {documentId : ℕ} {next : Document → Phase config}
    (h : c.withOwned s documentId next = (s', phase)) (hstarts : phase.starts = true) :
  s' = s ∧ ∃ document, (next document).starts = true
  := by
  unfold withOwned at h
  split at h
  · obtain ⟨-, rfl⟩ := Prod.mk.inj h
    cases hstarts
  · rename_i document _
    obtain ⟨rfl, rfl⟩ := Prod.mk.inj h
    exact ⟨rfl, document, hstarts⟩

/-- A call that is about to insert a document or to issue a key has changed nothing. -/
theorem Call.starts_of_act (h : c.act storage unicode s action = some (s', phase))
    (hstarts : phase.starts = true) :
  c.phase.starts = true ∧ s'.documents = s.documents ∧ s'.issued = s.issued
  := by
  cases action with
  | advance =>
      cases hphase : c.phase with
      | creatingIn dto folderId =>
          simp only [act, advance, hphase] at h
          obtain ⟨rfl, -⟩ := Prod.mk.inj (Option.some.inj h)
          exact ⟨rfl, rfl, rfl⟩
      | requesting documentId declaration =>
          simp only [act, advance, hphase] at h
          obtain ⟨rfl, -⟩ := starts_withOwned (Option.some.inj h) hstarts
          exact ⟨rfl, rfl, rfl⟩
      | updating documentId dto | completing documentId dto =>
          simp only [act, advance, hphase] at h
          obtain ⟨-, current, hnext⟩ := starts_withOwned (Option.some.inj h) hstarts
          grind [Phase.starts]
      | _ =>
          simp only [act, advance, hphase] at h
          grind [save, accept, confirm, discard, remove, deny, denyFolder, Phase.starts]
  | insert id =>
      simp only [act] at h
      split at h
      · obtain ⟨-, -, rfl⟩ | ⟨_, -, -, -, rfl⟩ := create_cases h
        · cases hstarts
        · cases hstarts
      · cases h
  | issue random | undeleted | throw =>
      simp only [act] at h
      grind [issue, discard, Phase.starts]
  | head answer =>
      simp only [act] at h
      split at h
      · obtain ⟨-, rfl⟩ | ⟨head, -, ⟨-, rfl⟩ | ⟨problems, rfl⟩⟩ :=
          verify_cases (Option.some.inj h)
        · cases hstarts
        · cases hstarts
        · cases hstarts
      · cases h

end Documents

/-! ### What can be done next -/

namespace Backend

variable {config : AppConfig} {unicode : Unicode} {hashtext : ℕ → ℕ} {env : Environment}

theorem exists_act_folders {n : ℕ} {s : Folders.Store} {c : Folders.Call}
    (hopen : foldersEnded c.phase = false) (hfresh : s.folders.find env.id = none) :
  ∃ r, c.act config.documents s (env.folders n c.phase) = some r
  := by
  unfold Environment.folders
  cases hthrows : env.throws n with
  | true => cases hphase : c.phase <;> simp_all [Folders.Call.act, foldersEnded]
  | false =>
      cases hphase : c.phase with
      | creating name parentId =>
          obtain ⟨folders, hcreate⟩ := Table.exists_create
            (r := FoldersService.createdFolder env.id c.userId name parentId s.now) hfresh
          simp only [Bool.false_eq_true, if_false, Folders.Call.act, hphase, Folders.Call.create]
          split
          · exact ⟨_, rfl⟩
          · rw [hcreate]
            exact ⟨_, rfl⟩
      | returned | rejected =>
          rw [hphase] at hopen
          cases hopen
      | _ => simp [Folders.Call.act, Folders.Call.advance, hphase]

theorem exists_act_documents {n : ℕ} {s : Documents.State config.documents}
    {c : Documents.Call config.documents} (hopen : documentsEnded c.phase = false)
    (hfresh : (∃ dto, c.phase = .creating dto) → s.documents.find env.id = none)
    (hissued : (∃ current declaration, c.phase = .issuing current declaration) → s.issued = []) :
  ∃ r, c.act config.storage unicode s (env.documents n c.phase) = some r
  := by
  unfold Environment.documents
  cases hthrows : env.throws n with
  | true => cases hphase : c.phase <;> simp_all [Documents.Call.act, documentsEnded]
  | false =>
      cases hphase : c.phase with
      | creating dto =>
          obtain ⟨documents, hcreate⟩ := Table.exists_create
            (r := DocumentsService.createdDocument env.id c.userId dto.title
              (Documents.emptyToNull dto.description) dto.folderId s.now) (hfresh ⟨dto, hphase⟩)
          simp only [Bool.false_eq_true, if_false, Documents.Call.act, hphase,
            Documents.Call.create]
          split
          · exact ⟨_, rfl⟩
          · rw [hcreate]
            exact ⟨_, rfl⟩
      | issuing current declaration =>
          simp only [Bool.false_eq_true, if_false, Documents.Call.act, hphase,
            Documents.Call.issue, hissued ⟨current, declaration, hphase⟩]
          split
          · rename_i hmem
            cases hmem
          · split
            · split <;> exact ⟨_, rfl⟩
            · exact ⟨_, rfl⟩
      | superseding documentId key upload | discarding current key problems =>
          simp only [Bool.false_eq_true, if_false, Environment.deletion]
          split <;> simp [Documents.Call.act, Documents.Call.advance, hphase]
      | saved current data | presigned documentId upload url =>
          simp only [Bool.false_eq_true, if_false, Documents.Call.act, Documents.Call.advance,
            hphase]
          split <;> exact ⟨_, rfl⟩
      | returned | rejected =>
          rw [hphase] at hopen
          cases hopen
      | _ => simp [Documents.Call.act, Documents.Call.advance, hphase]

theorem exists_act_ocr {n : ℕ} {s : OcrService.State} {c : OcrService.Call}
    (hopen : ocrEnded c.phase = false) (hcalls : s.calls.rows = []) :
  ∃ e, c.act config.ocr hashtext s (env.ocr n c.phase) = some e
  := by
  have hfree : OcrService.lockFree hashtext s.calls c.documentId := by
    simp [OcrService.lockFree, hcalls]
  unfold Environment.ocr
  cases hthrows : env.throws n with
  | true => cases hphase : c.phase <;> simp_all [OcrService.Call.act, ocrEnded, OcrService.goTo]
  | false =>
      simp only [Bool.false_eq_true, if_false]
      cases hphase : c.phase with
      | returned | rejected =>
          rw [hphase] at hopen
          cases hopen
      | owned document dto =>
          simp only [OcrService.Call.act, hphase]
          split
          · exact ⟨_, rfl⟩
          · split <;> exact ⟨_, rfl⟩
      | resolving language =>
          simp only [OcrService.Call.act, hphase]
          split <;> exact ⟨_, rfl⟩
      | admitted language => simp [OcrService.Call.act, hphase, OcrService.goTo]
      | _ =>
          apply OcrService.Call.exists_advance
          simp [hphase, hfree]

end Backend

end DocuAI

import DocuAI.Folders.Hierarchy
import DocuAI.Folders.Tree

/-!
# Calls on folders are atomic

A call sends its statements one at a time, and decides by what recursive queries of bounded depth have
found.  The lock of its user makes one change of the tree of this user of it, at its last statement:
the call answers what the change answers, a refusal included, and leaves the tree that it leaves
(`calls_atomic`).
-/

namespace DocuAI

namespace Folders

open FoldersService Forest

/-! ### The queries are exact -/

section

variable {folders : Table Folder.id} {userId : ℕ}

/-- The chain of a folder holds nothing but what lies above it. -/
theorem exists_up_of_mem_chain {limit id a : ℕ} (h : a ∈ ancestorChain folders userId limit id) :
  ∃ k, up (parentOf (ownedBy folders userId)) k id = some a
  := by
  induction limit generalizing id with
  | zero => cases h
  | succ limit ih =>
      rw [ancestorChain_succ] at h
      cases howned : ownedBy folders userId id with
      | none => simp [howned] at h
      | some folder =>
          have hparentOf : parentOf (ownedBy folders userId) id = folder.parentId := by
            rw [parentOf, howned, Option.bind_some]
          cases hparent : folder.parentId with
          | none =>
              simp only [howned, hparent, List.mem_singleton] at h
              exact ⟨0, by rw [h]; rfl⟩
          | some parentId =>
              simp only [howned, hparent, List.mem_cons] at h
              rcases h with rfl | h
              · exact ⟨0, rfl⟩
              · obtain ⟨k, hk⟩ := ih h
                use k + 1
                rw [up, hparentOf, hparent, Option.bind_some, hk]

/-- As many folders lie above a folder as its chain is long. -/
theorem up_ne_none_of_lt_chain (limit : ℕ) {id n : ℕ}
    (h : n < (ancestorChain folders userId limit id).length) :
  up (parentOf (ownedBy folders userId)) n id ≠ none
  := by
  induction n generalizing limit id with
  | zero => exact Option.some_ne_none id
  | succ n ih =>
      cases limit with
      | zero => cases h
      | succ limit =>
          rw [ancestorChain_succ] at h
          cases howned : ownedBy folders userId id with
          | none => simp [howned] at h
          | some folder =>
              have hparentOf : parentOf (ownedBy folders userId) id = folder.parentId := by
                rw [parentOf, howned, Option.bind_some]
              cases hparent : folder.parentId with
              | none => simp [howned, hparent] at h
              | some parentId =>
                  simp only [howned, hparent, List.length_cons] at h
                  rw [up, hparentOf, hparent, Option.bind_some]
                  apply ih limit (Nat.lt_of_succ_lt_succ h)

/-- As many levels lie below a folder as its height says. -/
theorem exists_up_of_lt_height {limit id n : ℕ} (h : n < subtreeHeight folders userId limit id) :
  ∃ a, up (parentOf (ownedBy folders userId)) n a = some id
  := by
  obtain ⟨f, hf⟩ := List.exists_mem_of_ne_nil _ (level_ne_nil h)
  obtain ⟨-, r, hr, hup⟩ := (mem_level fun r hr => owned_of_mem_anchor hr).mp hf
  rw [anchor_eq, Option.mem_toList] at hr
  rw [id_of_ownedBy hr] at hup
  exact ⟨f.id, hup⟩

/-- The subtree of a folder fits into the bound. -/
theorem Hierarchy.height_le (h : Hierarchy (ownedBy folders userId)) (id : ℕ) :
  FoldersService.subtreeHeight folders userId RECURSION_LIMIT id ≤ MAX_FOLDER_DEPTH
  := height_le_of_level (h.level_eq_nil id)

end

/-! ### Answers -/

/-- What a call answers, and the tree that it leaves, are those of the change. -/
def Performs (t : FolderTree) (operation : Operation) (t' : FolderTree) :
    Except AppException Result → Prop
  | .error error =>
      t' = t ∧ ∀ fresh, t.nodes fresh = none → t.perform fresh operation = .error error
  | .ok (.folder folder) =>
      t.perform folder.id operation = .ok t' ∧ t'.nodes folder.id = some folder.node
        ∧ ∀ dto, operation = .create dto → t.nodes folder.id = none
  | .ok (.deletion id _ _) =>
      operation = .remove id ∧ ∀ fresh, t.perform fresh operation = .ok t'

/-- The phase is one of a call of the operation, which is not decided yet. -/
def Phase.Serves (owned : ℕ → Option Folder) (operation : Operation) : Phase → Prop
  | .waiting requested => requested = operation
  | .creatingIn name parentId => operation = .create ⟨name, some parentId⟩
  | .creating name parentId => operation = .create ⟨name, parentId⟩
  | .updating folderId dto => operation = .update folderId dto
  | .moving current name newParentId =>
      ∃ dto, operation = .update current.id dto ∧ dto.name = name
        ∧ dto.parentId = some (some newParentId) ∧ newParentId ≠ current.id
  | .measuring current name newParentId parentDepth =>
      ∃ dto, operation = .update current.id dto ∧ dto.name = name
        ∧ dto.parentId = some newParentId ∧ newParentId ≠ some current.id
        ∧ (newParentId = none → parentDepth = 0)
        ∧ ∀ p, newParentId = some p → ∃ depth, parentDepth = depth + 1
          ∧ up (parentOf owned) depth p ≠ none
  | .saving current data =>
      ∃ dto, operation = .update current.id dto ∧ dto.name = data.name
        ∧ dto.parentId.getD current.parentId = data.parentId.getD current.parentId
  | .removing folderId => operation = .remove folderId
  | .unfiling folder | .deleting folder _ => operation = .remove folder.id
  | .returned _ | .rejected => True

def Phase.answered : Phase → Bool
  | .returned _ => true
  | _ => false

/-- A step of a call of the operation leaves the folders alone, or answers. -/
inductive Call.Progresses (c : Call) (s s' : Store) (operation : Operation) : Phase → Prop where
  | goes {phase : Phase} (hfolders : s'.folders = s.folders) (hanswered : phase.answered = false)
      (hserves : phase.Serves (ownedBy s.folders c.userId) operation) :
      Progresses c s s' operation phase
  | answers {result : Except AppException Result}
      (hperforms : Performs (treeOf s.folders c.userId) operation (treeOf s'.folders c.userId)
        result) :
      Progresses c s s' operation (.returned result)

section

variable {config : DocumentsConfig} {s s' : Store} {c : Call} {phase : Phase}
  {operation : Operation}

/-- A refusal, by what the change answers whatever the new id. -/
theorem Call.Progresses.refuses {error : AppException}
    (h : ∀ fresh, (treeOf s.folders c.userId).nodes fresh = none →
      (treeOf s.folders c.userId).perform fresh operation = .error error) :
  c.Progresses s s operation (fail error)
  := .answers ⟨rfl, h⟩

theorem nodes_eq_none_iff (h : Hierarchy (ownedBy s.folders c.userId)) {id : ℕ} :
  (treeOf s.folders c.userId).nodes id = none ↔ ownedBy s.folders c.userId id = none
  := by
  rw [nodes_treeOf h, nodesOf, Option.map_eq_none_iff]

theorem nodes_eq_some (h : Hierarchy (ownedBy s.folders c.userId)) {id : ℕ} {folder : Folder}
    (howned : ownedBy s.folders c.userId id = some folder) :
  (treeOf s.folders c.userId).nodes id = some folder.node
  := by
  rw [nodes_treeOf h, nodesOf, howned, Option.map_some]

theorem within_iff (h : Hierarchy (ownedBy s.folders c.userId)) {id a : ℕ} :
  (treeOf s.folders c.userId).Within id a
    ↔ ∃ k, up (parentOf (ownedBy s.folders c.userId)) k a = some id
  := by
  rw [FolderTree.Within, nodes_treeOf h, parentAt_nodesOf]

/-- A place that does not fit. -/
theorem fit_eq_error (h : Hierarchy (ownedBy s.folders c.userId)) {id : ℕ} {node : FolderNode}
    (hbounded : ¬Bounded (Function.update (parentOf (ownedBy s.folders c.userId)) id node.parentId)
      MAX_FOLDER_DEPTH) :
  (treeOf s.folders c.userId).fit id node = .error folderDepthExceeded
  := by
  apply FolderTree.fit_eq_error
  rw [nodes_treeOf h, parentAt_nodesOf]
  exact hbounded

/-! ### Steps -/

theorem Operation.serves_start (owned : ℕ → Option Folder) (operation : Operation) :
  operation.start.Serves owned operation ∧ operation.start.answered = false
  := by
  cases operation with
  | create dto =>
      obtain ⟨name, parentId⟩ := dto
      cases parentId <;> exact ⟨rfl, rfl⟩
  | update | remove => exact ⟨rfl, rfl⟩

/-- A call goes on with a folder of its user, or answers that there is none. -/
theorem Call.progresses_withOwned {next : Folder → Phase} {folderId : ℕ}
    (hnone : ownedBy s.folders c.userId folderId = none →
      ∀ fresh, (treeOf s.folders c.userId).perform fresh operation = .error folderNotFound)
    (hnext : ∀ folder, ownedBy s.folders c.userId folder.id = some folder → folder.id = folderId →
      c.Progresses s s operation (next folder)) :
  c.Progresses s s operation (c.withOwned s folderId next)
  := by
  unfold withOwned getOwned
  cases hfind : ownedBy s.folders c.userId folderId with
  | none =>
      have hperform := hnone hfind
      rw [ownedBy] at hfind
      simp only [hfind]
      exact .refuses fun fresh _ => hperform fresh
  | some folder =>
      have hid := id_of_ownedBy hfind
      have hgoes := hnext folder (hid.symm ▸ hfind) hid
      rw [ownedBy] at hfind
      simp only [hfind]
      apply hgoes

/-- `update` of the folder the call has looked up. -/
theorem Call.progresses_change (h : Hierarchy (ownedBy s.folders c.userId)) {current : Folder}
    (howned : ownedBy s.folders c.userId current.id = some current) (dto : UpdateFolderDto) :
  c.Progresses s s (.update current.id dto) (change current dto)
  := by
  have hnode := nodes_eq_some h howned
  unfold change
  cases hmoves : dto.parentId.filter (· ≠ current.parentId) with
  | some newParentId =>
      have hplace : dto.parentId = some newParentId := (Option.filter_eq_some_iff.mp hmoves).1
      simp only
      split
      · rename_i hself
        apply Progresses.refuses
        intro fresh _
        apply FolderTree.perform_ownParent hnode
        simp [FolderTree.edited, hplace, hself]
      · rename_i hself
        cases newParentId with
        | some parentId =>
            exact .goes rfl rfl ⟨dto, rfl, rfl, hplace, fun heq => hself (heq ▸ rfl)⟩
        | none =>
            refine .goes rfl rfl ⟨dto, rfl, rfl, hplace, hself, fun _ => rfl, ?_⟩
            rintro p ⟨⟩
  | none =>
      have hsame : dto.parentId.getD current.parentId = current.parentId := by
        cases hdto : dto.parentId with
        | none => rfl
        | some place =>
            rw [hdto, Option.filter_eq_none_iff] at hmoves
            simpa using hmoves place rfl
      simp only
      split
      · rename_i hdata
        have hname : dto.name = none := congrArg UpdateFolderDto.name hdata
        have hedited : FolderTree.edited current.node dto = current.node := by
          rw [FolderTree.edited, hname]
          change FolderNode.mk _ (dto.parentId.getD current.parentId) = _
          rw [hsame]
          rfl
        apply Progresses.answers
        refine ⟨?_, hnode, by rintro _ ⟨⟩⟩
        rw [FolderTree.perform_eq_ok_iff, FolderTree.changed, hnode, Option.map_some, hedited,
          ← hnode, Function.update_eq_self]
      · exact .goes rfl rfl ⟨dto, rfl, rfl, hsame⟩

/-- `create`: the ancestors of the parent are queried. -/
theorem Call.progresses_place (h : Hierarchy (ownedBy s.folders c.userId)) (name : JsString)
    (parentId : ℕ) :
  c.Progresses s s (.create ⟨name, some parentId⟩) (c.place s name parentId)
  := by
  unfold place
  simp only
  cases howned : ownedBy s.folders c.userId parentId with
  | none =>
      rw [if_pos (by rw [ancestorChain_eq_nil howned]; rfl)]
      apply Progresses.refuses
      intro fresh _
      simp only [FolderTree.perform]
      rw [if_pos ⟨parentId, rfl, (nodes_eq_none_iff h).mpr howned⟩]
  | some parent =>
      have hknown : ¬∃ p, some parentId = some p
          ∧ (treeOf s.folders c.userId).nodes p = none := by
        rintro ⟨p, hp, hnone⟩
        obtain rfl := Option.some.inj hp
        rw [nodes_eq_some h howned] at hnone
        cases hnone
      split
      · rename_i hlength
        have hchain := (h.ancestorChain howned (h.bounded parentId)
          (by decide : MAX_FOLDER_DEPTH ≤ RECURSION_LIMIT)).1
        rw [hlength] at hchain
        cases hchain
      · split
        · rename_i hdepth
          apply Progresses.refuses
          intro fresh hfresh
          simp only [FolderTree.perform]
          rw [if_neg hknown]
          apply fit_eq_error h
          rw [nodes_eq_none_iff h] at hfresh
          have hleaf : ∀ j a, up (parentOf (ownedBy s.folders c.userId)) (j + 1) a
              ≠ some fresh := by
            intro j a hup
            obtain ⟨f, hf⟩ := h.exists_owned hup
            rw [hfresh] at hf
            cases hf
          apply not_bounded_update (d := MAX_FOLDER_DEPTH - 1) (fun j => hleaf j fresh)
            (rfl : up _ 0 fresh = some fresh)
          · intro j hup
            cases j with
            | zero =>
                obtain rfl := Option.some.inj hup
                rw [hfresh] at howned
                cases howned
            | succ j => apply hleaf j parentId hup
          · apply up_ne_none_of_lt_chain RECURSION_LIMIT (by omega)
          · decide
        · exact .goes rfl rfl rfl

/-- `assertValidMove`: the ancestors of the new parent are queried. -/
theorem Call.progresses_move (h : Hierarchy (ownedBy s.folders c.userId)) {current : Folder}
    (howned : ownedBy s.folders c.userId current.id = some current)
    {name : Option (Option JsString)} {newParentId : ℕ}
    (hserves : (Phase.moving current name newParentId).Serves (ownedBy s.folders c.userId)
      operation) :
  c.Progresses s s operation (c.move s current name newParentId)
  := by
  obtain ⟨dto, rfl, hname, hplace, hself⟩ := hserves
  have hnode := nodes_eq_some h howned
  have hedited : (FolderTree.edited current.node dto).parentId = some newParentId := by
    simp [FolderTree.edited, hplace]
  unfold move
  simp only
  cases hparent : ownedBy s.folders c.userId newParentId with
  | none =>
      rw [if_pos (by rw [ancestorChain_eq_nil hparent]; rfl)]
      apply Progresses.refuses
      intro fresh _
      apply FolderTree.perform_nowhere hnode hedited hself
      exact (nodes_eq_none_iff h).mpr hparent
  | some parent =>
      have hknown : (treeOf s.folders c.userId).nodes newParentId ≠ none := by
        rw [nodes_eq_some h hparent]
        exact Option.some_ne_none _
      split
      · rename_i hlength
        have hchain := (h.ancestorChain hparent (h.bounded newParentId)
          (by decide : MAX_FOLDER_DEPTH ≤ RECURSION_LIMIT)).1
        rw [hlength] at hchain
        cases hchain
      · rename_i hlength
        split
        · rename_i hcycle
          apply Progresses.refuses
          intro fresh _
          apply FolderTree.perform_below hnode hedited hself hknown
          exact (within_iff h).mpr (exists_up_of_mem_chain hcycle)
        · refine .goes rfl rfl ⟨dto, rfl, hname, hplace, ?_, ?_, ?_⟩
          · simpa using hself
          · rintro ⟨⟩
          · rintro p ⟨⟩
            obtain ⟨depth, hdepth⟩ := Nat.exists_eq_succ_of_ne_zero hlength
            refine ⟨depth, hdepth, ?_⟩
            apply up_ne_none_of_lt_chain RECURSION_LIMIT (by omega)

/-- `assertValidMove`: the height of the folder is queried. -/
theorem Call.progresses_measure (h : Hierarchy (ownedBy s.folders c.userId)) {current : Folder}
    (howned : ownedBy s.folders c.userId current.id = some current)
    {name : Option (Option JsString)} {newParentId : Option ℕ} {parentDepth : ℕ}
    (hadmits : Admits (ownedBy s.folders c.userId) current.id newParentId parentDepth)
    (hserves : (Phase.measuring current name newParentId parentDepth).Serves
      (ownedBy s.folders c.userId) operation) :
  c.Progresses s s operation (c.measure s current name newParentId parentDepth)
  := by
  obtain ⟨dto, rfl, hname, hplace, hself, hroot, habove⟩ := hserves
  have hedited : (FolderTree.edited current.node dto).parentId = newParentId := by
    simp [FolderTree.edited, hplace]
  unfold measure
  simp only
  split
  · rename_i hdepth
    apply Progresses.refuses
    intro fresh _
    cases newParentId with
    | none =>
        have hle := h.height_le current.id
        rw [hroot rfl] at hdepth
        omega
    | some p =>
        obtain ⟨depth, rfl, hup⟩ := habove p rfl
        have hpos : FoldersService.subtreeHeight s.folders c.userId RECURSION_LIMIT current.id ≠ 0 := by
          intro hzero
          apply h.subtreeHeight howned current.id
          rw [hzero]
          rfl
        obtain ⟨k, hk⟩ := Nat.exists_eq_succ_of_ne_zero hpos
        obtain ⟨a, ha⟩ := exists_up_of_lt_height (hk.symm ▸ Nat.lt_succ_self k)
        rw [FolderTree.perform_fit (nodes_eq_some h howned)]
        · apply fit_eq_error h
          rw [hedited]
          exact not_bounded_update (fun j => h.bounded.up_ne_self j current.id) ha
            (hadmits.cycle p rfl) hup (by omega)
        · rw [hedited]
          rintro q ⟨⟩
          obtain ⟨parent, hparent⟩ := hadmits.exists_owned rfl
          refine ⟨fun heq => hself (heq ▸ rfl), ?_, ?_⟩
          · rw [nodes_eq_some h hparent]
            exact Option.some_ne_none _
          · rw [within_iff h]
            rintro ⟨k, hup⟩
            apply hadmits.cycle p rfl k hup
  · exact .goes rfl rfl ⟨dto, rfl, hname, by rw [hplace]⟩

/-- `update`: the columns are set. -/
theorem Call.progresses_save (h : Hierarchy (ownedBy s.folders c.userId)) {current : Folder}
    {data : FolderData} (hknows : (Phase.saving current data).Knows (ownedBy s.folders c.userId))
    (hserves : (Phase.saving current data).Serves (ownedBy s.folders c.userId) operation)
    (hsave : save s current data = (s', phase)) :
  c.Progresses s s' operation phase
  := by
  have hkeeps := keeps_save h hknows hsave
  obtain ⟨howned, -⟩ := hknows
  obtain ⟨dto, rfl, hname, hplace⟩ := hserves
  have hnode := nodes_eq_some h howned
  unfold save at hsave
  simp only at hsave
  split at hsave
  · obtain ⟨rfl, rfl⟩ := Prod.mk.inj hsave
    exact .goes rfl rfl trivial
  · split at hsave
    · obtain ⟨rfl, rfl⟩ := Prod.mk.inj hsave
      exact .goes rfl rfl trivial
    · rename_i folder hfolder
      obtain ⟨rfl, rfl⟩ := Prod.mk.inj hsave
      rw [Table.find_updateMany, (ownedBy_eq_some_iff.mp howned).1, Option.map_some,
        Update.apply_of_guard _ (by simp [FoldersService.save])] at hfolder
      obtain rfl := Option.some.inj hfolder
      have hedited : FolderTree.edited current.node dto
          = ((FoldersService.save s.now current.id data).data current).node := by
        rw [FolderTree.edited, hname]
        change FolderNode.mk _ (dto.parentId.getD current.parentId) = _
        rw [hplace]
        rfl
      have hnodes : (treeOf (s.folders.updateMany
            (FoldersService.save s.now current.id data)).1 c.userId).nodes
          = Function.update (treeOf s.folders c.userId).nodes current.id
            (some (FolderTree.edited current.node dto)) := by
        rw [nodes_treeOf hkeeps.hierarchy, nodes_treeOf h, hedited, ← nodesOf_update]
        congr 1
        rw [ownedBy_save howned, if_pos rfl]
      apply Progresses.answers
      refine ⟨?_, ?_, by rintro _ ⟨⟩⟩
      · rw [FolderTree.perform_eq_ok_iff, FolderTree.changed, hnode, Option.map_some]
        exact congrArg some hnodes.symm
      · change (treeOf _ c.userId).nodes current.id = _
        rw [hnodes, Function.update_self, hedited]

/-- `create`: the insertion. -/
theorem Call.progresses_create (h : Hierarchy (ownedBy s.folders c.userId)) {name : JsString}
    {parentId : Option ℕ} {id : ℕ}
    (hknows : (Phase.creating name parentId).Knows (ownedBy s.folders c.userId))
    (hcreate : c.create s name parentId id = some (s', phase)) :
  c.Progresses s s' (.create ⟨name, parentId⟩) phase
  := by
  have hkeeps := keeps_create h hknows hcreate
  obtain ⟨-, rfl, rfl⟩ | ⟨folders, -, hfolders, rfl, rfl⟩ := create_cases hcreate
  · exact .goes rfl rfl trivial
  · have hnodes : (treeOf folders c.userId).nodes
        = Function.update (treeOf s.folders c.userId).nodes id (some ⟨name, parentId⟩) := by
      rw [nodes_treeOf hkeeps.hierarchy, nodes_treeOf h]
      change nodesOf (ownedBy folders c.userId) = Function.update _ id
        (some (createdFolder id c.userId name parentId s.now).node)
      rw [← nodesOf_update]
      congr 1
      rw [ownedBy_create hfolders, if_pos (by rfl)]
      rfl
    apply Progresses.answers
    refine ⟨?_, ?_, ?_⟩
    · rw [FolderTree.perform_eq_ok_iff]
      exact congrArg some hnodes.symm
    · change (treeOf folders c.userId).nodes id = _
      rw [hnodes, Function.update_self]
      rfl
    · rintro dto -
      rw [nodes_eq_none_iff h, ownedBy, Table.find_of_create hfolders]
      rfl

/-- `remove`: the folder is deleted. -/
theorem Call.progresses_delete (h : Hierarchy (ownedBy s.folders c.userId)) {folder : Folder}
    {unfiled : List ℕ} (howned : ownedBy s.folders c.userId folder.id = some folder)
    (hdelete : c.delete config s folder unfiled = (s', phase)) :
  c.Progresses s s' (.remove folder.id) phase
  := by
  have hkeeps := keeps_delete h howned hdelete
  obtain ⟨hfind, huser⟩ := ownedBy_eq_some_iff.mp howned
  unfold delete at hdelete
  simp only at hdelete
  split at hdelete
  · rename_i hcount
    exfalso
    apply hcount
    rw [List.countP_eq_length_filter, Table.filter_key, Table.find_updateMany, hfind,
      Option.map_some]
    simp [Option.filter, userId_promote_apply, huser]
  · split at hdelete
    · obtain ⟨rfl, rfl⟩ := Prod.mk.inj hdelete
      exact .goes rfl rfl trivial
    · obtain ⟨rfl, rfl⟩ := Prod.mk.inj hdelete
      apply Progresses.answers
      refine ⟨rfl, fun fresh => ?_⟩
      rw [FolderTree.perform_eq_ok_iff, FolderTree.changed, nodes_eq_some h howned, Option.map_some,
        Option.some_inj, nodes_treeOf hkeeps.hierarchy, nodes_treeOf h]
      change _ = nodesOf (ownedBy _ c.userId)
      rw [ownedBy_delete howned, if_pos rfl]
      ext a : 1
      rw [FolderTree.spliced, nodesOf, nodesOf, parentAt_nodesOf]
      split
      · rfl
      · cases ha : ownedBy s.folders c.userId a with
        | none => rfl
        | some f =>
            have hf := (ownedBy_eq_some_iff.mp ha).2
            simp only [Option.map_some, Update.apply, FoldersService.promote, hf, Folder.node,
              parentOf, howned, Option.bind_some]
            split <;> simp_all

/-- Every step of a call serves its operation, or answers what the change answers. -/
theorem Call.progresses_act {action : Action} (h : Hierarchy (ownedBy s.folders c.userId))
    (hknows : c.phase.Knows (ownedBy s.folders c.userId))
    (hserves : c.phase.Serves (ownedBy s.folders c.userId) operation)
    (hact : c.act config s action = some (s', phase)) :
  c.Progresses s s' operation phase
  := by
  have hreads : ∀ next : Phase, c.Progresses s s operation next →
      some (s, next) = some (s', phase) → c.Progresses s s' operation phase := by
    intro next hnext heq
    obtain ⟨rfl, rfl⟩ := Prod.mk.inj (Option.some.inj heq)
    exact hnext
  cases action with
  | lock =>
      simp only [act] at hact
      split at hact
      · rename_i requested hphase
        rw [hphase] at hserves
        obtain rfl : requested = operation := hserves
        obtain ⟨hstart, hanswered⟩ := Operation.serves_start (ownedBy s.folders c.userId) requested
        apply hreads _ (.goes rfl hanswered hstart) hact
      · cases hact
  | insert id =>
      simp only [act] at hact
      split at hact
      · rename_i name parentId hphase
        rw [hphase] at hknows hserves
        obtain rfl : operation = _ := hserves
        apply progresses_create h hknows hact
      · cases hact
  | throw =>
      obtain ⟨rfl, rfl⟩ := throw_cases hact
      exact .goes rfl rfl trivial
  | advance =>
      simp only [act, advance] at hact
      split at hact
      · rename_i name parentId hphase
        rw [hphase] at hserves
        obtain rfl : operation = _ := hserves
        apply hreads _ (progresses_place h name parentId) hact
      · rename_i folderId dto hphase
        rw [hphase] at hserves
        obtain rfl : operation = _ := hserves
        apply hreads _ _ hact
        apply progresses_withOwned
        · intro hnone fresh
          simp only [FolderTree.perform, (nodes_eq_none_iff h).mpr hnone]
        · rintro current howned rfl
          apply progresses_change h howned
      · rename_i current name newParentId hphase
        rw [hphase] at hknows hserves
        apply hreads _ (progresses_move h hknows hserves) hact
      · rename_i current name newParentId parentDepth hphase
        rw [hphase] at hknows hserves
        apply hreads _ (progresses_measure h hknows.1 hknows.2 hserves) hact
      · rename_i current data hphase
        rw [hphase] at hknows hserves
        apply progresses_save h hknows hserves (Option.some.inj hact)
      · rename_i folderId hphase
        rw [hphase] at hserves
        obtain rfl : operation = _ := hserves
        apply hreads _ _ hact
        apply progresses_withOwned
        · intro hnone fresh
          simp only [FolderTree.perform]
          rw [if_pos ((nodes_eq_none_iff h).mpr hnone)]
        · rintro folder howned rfl
          exact .goes rfl rfl rfl
      · rename_i folder hphase
        rw [hphase] at hserves
        apply hreads (c.unfile config s folder) (.goes rfl rfl hserves) hact
      · rename_i folder unfiled hphase
        rw [hphase] at hknows hserves
        obtain rfl : operation = _ := hserves
        apply progresses_delete h hknows (Option.some.inj hact)
      · cases hact

end

/-! ### Runs -/

/-- By the transition the call gives its answer. -/
def Answers (callId : ℕ) (result : Except AppException Result) (t : Transition State Label) : Prop :=
  (t.source.calls.find callId).map Call.phase ≠ some (.returned result)
    ∧ (t.target.calls.find callId).map Call.phase = some (.returned result)

/-- The call is one of the user, for the operation. -/
def Requested (callId userId : ℕ) (operation : Operation) (s : State) : Prop :=
  ∃ c, s.calls.find callId = some c ∧ c.userId = userId
    ∧ c.phase.Serves (ownedBy s.folders userId) operation

theorem Phase.serves_of_not_locks {owned owned' : ℕ → Option Folder} {operation : Operation}
    {phase : Phase} (h : phase.Serves owned operation) (hlocks : phase.locks = false) :
  phase.Serves owned' operation
  := by
  cases phase with
  | waiting | returned | rejected => exact h
  | _ => cases hlocks

section

variable {config : DocumentsConfig} {hashtext : ℕ → ℕ} {s s' : State}

/-- A step of a call is seen by no other call that holds its lock. -/
theorem Invariant.owned_of_act (h : Invariant hashtext s) {c c' : Call} {action : Action} {t : Store}
    {phase : Phase} (hc : c ∈ s.calls.rows) (hact : c.act config s.toStore action = some (t, phase))
    (hc' : c' ∈ s.calls.rows) (hne : c'.id ≠ c.id) (hlocks : c'.phase.locks = true) :
  ownedBy t.folders c'.userId = ownedBy s.folders c'.userId
  := by
  by_cases huser : c'.userId = c.userId
  · have hfree : c.phase.locks = false := by
      by_contra hheld
      apply hne
      apply h.locking c' hc' c hc hlocks (Bool.not_eq_false _ ▸ hheld)
      rw [huser]
    rw [Call.eq_of_not_locks hact hfree]
  · apply (Call.keeps_act (h.hierarchy c.userId) (h.knows c hc) hact).others _ huser

theorem Requested.step {callId userId : ℕ} {operation : Operation} {label : Label}
    (hrequested : Requested callId userId operation s) (h : Invariant hashtext s)
    (hstep : (system config hashtext).step s label = some s') :
  Requested callId userId operation s'
  := by
  obtain ⟨c, hfind, rfl, hserves⟩ := hrequested
  cases label with
  | tick | writeDocuments =>
      obtain rfl := Option.some.inj hstep
      exact ⟨c, hfind, rfl, hserves⟩
  | call id userId requested =>
      obtain ⟨calls, hcreate, hstep⟩ := Option.bind_eq_some_iff.mp hstep
      obtain rfl := Option.some.inj hstep
      exact ⟨c, Table.find_create_of_find hcreate hfind, rfl, hserves⟩
  | step actorId action =>
      obtain ⟨actor, hactor, hstep⟩ := Option.bind_eq_some_iff.mp hstep
      split at hstep
      swap
      · cases hstep
      obtain ⟨⟨t, phase⟩, hact, hstep⟩ := Option.bind_eq_some_iff.mp hstep
      obtain rfl := Option.some.inj hstep
      obtain rfl := Table.key_of_find hfind
      obtain rfl := Table.key_of_find hactor
      have hmem := Table.mem_of_find hactor
      unfold Requested
      rw [Table.find_put]
      by_cases hid : c.id = actor.id
      · obtain rfl : actor = c := by
          rw [hid, hactor] at hfind
          exact Option.some.inj hfind
        refine ⟨_, if_pos hid, rfl, ?_⟩
        cases Call.progresses_act (h.hierarchy actor.userId) (h.knows actor hmem) hserves hact with
        | goes hfolders _ hserves' => exact hfolders.symm ▸ hserves'
        | answers => trivial
      · refine ⟨c, (if_neg hid).trans hfind, rfl, ?_⟩
        cases hlocks : c.phase.locks with
        | true =>
            change c.phase.Serves (ownedBy t.folders c.userId) operation
            rw [h.owned_of_act hmem hact (Table.mem_of_find hfind) hid hlocks]
            exact hserves
        | false => exact Phase.serves_of_not_locks hserves hlocks

theorem invariant_of_run {s₀ : State} {ts : List (Transition State Label)}
    (hrun : (system config hashtext).Run s₀ ts s) (hinit : (system config hashtext).init s₀) :
  Invariant hashtext s
  := by
  apply hrun.invariant (invariant_init hinit)
  intro t _ hstep h
  apply h.step hstep

/-- Only the call that takes a step answers with it. -/
theorem answers_iff {c : Call} {t : Store} {phase : Phase} {label : Label} {callId : ℕ}
    {result : Except AppException Result} (hfind : s.calls.find c.id = some c) :
  Answers callId result ⟨s, label, { toStore := t, calls := s.calls.put { c with phase } }⟩
    ↔ callId = c.id ∧ phase = .returned result ∧ c.phase ≠ .returned result
  := by
  simp only [Answers, Table.find_put]
  by_cases hid : callId = c.id
  · subst hid
    simp [hfind, and_comm]
  · simp only [hid, if_false, false_and, iff_false]
    rintro ⟨hsource, htarget⟩
    exact hsource htarget

end

end Folders

end DocuAI

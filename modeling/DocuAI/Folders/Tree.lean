import DocuAI.Folders.Calls
import DocuAI.Folders.Owned

/-!
# Folder trees

What the folder service is for: every user has a tree of folders, of bounded depth, and a call is one
change of the tree of its user.  A change is refused, with the error that says why, exactly when what
it would make is no tree; otherwise it is carried out as a whole (`FolderTree.perform_eq_ok_iff`).

This is no model of the code.  The trees are what the rows of the folders of a user show (`treeOf`),
and the calls are compared with the changes `FolderTree.perform`.
-/

namespace DocuAI

open Forest

/-- A folder as its place in the tree shows it. -/
structure FolderNode where
  name : JsString
  parentId : Option ℕ
  deriving DecidableEq

namespace Folders

def parentAt (nodes : ℕ → Option FolderNode) (id : ℕ) : Option ℕ := (nodes id).bind FolderNode.parentId

/-- Every parent is a folder, and none is too deep. -/
structure IsTree (nodes : ℕ → Option FolderNode) : Prop where
  closed : ∀ {id node parentId}, nodes id = some node → node.parentId = some parentId →
    nodes parentId ≠ none
  bounded : Bounded (parentAt nodes) MAX_FOLDER_DEPTH

end Folders

/-- The folders of a user. -/
structure FolderTree where
  nodes : ℕ → Option FolderNode
  isTree : Folders.IsTree nodes

namespace FolderTree

open Folders

/-- Trees with the same folders are the same. -/
@[ext]
theorem ext {t t' : FolderTree} (h : t.nodes = t'.nodes) :
  t = t'
  := by
  cases t
  cases t'
  cases h
  rfl

/-- No folders. -/
def empty : FolderTree where
  nodes _ := none
  isTree := by
    constructor
    · intro id node parentId h
      cases h
    · intro id
      rfl

/-- The folder lies in the subtree of another one, which may be itself. -/
def Within (t : FolderTree) (id a : ℕ) : Prop :=
  ∃ k, up (parentAt t.nodes) k a = some id

/-! ### Changes -/

open Classical in
/-- A folder is put in its place, as long as this leaves a tree. -/
noncomputable def put (t : FolderTree) (id : ℕ) (node : FolderNode) : Option FolderTree :=
  if h : IsTree (Function.update t.nodes id (some node)) then some ⟨_, h⟩ else none

/-- A folder is put in its place if it fits. -/
noncomputable def fit (t : FolderTree) (id : ℕ) (node : FolderNode) :
    Except AppException FolderTree :=
  match t.put id node with
  | some t' => .ok t'
  | none => .error folderDepthExceeded

/-- The folders without one of them, whose children move up to its parent. -/
def spliced (nodes : ℕ → Option FolderNode) (id a : ℕ) : Option FolderNode :=
  if a = id then none
  else (nodes a).map fun node =>
    { node with
      parentId := if node.parentId = some id then parentAt nodes id else node.parentId }

theorem parentAt_spliced (nodes : ℕ → Option FolderNode) (id : ℕ) :
  parentAt (spliced nodes id) = promote (parentAt nodes) id
  := by
  ext a : 1
  rw [parentAt, spliced, promote]
  split
  · rfl
  · cases h : nodes a with
    | none => simp [parentAt, h]
    | some node => simp [parentAt, h]

theorem isTree_spliced {nodes : ℕ → Option FolderNode} (h : IsTree nodes) (id : ℕ) :
  IsTree (spliced nodes id)
  := by
  have hself : parentAt nodes id ≠ some id := by
    intro hself
    apply h.bounded.up_ne_self 0 id
    rw [up, hself]
    rfl
  constructor
  · intro a node parentId ha hparent
    unfold spliced at ha
    split at ha
    · cases ha
    obtain ⟨old, hold, rfl⟩ := Option.map_eq_some_iff.mp ha
    have hexists : parentId ≠ id ∧ nodes parentId ≠ none := by
      simp only at hparent
      split at hparent
      · constructor
        · rintro rfl
          apply hself hparent
        · obtain ⟨removed, hremoved, hup⟩ := Option.bind_eq_some_iff.mp hparent
          apply h.closed hremoved hup
      · rename_i hother
        constructor
        · rintro rfl
          apply hother hparent
        · apply h.closed hold hparent
    rw [spliced, if_neg hexists.1]
    simpa using hexists.2
  · rw [parentAt_spliced]
    apply h.bounded.promote

/-- A folder is removed, and its children move up to its parent. -/
def remove (t : FolderTree) (id : ℕ) : FolderTree :=
  ⟨spliced t.nodes id, isTree_spliced t.isTree id⟩

/-- What an update makes of a folder. -/
def edited (node : FolderNode) (dto : UpdateFolderDto) : FolderNode where
  name := dto.name.join.getD node.name
  parentId := dto.parentId.getD node.parentId

open Classical in
/-- One change.  A new folder has an id that is none yet. -/
noncomputable def perform (t : FolderTree) (fresh : ℕ) : Operation → Except AppException FolderTree
  | .create dto =>
      if ∃ p, dto.parentId = some p ∧ t.nodes p = none then .error folderNotFound
      else t.fit fresh ⟨dto.name, dto.parentId⟩
  | .update id dto =>
      match t.nodes id with
      | none => .error folderNotFound
      | some node =>
          let place := (edited node dto).parentId
          if place = some id then .error folderSelfParent
          else if ∃ p, place = some p ∧ t.nodes p = none then .error folderNotFound
          else if ∃ p, place = some p ∧ t.Within id p then .error folderCycle
          else t.fit id (edited node dto)
  | .remove id => if t.nodes id = none then .error folderNotFound else .ok (t.remove id)

/-- What a change would make of the folders, be it a tree or not.  `none` when the folder it is about
is not there. -/
def changed (nodes : ℕ → Option FolderNode) (fresh : ℕ) :
    Operation → Option (ℕ → Option FolderNode)
  | .create dto => some (Function.update nodes fresh (some ⟨dto.name, dto.parentId⟩))
  | .update id dto =>
      (nodes id).map fun node => Function.update nodes id (some (edited node dto))
  | .remove id => (nodes id).map fun _ => spliced nodes id

theorem put_eq_some {t t' : FolderTree} {id : ℕ} {node : FolderNode}
    (h : t'.nodes = Function.update t.nodes id (some node)) :
  t.put id node = some t'
  := by
  have htree : IsTree (Function.update t.nodes id (some node)) := h ▸ t'.isTree
  rw [put, dif_pos htree, Option.some.injEq]
  apply FolderTree.ext
  rw [h]

theorem fit_eq_ok_iff {t t' : FolderTree} {id : ℕ} {node : FolderNode} :
  t.fit id node = .ok t' ↔ t'.nodes = Function.update t.nodes id (some node)
  := by
  constructor
  · intro h
    unfold fit at h
    split at h
    · rename_i hput
      obtain rfl := Except.ok.inj h
      unfold put at hput
      split at hput
      · obtain rfl := Option.some.inj hput
        rfl
      · cases hput
    · cases h
  · intro h
    rw [fit, put_eq_some h]

theorem parentAt_update (nodes : ℕ → Option FolderNode) (id : ℕ) (node : FolderNode) :
  parentAt (Function.update nodes id (some node))
    = Function.update (parentAt nodes) id node.parentId
  := by
  ext a : 1
  by_cases ha : a = id
  · subst ha
    simp [parentAt]
  · simp [parentAt, ha]

/-- A folder that would get too deep does not fit. -/
theorem fit_eq_error {t : FolderTree} {id : ℕ} {node : FolderNode}
    (h : ¬Bounded (Function.update (parentAt t.nodes) id node.parentId) MAX_FOLDER_DEPTH) :
  t.fit id node = .error folderDepthExceeded
  := by
  have htree : ¬IsTree (Function.update t.nodes id (some node)) := by
    intro htree
    apply h
    rw [← parentAt_update]
    exact htree.bounded
  rw [fit, put, dif_neg htree]

/-! ### Updates -/

section

variable {t : FolderTree} {id p : ℕ} {node : FolderNode} {dto : UpdateFolderDto}

theorem perform_ownParent (h : t.nodes id = some node)
    (hplace : (edited node dto).parentId = some id) (fresh : ℕ) :
  t.perform fresh (.update id dto) = .error folderSelfParent
  := by
  simp only [perform, h]
  rw [if_pos hplace]

theorem perform_nowhere (h : t.nodes id = some node) (hplace : (edited node dto).parentId = some p)
    (hself : p ≠ id) (hnone : t.nodes p = none) (fresh : ℕ) :
  t.perform fresh (.update id dto) = .error folderNotFound
  := by
  simp only [perform, h]
  rw [if_neg (by simpa [hplace] using hself), if_pos ⟨p, hplace, hnone⟩]

theorem perform_below (h : t.nodes id = some node) (hplace : (edited node dto).parentId = some p)
    (hself : p ≠ id) (hknown : t.nodes p ≠ none) (hwithin : t.Within id p) (fresh : ℕ) :
  t.perform fresh (.update id dto) = .error folderCycle
  := by
  have hsome : ¬∃ q, (edited node dto).parentId = some q ∧ t.nodes q = none := by
    rintro ⟨q, hq, hnone⟩
    rw [hplace] at hq
    obtain rfl := Option.some.inj hq
    exact hknown hnone
  simp only [perform, h]
  rw [if_neg (by simpa [hplace] using hself), if_neg hsome, if_pos ⟨p, hplace, hwithin⟩]

/-- A place that is no reason to refuse. -/
theorem perform_fit (h : t.nodes id = some node)
    (hplace : ∀ p, (edited node dto).parentId = some p →
      p ≠ id ∧ t.nodes p ≠ none ∧ ¬t.Within id p) (fresh : ℕ) :
  t.perform fresh (.update id dto) = t.fit id (edited node dto)
  := by
  simp only [perform, h]
  rw [if_neg fun hself => (hplace id hself).1 rfl,
    if_neg fun ⟨p, hp, hnone⟩ => (hplace p hp).2.1 hnone,
    if_neg fun ⟨p, hp, hwithin⟩ => (hplace p hp).2.2 hwithin]

end

/-- The place a folder has in a tree is none to refuse. -/
theorem place_ne {t t' : FolderTree} {id p : ℕ} {node : FolderNode}
    (h : t'.nodes = Function.update t.nodes id (some node)) (hp : node.parentId = some p) :
  p ≠ id ∧ t.nodes p ≠ none ∧ ¬t.Within id p
  := by
  have hbounded : Bounded (Function.update (parentAt t.nodes) id (some p)) MAX_FOLDER_DEPTH := by
    rw [← hp, ← parentAt_update, ← h]
    exact t'.isTree.bounded
  have hne : p ≠ id := by
    rintro rfl
    exact hbounded.up_ne_of_update 0 rfl
  refine ⟨hne, ?_, fun ⟨k, hup⟩ => hbounded.up_ne_of_update k hup⟩
  have hself : t'.nodes id = some node := by
    rw [h, Function.update_self]
  have hparent := t'.isTree.closed hself hp
  rwa [h, Function.update_of_ne hne] at hparent

/-- A change is carried out exactly when what it makes of the folders is a tree, and makes that tree;
it is refused when this is none. -/
theorem perform_eq_ok_iff {t t' : FolderTree} {fresh : ℕ} {operation : Operation} :
  t.perform fresh operation = .ok t' ↔ changed t.nodes fresh operation = some t'.nodes
  := by
  cases operation with
  | create dto =>
      rw [changed, Option.some_inj, eq_comm (b := t'.nodes)]
      simp only [perform]
      split
      · rename_i hnowhere
        refine ⟨nofun, fun h => ?_⟩
        obtain ⟨p, hp, hnone⟩ := hnowhere
        exact absurd hnone (place_ne h hp).2.1
      · exact fit_eq_ok_iff
  | update id dto =>
      cases hnode : t.nodes id with
      | none => simp [perform, changed, hnode]
      | some node =>
          rw [changed, hnode, Option.map_some, Option.some_inj, eq_comm (b := t'.nodes)]
          constructor
          · intro h
            simp only [perform, hnode] at h
            split at h
            · cases h
            · split at h
              · cases h
              · split at h
                · cases h
                · exact fit_eq_ok_iff.mp h
          · intro h
            rw [perform_fit hnode fun p hp => place_ne h hp]
            exact fit_eq_ok_iff.mpr h
  | remove id =>
      cases hnode : t.nodes id with
      | none => simp [perform, changed, hnode]
      | some node =>
          simp only [perform, changed, hnode, Option.map_some, Option.some_inj, reduceCtorEq,
            if_false, Except.ok.injEq, FolderTree.ext_iff]
          rfl

end FolderTree

/-! ### The trees of the rows -/

/-- What a row shows of a folder. -/
def Folder.node (folder : Folder) : FolderNode where
  name := folder.name
  parentId := folder.parentId

namespace Folders

def nodesOf (owned : ℕ → Option Folder) (id : ℕ) : Option FolderNode := (owned id).map Folder.node

theorem parentAt_nodesOf (owned : ℕ → Option Folder) :
  parentAt (nodesOf owned) = parentOf owned
  := by
  ext a : 1
  rw [parentAt, nodesOf, parentOf]
  cases owned a <;> rfl

theorem nodesOf_update (owned : ℕ → Option Folder) (id : ℕ) (folder : Folder) :
  nodesOf (Function.update owned id (some folder))
    = Function.update (nodesOf owned) id (some folder.node)
  := by
  ext a : 1
  by_cases ha : a = id
  · subst ha
    simp [nodesOf]
  · simp [nodesOf, ha]

theorem Hierarchy.isTree {owned : ℕ → Option Folder} (h : Hierarchy owned) :
  IsTree (nodesOf owned)
  := by
  constructor
  · intro id node parentId hnode hparent
    obtain ⟨folder, hfolder, rfl⟩ := Option.map_eq_some_iff.mp hnode
    obtain ⟨parent, hparent⟩ := h.closed hfolder hparent
    simp [nodesOf, hparent]
  · rw [parentAt_nodesOf]
    exact h.bounded

open Classical in
/-- The tree that the folders of a user show, when they are one. -/
noncomputable def treeOf (folders : Table Folder.id) (userId : ℕ) : FolderTree :=
  if h : IsTree (nodesOf (ownedBy folders userId)) then ⟨_, h⟩ else FolderTree.empty

theorem nodes_treeOf {folders : Table Folder.id} {userId : ℕ}
    (h : Hierarchy (ownedBy folders userId)) :
  (treeOf folders userId).nodes = nodesOf (ownedBy folders userId)
  := by
  rw [treeOf, dif_pos h.isTree]

end Folders

end DocuAI

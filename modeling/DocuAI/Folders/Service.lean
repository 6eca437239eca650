import DocuAI.Documents.Errors
import DocuAI.Library.Forest

/-!
# Folders

The queries and the updates of the folder service.  Every query is scoped by the user's id, so that
the folder of another user is found as little as one that does not exist.
-/

namespace DocuAI

structure CreateFolderDto where
  name : JsString
  parentId : Option ℕ
  deriving DecidableEq

/-- The fields of an update.  A field that is absent is left alone; the validation lets `null`
through for each of them. -/
structure UpdateFolderDto where
  name : Option (Option JsString)
  parentId : Option (Option ℕ)
  deriving DecidableEq

/-- The columns an update sets. -/
abbrev FolderData := UpdateFolderDto

namespace FoldersService

/-- Bound of the recursive queries. -/
def RECURSION_LIMIT : ℕ := 64

section

variable (folders : Table Folder.id) (userId : ℕ)

/-- Loads a folder of the user, or fails with the safe error. -/
def getOwned (folderId : ℕ) : Except AppException Folder :=
  match (folders.find folderId).filter (·.userId = userId) with
  | some folder => .ok folder
  | none => .error folderNotFound

/-- The first query of a recursion: the folder with the id. -/
def anchor (folderId : ℕ) : List Folder :=
  folders.rows.filter fun folder => folder.id = folderId && folder.userId = userId

/-- `JOIN chain c ON f.id = c.parent_id`. -/
def joinParent (c : Folder) : List Folder :=
  folders.rows.filter fun f => some f.id = c.parentId && f.userId = userId

/-- `JOIN sub s ON f.parent_id = s.id`. -/
def joinChildren (s : Folder) : List Folder :=
  folders.rows.filter fun f => f.parentId = some s.id && f.userId = userId

/-- The folder and its ancestors, nearest first, restricted to the user's folders and to the levels
within the limit.  Empty when the folder is not the user's. -/
def ancestorChain (limit folderId : ℕ) : List ℕ :=
  (Forest.levels (joinParent folders userId) limit (anchor folders userId folderId)).flatten.map
    Folder.id

/-- The height of the subtree below the folder, the folder alone having height 1, as far as the
levels within the limit reach. -/
def subtreeHeight (limit folderId : ℕ) : ℕ :=
  Forest.height (joinChildren folders userId) limit (anchor folders userId folderId)

end

/-- The row `create` inserts. -/
def createdFolder (id userId : ℕ) (name : JsString) (parentId : Option ℕ) (now : ℕ) : Folder where
  id := id
  userId := userId
  name := name
  parentId := parentId
  createdAt := now
  updatedAt := now

/-- `update`: the columns of one folder are set. -/
def save (now id : ℕ) (data : FolderData) : Update Folder.id where
  guard := fun folder => folder.id = id
  data := fun folder =>
    { folder with
      name := data.name.join.getD folder.name
      parentId := data.parentId.getD folder.parentId
      updatedAt := now }

/-- `remove`: the children move up to the parent of the folder. -/
def promote (now : ℕ) (folder : Folder) (userId : ℕ) : Update Folder.id where
  guard := fun child => child.parentId = some folder.id && child.userId = userId
  data := fun child => { child with parentId := folder.parentId, updatedAt := now }

/-- Whether the foreign key of a folder refers to a folder. -/
def admits (folders : Table Folder.id) (parentId : Option ℕ) : Bool :=
  parentId.all fun parentId => (folders.find parentId).isSome

end FoldersService

end DocuAI

import DocuAI.Folders.Service

/-!
# The folders of a user

The folders of a user are a partial map of ids to folders (`ownedBy`), and so is all that the queries
of the service read.  When they form a bounded forest (`Hierarchy`), the recursive queries find all
ancestors of a folder and the height of its subtree, the bound of their recursion notwithstanding,
and the insertions, moves and removals that are checked by these queries keep the forest bounded.
-/

namespace DocuAI

namespace Folders

open FoldersService Forest Relation

/-! ### The folders of a user -/

/-- The folders of a user, by their ids. -/
def ownedBy (folders : Table Folder.id) (userId id : ℕ) : Option Folder :=
  (folders.find id).filter (·.userId = userId)

def parentOf (owned : ℕ → Option Folder) (id : ℕ) : Option ℕ :=
  (owned id).bind Folder.parentId

/-- The folders of a user form a bounded forest. -/
structure Hierarchy (owned : ℕ → Option Folder) : Prop where
  closed : ∀ {id folder parentId}, owned id = some folder → folder.parentId = some parentId →
    ∃ parent, owned parentId = some parent
  bounded : Bounded (parentOf owned) MAX_FOLDER_DEPTH

theorem exists_owned_of_up {owned : ℕ → Option Folder} {n a b : ℕ}
    (h : up (parentOf owned) (n + 1) a = some b) :
  ∃ folder, owned a = some folder
  := by
  obtain ⟨parentId, hparent, -⟩ := Option.bind_eq_some_iff.mp h
  obtain ⟨folder, hfolder, -⟩ := Option.bind_eq_some_iff.mp hparent
  exact ⟨folder, hfolder⟩

/-- Whatever lies above a folder of the user is one. -/
theorem Hierarchy.exists_owned {owned : ℕ → Option Folder} (h : Hierarchy owned) {n a b : ℕ}
    (hup : up (parentOf owned) (n + 1) a = some b) :
  ∃ folder, owned b = some folder
  := by
  rw [up_add] at hup
  obtain ⟨x, -, hx⟩ := Option.bind_eq_some_iff.mp hup
  obtain ⟨parentId, hparent, hb⟩ := Option.bind_eq_some_iff.mp hx
  obtain rfl := Option.some.inj hb
  obtain ⟨folder, hfolder, hparentId⟩ := Option.bind_eq_some_iff.mp hparent
  apply h.closed hfolder hparentId

section

variable {folders folders' : Table Folder.id} {userId : ℕ}

theorem ownedBy_eq_some_iff {id : ℕ} {folder : Folder} :
  ownedBy folders userId id = some folder
    ↔ folders.find id = some folder ∧ folder.userId = userId
  := by
  simp [ownedBy, Option.filter_eq_some_iff]

theorem id_of_ownedBy {id : ℕ} {folder : Folder} (h : ownedBy folders userId id = some folder) :
  folder.id = id
  := Table.key_of_find (ownedBy_eq_some_iff.mp h).1

/-! ### The recursive queries -/

theorem anchor_eq (id : ℕ) :
  anchor folders userId id = (ownedBy folders userId id).toList
  := by
  apply Table.filter_key

theorem joinParent_eq (c : Folder) :
  joinParent folders userId c = (c.parentId.bind (ownedBy folders userId)).toList
  := by
  unfold joinParent
  cases c.parentId with
  | none => simp
  | some parentId =>
      simp only [Option.some.injEq]
      apply anchor_eq

theorem mem_joinChildren {s f : Folder} :
  f ∈ joinChildren folders userId s
    ↔ ownedBy folders userId f.id = some f ∧ f.parentId = some s.id
  := by
  rw [ownedBy_eq_some_iff, ← Table.mem_rows_iff]
  simp only [joinChildren, List.mem_filter, Bool.and_eq_true, decide_eq_true_eq]
  tauto

/-- The chain of a folder goes on with that of its parent. -/
theorem ancestorChain_succ (limit id : ℕ) :
  ancestorChain folders userId (limit + 1) id
    = match ownedBy folders userId id with
      | none => []
      | some folder =>
          match folder.parentId with
          | none => [id]
          | some parentId => id :: ancestorChain folders userId limit parentId
  := by
  rw [ancestorChain, levels, anchor_eq]
  cases howned : ownedBy folders userId id with
  | none => simp [flatten_levels_nil]
  | some folder =>
      simp only [Option.toList_some, List.flatMap_cons, List.flatMap_nil, List.append_nil,
        List.flatten_cons, List.map_append, List.map_cons, List.map_nil, id_of_ownedBy howned,
        joinParent_eq]
      cases folder.parentId with
      | none => simp [flatten_levels_nil]
      | some parentId => rw [Option.bind_some, ← anchor_eq]; rfl

/-- A chain is complete as soon as the limit reaches beyond the root. -/
theorem ancestorChain_of_up {n limit id : ℕ}
    (hup : up (parentOf (ownedBy folders userId)) n id = none) (hle : n ≤ limit) :
  ancestorChain folders userId limit id = ancestorChain folders userId n id
  := by
  induction n generalizing limit id with
  | zero => cases hup
  | succ n ih =>
      obtain ⟨limit, rfl⟩ := Nat.exists_eq_add_of_le' (Nat.le_trans (Nat.succ_pos n) hle)
      rw [ancestorChain_succ, ancestorChain_succ]
      cases howned : ownedBy folders userId id with
      | none => rfl
      | some folder =>
          cases hparent : folder.parentId with
          | none => simp only [hparent]
          | some parentId =>
              simp only [up, parentOf, howned, Option.bind_some, hparent] at hup
              simp only [hparent, List.cons.injEq, true_and]
              apply ih hup (Nat.le_of_succ_le_succ hle)

/-- The chain of a folder of the user are the folders above it, and as many as its depth. -/
theorem Hierarchy.ancestorChain (h : Hierarchy (ownedBy folders userId)) {n limit id : ℕ}
    {folder : Folder} (howned : ownedBy folders userId id = some folder)
    (hup : up (parentOf (ownedBy folders userId)) n id = none) (hle : n ≤ limit) :
  up (parentOf (ownedBy folders userId)) (ancestorChain folders userId limit id).length id = none
  ∧ ∀ k a, up (parentOf (ownedBy folders userId)) k id = some a →
      a ∈ ancestorChain folders userId limit id
  := by
  induction n generalizing limit id folder with
  | zero => cases hup
  | succ n ih =>
      obtain ⟨limit, rfl⟩ := Nat.exists_eq_add_of_le' (Nat.le_trans (Nat.succ_pos n) hle)
      have hparentOf : parentOf (ownedBy folders userId) id = folder.parentId := by
        rw [parentOf, howned, Option.bind_some]
      rw [up, hparentOf] at hup
      simp only [ancestorChain_succ, howned]
      cases hparent : folder.parentId with
      | none =>
          rw [hparent] at hparentOf
          constructor
          · simp [up, hparentOf]
          · intro k a ha
            cases k with
            | zero => simpa [up, eq_comm] using ha
            | succ k => simp [up, hparentOf] at ha
      | some parentId =>
          rw [hparent] at hparentOf hup
          obtain ⟨parent, hparentOwned⟩ := h.closed howned hparent
          obtain ⟨hlength, hmem⟩ := ih hparentOwned hup (Nat.le_of_succ_le_succ hle)
          constructor
          · rw [List.length_cons, up, hparentOf]
            apply hlength
          · intro k a ha
            cases k with
            | zero =>
                obtain rfl := Option.some.inj ha
                apply List.mem_cons_self
            | succ k =>
                rw [up, hparentOf] at ha
                apply List.mem_cons_of_mem _ (hmem k a ha)

theorem ancestorChain_eq_nil {limit id : ℕ} (h : ownedBy folders userId id = none) :
  ancestorChain folders userId limit id = []
  := by
  cases limit with
  | zero => rfl
  | succ limit => rw [ancestorChain_succ, h]

/-- The levels below folders of the user are what lies so many levels below them. -/
theorem mem_level {n : ℕ} {rows : List Folder} {f : Folder}
    (hrows : ∀ r ∈ rows, ownedBy folders userId r.id = some r) :
  f ∈ level (joinChildren folders userId) n rows
    ↔ ownedBy folders userId f.id = some f
      ∧ ∃ r ∈ rows, up (parentOf (ownedBy folders userId)) n f.id = some r.id
  := by
  induction n generalizing rows with
  | zero =>
      simp only [level, up, Option.some.injEq]
      constructor
      · intro hf
        exact ⟨hrows f hf, f, hf, rfl⟩
      · rintro ⟨hf, r, hr, hid⟩
        have hsame := hrows r hr
        rw [← hid, hf] at hsame
        rw [Option.some.inj hsame]
        apply hr
  | succ n ih =>
      have hjoin : ∀ r ∈ rows.flatMap (joinChildren folders userId),
          ownedBy folders userId r.id = some r := by
        intro r hr
        obtain ⟨s, -, hs⟩ := List.mem_flatMap.mp hr
        apply (mem_joinChildren.mp hs).1
      rw [level, ih hjoin]
      apply and_congr_right
      intro hf
      constructor
      · rintro ⟨r, hr, hup⟩
        obtain ⟨s, hs, hchild⟩ := List.mem_flatMap.mp hr
        obtain ⟨howned, hparent⟩ := mem_joinChildren.mp hchild
        use s, hs
        rw [up_add, hup, Option.bind_some, up, parentOf, howned, Option.bind_some, hparent]
        rfl
      · rintro ⟨s, hs, hup⟩
        rw [up_add] at hup
        obtain ⟨b, hb, hs'⟩ := Option.bind_eq_some_iff.mp hup
        obtain ⟨parentId, hparent, hid⟩ := Option.bind_eq_some_iff.mp hs'
        obtain rfl := Option.some.inj hid
        obtain ⟨r, hr, hparentId⟩ := Option.bind_eq_some_iff.mp hparent
        obtain rfl := id_of_ownedBy hr
        refine ⟨r, List.mem_flatMap.mpr ⟨s, hs, ?_⟩, hb⟩
        exact mem_joinChildren.mpr ⟨hr, hparentId⟩

theorem owned_of_mem_anchor {id : ℕ} {r : Folder} (h : r ∈ anchor folders userId id) :
  ownedBy folders userId r.id = some r
  := by
  rw [anchor_eq, Option.mem_toList] at h
  rw [id_of_ownedBy h]
  apply h

/-- Below a folder there is no level at the bound of the forest. -/
theorem Hierarchy.level_eq_nil (h : Hierarchy (ownedBy folders userId)) (id : ℕ) :
  level (joinChildren folders userId) MAX_FOLDER_DEPTH (anchor folders userId id) = []
  := by
  apply List.eq_nil_iff_forall_not_mem.mpr
  intro f hf
  obtain ⟨-, r, -, hup⟩ := (mem_level fun r hr => owned_of_mem_anchor hr).mp hf
  rw [h.bounded] at hup
  cases hup

/-- Nothing lies below a folder by as many levels as its height. -/
theorem Hierarchy.subtreeHeight (h : Hierarchy (ownedBy folders userId)) {id : ℕ}
    {folder : Folder} (howned : ownedBy folders userId id = some folder) (a : ℕ) :
  up (parentOf (ownedBy folders userId)) (subtreeHeight folders userId RECURSION_LIMIT id) a
    ≠ some id
  := by
  obtain rfl := id_of_ownedBy howned
  have hlevel : level (joinChildren folders userId)
      (FoldersService.subtreeHeight folders userId RECURSION_LIMIT folder.id)
      (anchor folders userId folder.id) = [] := by
    apply level_height
    apply Nat.lt_of_le_of_lt (height_le_of_level (h.level_eq_nil folder.id))
    decide
  intro hup
  have hanchor : folder ∈ anchor folders userId folder.id := by
    rw [anchor_eq, howned]
    simp
  have ha : ∃ f, ownedBy folders userId a = some f := by
    generalize FoldersService.subtreeHeight folders userId RECURSION_LIMIT folder.id = n at hup
    cases n with
    | zero =>
        obtain rfl := Option.some.inj hup
        exact ⟨folder, howned⟩
    | succ n => apply exists_owned_of_up hup
  obtain ⟨f, hf⟩ := ha
  obtain rfl := id_of_ownedBy hf
  have hmem := (mem_level fun r hr => owned_of_mem_anchor hr).mpr
    ⟨hf, folder, hanchor, hup⟩
  rw [hlevel] at hmem
  cases hmem

end

/-! ### Changes of the hierarchy -/

/-- A place for a folder: the root, or a parent of the user with room for `height` levels below it
that does not lie below the folder. -/
structure Admits (owned : ℕ → Option Folder) (id : ℕ) (parentId : Option ℕ) (depth : ℕ) : Prop where
  exists_owned : ∀ {p}, parentId = some p → ∃ parent, owned p = some parent
  depth : ∀ p, parentId = some p → up (parentOf owned) depth p = none
  cycle : ∀ p, parentId = some p → ∀ k, up (parentOf owned) k p ≠ some id

section

variable {owned : ℕ → Option Folder} {id : ℕ}

theorem parentOf_update (folder : Folder) :
  parentOf (Function.update owned id (some folder))
    = Function.update (parentOf owned) id folder.parentId
  := by
  ext a : 1
  by_cases ha : a = id
  · subst ha
    simp [parentOf]
  · simp [parentOf, ha]

/-- A folder is put in the place of one with its id, or added. -/
theorem Hierarchy.update (h : Hierarchy owned) {folder : Folder}
    (howned : ∀ {p}, folder.parentId = some p → ∃ parent, owned p = some parent)
    (hbounded : Bounded (Function.update (parentOf owned) id folder.parentId) MAX_FOLDER_DEPTH) :
  Hierarchy (Function.update owned id (some folder))
  := by
  have hstill : ∀ {p}, (∃ parent, owned p = some parent) →
      ∃ parent, Function.update owned id (some folder) p = some parent := by
    rintro p ⟨parent, hparent⟩
    by_cases hp : p = id
    · subst hp
      exact ⟨folder, Function.update_self ..⟩
    · use parent
      rw [Function.update_of_ne hp, hparent]
  constructor
  · intro a f p hf hp
    apply hstill
    by_cases ha : a = id
    · subst ha
      rw [Function.update_self] at hf
      obtain rfl := Option.some.inj hf
      apply howned hp
    · rw [Function.update_of_ne ha] at hf
      apply h.closed hf hp
  · rw [parentOf_update]
    apply hbounded

/-- A new folder is added where there is room for one more level. -/
theorem Hierarchy.insert (h : Hierarchy owned) {folder : Folder} (hfresh : owned id = none)
    (howned : ∀ {p}, folder.parentId = some p → ∃ parent, owned p = some parent)
    (hdepth : ∀ p, folder.parentId = some p →
      up (parentOf owned) (MAX_FOLDER_DEPTH - 1) p = none) :
  Hierarchy (Function.update owned id (some folder))
  := by
  have hleaf : ∀ n a, up (parentOf owned) (n + 1) a ≠ some id := by
    intro n a hup
    obtain ⟨f, hf⟩ := h.exists_owned hup
    rw [hfresh] at hf
    cases hf
  apply h.update howned
  apply h.bounded.move hdepth _ (hleaf 0) (Nat.le_refl MAX_FOLDER_DEPTH)
  intro p hp k hup
  cases k with
  | zero =>
      obtain rfl := Option.some.inj hup
      obtain ⟨parent, hparent⟩ := howned hp
      rw [hfresh] at hparent
      cases hparent
  | succ k => apply hleaf k p hup

/-- A folder moves to a place where there is room for its subtree. -/
theorem Hierarchy.move (h : Hierarchy owned) {folder : Folder} {depth height : ℕ}
    (hadmits : Admits owned id folder.parentId depth)
    (hheight : ∀ a, up (parentOf owned) height a ≠ some id)
    (hle : depth + height ≤ MAX_FOLDER_DEPTH) :
  Hierarchy (Function.update owned id (some folder))
  := by
  apply h.update hadmits.exists_owned
  apply h.bounded.move hadmits.depth hadmits.cycle hheight hle

/-- A folder stays in its place. -/
theorem Hierarchy.rename (h : Hierarchy owned) {current folder : Folder}
    (howned : owned id = some current) (hparent : folder.parentId = current.parentId) :
  Hierarchy (Function.update owned id (some folder))
  := by
  have hsame : folder.parentId = parentOf owned id := by
    rw [hparent, parentOf, howned, Option.bind_some]
  apply h.update
  · intro p hp
    rw [hparent] at hp
    apply h.closed howned hp
  · rw [hsame, Function.update_eq_self]
    apply h.bounded

/-- A folder is removed, and its children move up to its parent. -/
theorem Hierarchy.remove (h : Hierarchy owned) {folder : Folder} {now userId : ℕ}
    (howned : owned folder.id = some folder)
    (huser : ∀ {a f}, owned a = some f → f.userId = userId) :
  Hierarchy fun a =>
    if a = folder.id then none else (owned a).map (FoldersService.promote now folder userId).apply
  := by
  have hparent : parentOf owned folder.id = folder.parentId := by
    rw [parentOf, howned, Option.bind_some]
  have hself : folder.parentId ≠ some folder.id := by
    intro hself
    apply h.bounded.not_transGen folder.id
    apply TransGen.single
    rw [hparent, hself]
  have hchild : ∀ {a f}, owned a = some f → ((FoldersService.promote now folder userId).apply f).parentId
      = if f.parentId = some folder.id then folder.parentId else f.parentId := by
    intro a f hf
    simp only [Update.apply, FoldersService.promote, huser hf, decide_true, Bool.and_true, decide_eq_true_eq]
    split <;> rfl
  constructor
  · intro a f p hf hp
    split at hf
    · cases hf
    obtain ⟨r, hr, rfl⟩ := Option.map_eq_some_iff.mp hf
    rw [hchild hr] at hp
    have hne : p ≠ folder.id := by
      rintro rfl
      split at hp
      · apply hself hp
      · rename_i hnot
        apply hnot hp
    have hexists : ∃ parent, owned p = some parent := by
      split at hp
      · apply h.closed howned hp
      · apply h.closed hr hp
    obtain ⟨parent, hparent⟩ := hexists
    use (FoldersService.promote now folder userId).apply parent
    rw [if_neg hne, hparent, Option.map_some]
  · have hpromote : (parentOf fun a =>
        if a = folder.id then none else (owned a).map (FoldersService.promote now folder userId).apply)
          = Forest.promote (parentOf owned) folder.id := by
      ext a : 1
      rw [parentOf]
      by_cases ha : a = folder.id
      · rw [if_pos ha, ha, promote_self]
        rfl
      · rw [if_neg ha, Forest.promote, if_neg ha, hparent, parentOf]
        cases hf : owned a with
        | none => simp
        | some f => apply hchild hf
    rw [hpromote]
    apply h.bounded.promote

end

/-! ### What the statements of a call do -/

section

variable {folders folders' : Table Folder.id} {userId : ℕ}

theorem ownedBy_create {folder : Folder} (h : folders.create folder = some folders')
    (userId : ℕ) :
  ownedBy folders' userId
    = if folder.userId = userId
      then Function.update (ownedBy folders userId) folder.id (some folder)
      else ownedBy folders userId
  := by
  ext id : 1
  rw [ownedBy, Table.find_create h]
  by_cases hid : id = folder.id
  · subst hid
    have hnone : ownedBy folders userId folder.id = none := by
      rw [ownedBy, Table.find_of_create h]
      rfl
    by_cases huser : folder.userId = userId
    · simp [huser, Option.filter]
    · simp [huser, Option.filter, hnone]
  · rw [if_neg hid]
    split
    · rw [Function.update_of_ne hid]
      rfl
    · rfl

theorem ownedBy_updateMany {u : Update Folder.id} (hu : ∀ f, (u.apply f).userId = f.userId)
    (userId id : ℕ) :
  ownedBy (folders.updateMany u).1 userId id = (ownedBy folders userId id).map u.apply
  := by
  rw [ownedBy, Table.find_updateMany, ownedBy]
  cases folders.find id with
  | none => rfl
  | some f =>
      by_cases hf : f.userId = userId
      · simp [Option.filter, hu, hf]
      · simp [Option.filter, hu, hf]

theorem ownedBy_erase (x userId id : ℕ) :
  ownedBy (folders.erase x) userId id = if id = x then none else ownedBy folders userId id
  := by
  rw [ownedBy, Table.find_erase]
  split <;> rfl

theorem userId_save_apply (now id : ℕ) (data : FolderData) (f : Folder) :
  ((save now id data).apply f).userId = f.userId
  := by
  unfold Update.apply
  split <;> rfl

theorem userId_promote_apply (now : ℕ) (folder : Folder) (userId : ℕ) (f : Folder) :
  ((FoldersService.promote now folder userId).apply f).userId = f.userId
  := by
  unfold Update.apply
  split <;> rfl

theorem ownedBy_save {now : ℕ} {data : FolderData} {current : Folder}
    (howned : ownedBy folders userId current.id = some current) (userId' : ℕ) :
  ownedBy (folders.updateMany (save now current.id data)).1 userId'
    = if userId = userId'
      then Function.update (ownedBy folders userId') current.id
        (some ((save now current.id data).data current))
      else ownedBy folders userId'
  := by
  obtain ⟨hfind, huser⟩ := ownedBy_eq_some_iff.mp howned
  ext id : 1
  rw [ownedBy_updateMany (userId_save_apply now current.id data)]
  by_cases hid : id = current.id
  · subst hid
    by_cases hsame : userId = userId'
    · subst hsame
      rw [if_pos rfl, Function.update_self, howned, Option.map_some,
        Update.apply_of_guard _ (by simp [save])]
    · have hnone : ownedBy folders userId' current.id = none := by
        simp [ownedBy, hfind, Option.filter, huser, hsame]
      rw [if_neg hsame, hnone]
      rfl
  · have hmap : (ownedBy folders userId' id).map (save now current.id data).apply
        = ownedBy folders userId' id := by
      cases hf : ownedBy folders userId' id with
      | none => rfl
      | some f =>
          obtain rfl := id_of_ownedBy hf
          rw [Option.map_some, Update.apply_of_not_guard _ (by simpa [save] using hid)]
    rw [hmap]
    split
    · rw [Function.update_of_ne hid]
    · rfl

theorem ownedBy_delete {now : ℕ} {folder : Folder}
    (howned : ownedBy folders userId folder.id = some folder) (userId' : ℕ) :
  ownedBy ((folders.updateMany (FoldersService.promote now folder userId)).1.erase folder.id) userId'
    = if userId = userId'
      then fun id => if id = folder.id then none
        else (ownedBy folders userId' id).map (FoldersService.promote now folder userId).apply
      else ownedBy folders userId'
  := by
  obtain ⟨hfind, huser⟩ := ownedBy_eq_some_iff.mp howned
  ext id : 1
  rw [ownedBy_erase, ownedBy_updateMany (userId_promote_apply now folder userId)]
  by_cases hsame : userId = userId'
  · rw [if_pos hsame]
  · rw [if_neg hsame]
    split
    · rename_i hid
      simp [hid, ownedBy, hfind, Option.filter, huser, hsame]
    · cases hf : ownedBy folders userId' id with
      | none => rfl
      | some f =>
          have hf' := (ownedBy_eq_some_iff.mp hf).2
          rw [Option.map_some, Update.apply_of_not_guard]
          simp [FoldersService.promote, hf', Ne.symm hsame]

end

end Folders

end DocuAI

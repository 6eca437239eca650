import DocuAI.Folders.Calls
import DocuAI.Folders.Owned

/-!
# The folder hierarchy

The folders of each user form a forest, of depth `MAX_FOLDER_DEPTH` at most, in every run
(`hierarchy_bounded`).

All that a call reads of the folders, and all that it changes, are the folders of its user, and the
lock of the user keeps other calls away from them.  So what the queries of a call have established
of a new parent (`Phase.Knows`) still holds when the statement that relies on it is executed.
-/

namespace DocuAI

namespace Folders

open FoldersService Forest Relation

/-! ### What a call knows -/

/-- What the queries of a call have established of the folders of its user. -/
def Phase.Knows (owned : ℕ → Option Folder) : Phase → Prop
  | .creating _ parentId =>
      ∀ p, parentId = some p → (∃ parent, owned p = some parent)
        ∧ up (parentOf owned) (MAX_FOLDER_DEPTH - 1) p = none
  | .moving current _ _ => owned current.id = some current
  | .measuring current _ newParentId parentDepth =>
      owned current.id = some current ∧ Admits owned current.id newParentId parentDepth
  | .saving current data =>
      owned current.id = some current
        ∧ ∀ newParentId, data.parentId = some newParentId →
          ∃ depth height, Admits owned current.id newParentId depth
            ∧ (∀ a, up (parentOf owned) height a ≠ some current.id)
            ∧ depth + height ≤ MAX_FOLDER_DEPTH
  | .unfiling folder | .deleting folder _ => owned folder.id = some folder
  | _ => True

section

variable {config : DocumentsConfig} {s s' : Store} {c : Call} {phase : Phase}

theorem Operation.knows_start (owned : ℕ → Option Folder) (operation : Operation) :
  operation.start.Knows owned
  := by
  cases operation with
  | create dto =>
      simp only [Operation.start]
      split
      · intro p hp
        cases hp
      · trivial
  | update | remove => trivial

theorem knows_change {owned : ℕ → Option Folder} {current : Folder}
    (howned : owned current.id = some current) (dto : UpdateFolderDto) :
  (change current dto).Knows owned
  := by
  unfold change
  split
  · split
    · trivial
    · split
      · apply howned
      · refine ⟨howned, ?_, ?_, ?_⟩ <;> rintro p ⟨⟩
  · simp only
    split
    · trivial
    · refine ⟨howned, ?_⟩
      rintro newParentId ⟨⟩

theorem Call.knows_withOwned {next : Folder → Phase} (folderId : ℕ)
    (hnext : ∀ folder, ownedBy s.folders c.userId folder.id = some folder →
      (next folder).Knows (ownedBy s.folders c.userId)) :
  (c.withOwned s folderId next).Knows (ownedBy s.folders c.userId)
  := by
  unfold withOwned getOwned
  cases hfind : ownedBy s.folders c.userId folderId with
  | none =>
      rw [ownedBy] at hfind
      simp only [hfind]
      trivial
  | some folder =>
      have hid := id_of_ownedBy hfind
      have hknows := hnext folder (hid.symm ▸ hfind)
      rw [ownedBy] at hfind
      simp only [hfind]
      apply hknows

theorem Call.knows_place (h : Hierarchy (ownedBy s.folders c.userId)) (name : JsString)
    (parentId : ℕ) :
  (c.place s name parentId).Knows (ownedBy s.folders c.userId)
  := by
  unfold place
  simp only
  split
  · trivial
  · rename_i hlength
    split
    · trivial
    · rename_i hdepth
      rintro p ⟨⟩
      cases howned : ownedBy s.folders c.userId parentId with
      | none =>
          rw [ancestorChain_eq_nil howned] at hlength
          exact absurd rfl hlength
      | some parent =>
          refine ⟨⟨parent, rfl⟩, ?_⟩
          have hchain := h.ancestorChain howned (h.bounded parentId)
            (by decide : MAX_FOLDER_DEPTH ≤ RECURSION_LIMIT)
          apply up_eq_none_of_le hchain.1 (by omega)

theorem Call.knows_move (h : Hierarchy (ownedBy s.folders c.userId)) {current : Folder}
    (howned : ownedBy s.folders c.userId current.id = some current)
    (name : Option (Option JsString)) (newParentId : ℕ) :
  (c.move s current name newParentId).Knows (ownedBy s.folders c.userId)
  := by
  unfold move
  simp only
  split
  · trivial
  · rename_i hlength
    split
    · trivial
    · rename_i hcycle
      cases hparent : ownedBy s.folders c.userId newParentId with
      | none =>
          rw [ancestorChain_eq_nil hparent] at hlength
          exact absurd rfl hlength
      | some parent =>
          obtain ⟨hdepth, hmem⟩ := h.ancestorChain hparent (h.bounded newParentId)
            (by decide : MAX_FOLDER_DEPTH ≤ RECURSION_LIMIT)
          refine ⟨howned, ?_, ?_, ?_⟩
          · rintro p ⟨⟩
            exact ⟨parent, hparent⟩
          · rintro p ⟨⟩
            apply hdepth
          · rintro p ⟨⟩ k hup
            apply hcycle (hmem k current.id hup)

theorem Call.knows_measure (h : Hierarchy (ownedBy s.folders c.userId)) {current : Folder}
    {newParentId : Option ℕ} {parentDepth : ℕ}
    (howned : ownedBy s.folders c.userId current.id = some current)
    (hadmits : Admits (ownedBy s.folders c.userId) current.id newParentId parentDepth)
    (name : Option (Option JsString)) :
  (c.measure s current name newParentId parentDepth).Knows (ownedBy s.folders c.userId)
  := by
  unfold measure
  simp only
  split
  · trivial
  · rename_i hle
    refine ⟨howned, ?_⟩
    rintro _ ⟨⟩
    exact ⟨parentDepth, _, hadmits, h.subtreeHeight howned, Nat.not_lt.mp hle⟩

/-- A call changes the folders of its user only, keeps their hierarchy, and knows what its phase
says. -/
structure Call.Keeps (c : Call) (s s' : Store) (phase : Phase) : Prop where
  others : ∀ userId ≠ c.userId, ownedBy s'.folders userId = ownedBy s.folders userId
  hierarchy : Hierarchy (ownedBy s'.folders c.userId)
  knows : phase.Knows (ownedBy s'.folders c.userId)

theorem Call.keeps_create (h : Hierarchy (ownedBy s.folders c.userId)) {name : JsString}
    {parentId : Option ℕ} {id : ℕ}
    (hknows : (Phase.creating name parentId).Knows (ownedBy s.folders c.userId))
    (hcreate : c.create s name parentId id = some (s', phase)) :
  c.Keeps s s' phase
  := by
  obtain ⟨-, rfl, rfl⟩ | ⟨folders, -, hfolders, rfl, rfl⟩ := create_cases hcreate
  · exact ⟨fun _ _ => rfl, h, trivial⟩
  · refine ⟨?_, ?_, trivial⟩
    · intro userId hne
      rw [ownedBy_create hfolders, if_neg]
      apply Ne.symm hne
    · rw [ownedBy_create hfolders, if_pos (by rfl)]
      apply h.insert
      · rw [ownedBy, Table.find_of_create hfolders]
        rfl
      · intro p hp
        apply (hknows p hp).1
      · intro p hp
        apply (hknows p hp).2

theorem Call.keeps_save (h : Hierarchy (ownedBy s.folders c.userId)) {current : Folder}
    {data : FolderData} (hknows : (Phase.saving current data).Knows (ownedBy s.folders c.userId))
    (hsave : save s current data = (s', phase)) :
  c.Keeps s s' phase
  := by
  obtain ⟨howned, hplace⟩ := hknows
  unfold save at hsave
  simp only at hsave
  split at hsave
  · obtain ⟨rfl, rfl⟩ := Prod.mk.inj hsave
    exact ⟨fun _ _ => rfl, h, trivial⟩
  · split at hsave
    · obtain ⟨rfl, rfl⟩ := Prod.mk.inj hsave
      exact ⟨fun _ _ => rfl, h, trivial⟩
    · obtain ⟨rfl, rfl⟩ := Prod.mk.inj hsave
      refine ⟨?_, ?_, trivial⟩
      · intro userId hne
        rw [ownedBy_save howned, if_neg (Ne.symm hne)]
      · rw [ownedBy_save howned, if_pos rfl]
        cases hdata : data.parentId with
        | none =>
            apply h.rename howned
            simp [FoldersService.save, hdata]
        | some newParentId =>
            obtain ⟨depth, height, hadmits, hheight, hle⟩ := hplace newParentId hdata
            apply h.move _ hheight hle
            simpa [FoldersService.save, hdata] using hadmits

theorem Call.keeps_delete (h : Hierarchy (ownedBy s.folders c.userId)) {folder : Folder}
    {unfiled : List ℕ} (howned : ownedBy s.folders c.userId folder.id = some folder)
    (hdelete : c.delete config s folder unfiled = (s', phase)) :
  c.Keeps s s' phase
  := by
  unfold delete at hdelete
  simp only at hdelete
  split at hdelete
  · obtain ⟨rfl, rfl⟩ := Prod.mk.inj hdelete
    exact ⟨fun _ _ => rfl, h, trivial⟩
  · split at hdelete
    · obtain ⟨rfl, rfl⟩ := Prod.mk.inj hdelete
      exact ⟨fun _ _ => rfl, h, trivial⟩
    · obtain ⟨rfl, rfl⟩ := Prod.mk.inj hdelete
      refine ⟨?_, ?_, trivial⟩
      · intro userId hne
        rw [ownedBy_delete howned, if_neg (Ne.symm hne)]
      · rw [ownedBy_delete howned, if_pos rfl]
        apply h.remove howned
        intro a f hf
        apply (ownedBy_eq_some_iff.mp hf).2

theorem Call.keeps_act {action : Action} (h : Hierarchy (ownedBy s.folders c.userId))
    (hknows : c.phase.Knows (ownedBy s.folders c.userId))
    (hact : c.act config s action = some (s', phase)) :
  c.Keeps s s' phase
  := by
  have hreads : ∀ next : Phase, next.Knows (ownedBy s.folders c.userId) →
      some (s, next) = some (s', phase) → c.Keeps s s' phase := by
    intro next hnext heq
    obtain ⟨rfl, rfl⟩ := Prod.mk.inj (Option.some.inj heq)
    exact ⟨fun _ _ => rfl, h, hnext⟩
  cases action with
  | lock =>
      simp only [act] at hact
      split at hact
      · rename_i operation hphase
        apply hreads _ (operation.knows_start _) hact
      · cases hact
  | insert id =>
      simp only [act] at hact
      split at hact
      · rename_i name parentId hphase
        rw [hphase] at hknows
        apply keeps_create h hknows hact
      · cases hact
  | throw =>
      obtain ⟨rfl, rfl⟩ := throw_cases hact
      exact ⟨fun _ _ => rfl, h, trivial⟩
  | advance =>
      simp only [act, advance] at hact
      split at hact
      · apply hreads _ (knows_place h _ _) hact
      · apply hreads _ _ hact
        apply knows_withOwned
        intro current howned
        apply knows_change howned
      · rename_i current name newParentId hphase
        rw [hphase] at hknows
        apply hreads _ (knows_move h hknows name newParentId) hact
      · rename_i current name newParentId parentDepth hphase
        rw [hphase] at hknows
        apply hreads _ (knows_measure h hknows.1 hknows.2 name) hact
      · rename_i current data hphase
        rw [hphase] at hknows
        apply keeps_save h hknows (Option.some.inj hact)
      · apply hreads _ _ hact
        apply knows_withOwned
        intro folder howned
        apply howned
      · rename_i folder hphase
        rw [hphase] at hknows
        apply hreads (c.unfile config s folder) hknows hact
      · rename_i folder unfiled hphase
        rw [hphase] at hknows
        apply keeps_delete h hknows (Option.some.inj hact)
      · cases hact

end

/-! ### Runs -/

structure Invariant (hashtext : ℕ → ℕ) (s : State) : Prop where
  hierarchy : ∀ userId, Hierarchy (ownedBy s.folders userId)
  knows : ∀ c ∈ s.calls.rows, c.phase.Knows (ownedBy s.folders c.userId)
  locking : ∀ c ∈ s.calls.rows, ∀ c' ∈ s.calls.rows, c.phase.locks = true →
    c'.phase.locks = true → hashtext c.userId = hashtext c'.userId → c.id = c'.id

theorem Phase.knows_of_not_locks {phase : Phase} (h : phase.locks = false)
    (owned : ℕ → Option Folder) :
  phase.Knows owned
  := by
  cases phase with
  | waiting | returned | rejected => trivial
  | _ => cases h

section

variable {config : DocumentsConfig} {hashtext : ℕ → ℕ} {s s' : State}

theorem invariant_init (h : (system config hashtext).init s) :
  Invariant hashtext s
  := by
  have hnone : ∀ userId id, ownedBy s.folders userId id = none := by
    intro userId id
    rw [ownedBy, Table.find_of_rows_eq_nil h.1]
    rfl
  constructor
  · intro userId
    constructor
    · intro id folder parentId hfolder
      rw [hnone] at hfolder
      cases hfolder
    · intro id
      rw [MAX_FOLDER_DEPTH, up, parentOf, hnone]
      rfl
  · rw [h.2]
    simp
  · rw [h.2]
    simp

/-- A lock is only held where it was held before, or where it was free. -/
theorem Call.locks_act {s s' : Store} {c : Call} {action : Action} {phase : Phase}
    {calls : Table Call.id} (hgranted : granted hashtext calls c.userId action = true)
    (h : c.act config s action = some (s', phase)) (hlocks : phase.locks = true) :
  c.phase.locks = true ∨ lockFree hashtext calls c.userId
  := by
  cases action with
  | lock => exact .inr (of_decide_eq_true hgranted)
  | advance =>
      cases hphase : c.phase with
      | waiting | returned | rejected => simp [act, advance, hphase] at h
      | _ => exact .inl rfl
  | insert =>
      cases hphase : c.phase with
      | creating => exact .inl rfl
      | _ => simp [act, hphase] at h
  | throw =>
      obtain ⟨-, rfl⟩ := throw_cases h
      cases hlocks

/-- A call without the lock changes nothing. -/
theorem Call.eq_of_not_locks {s s' : Store} {c : Call} {action : Action} {phase : Phase}
    (h : c.act config s action = some (s', phase)) (hlocks : c.phase.locks = false) :
  s' = s
  := by
  cases hphase : c.phase with
  | waiting operation =>
      cases action with
      | lock | throw =>
          simp only [act, hphase] at h
          obtain ⟨rfl, -⟩ := Prod.mk.inj (Option.some.inj h)
          rfl
      | advance | insert => simp [act, advance, hphase] at h
  | returned | rejected => cases action <;> simp [act, advance, hphase] at h
  | _ =>
      rw [hphase] at hlocks
      cases hlocks

theorem Invariant.step {label : Label} (h : Invariant hashtext s)
    (hstep : (system config hashtext).step s label = some s') :
  Invariant hashtext s'
  := by
  cases label with
  | tick | writeDocuments =>
      obtain rfl := Option.some.inj hstep
      exact ⟨h.hierarchy, h.knows, h.locking⟩
  | call id userId operation =>
      obtain ⟨calls, hcreate, hstep⟩ := Option.bind_eq_some_iff.mp hstep
      obtain rfl := Option.some.inj hstep
      have hmem : ∀ c ∈ calls.rows, c.phase.locks = true → c ∈ s.calls.rows := by
        intro c hc hlocks
        rw [Table.rows_of_create hcreate, List.mem_append, List.mem_singleton] at hc
        rcases hc with hc | rfl
        · apply hc
        · cases hlocks
      refine ⟨h.hierarchy, ?_, ?_⟩
      · intro c hc
        by_cases hlocks : c.phase.locks = true
        · apply h.knows c (hmem c hc hlocks)
        · apply Phase.knows_of_not_locks (Bool.not_eq_true _ ▸ hlocks)
      · intro c hc c' hc' hlocks hlocks'
        exact h.locking c (hmem c hc hlocks) c' (hmem c' hc' hlocks') hlocks hlocks'
  | step callId action =>
      obtain ⟨c, hfind, hstep⟩ := Option.bind_eq_some_iff.mp hstep
      split at hstep
      swap
      · cases hstep
      rename_i hgranted
      obtain ⟨⟨t, phase⟩, hact, hstep⟩ := Option.bind_eq_some_iff.mp hstep
      obtain rfl := Option.some.inj hstep
      have hc := Table.mem_of_find hfind
      have hkeeps := Call.keeps_act (h.hierarchy c.userId) (h.knows c hc) hact
      -- No other call holds the lock of the user while this one does, before or after the step.
      have hother : ∀ c' ∈ s.calls.rows, c'.id ≠ c.id → c'.phase.locks = true →
          phase.locks = true ∨ c.phase.locks = true → hashtext c'.userId ≠ hashtext c.userId := by
        intro c' hc' hne hlocks' hlocks huser
        have hheld : c.phase.locks = true ∨ lockFree hashtext s.calls c.userId := by
          rcases hlocks with hlocks | hlocks
          · apply Call.locks_act hgranted hact hlocks
          · exact .inl hlocks
        rcases hheld with hheld | hfree
        · apply hne (h.locking c' hc' c hc hlocks' hheld huser)
        · apply hfree c' hc' hlocks' huser
      constructor
      · intro userId
        by_cases huser : userId = c.userId
        · subst huser
          apply hkeeps.hierarchy
        · change Hierarchy (ownedBy t.folders userId)
          rw [hkeeps.others userId huser]
          apply h.hierarchy
      · intro c' hc'
        rcases Table.mem_rows_put_iff.mp hc' with rfl | ⟨hc', hne⟩
        · apply hkeeps.knows
        · change c'.phase.Knows (ownedBy t.folders c'.userId)
          have hsame : c'.phase.locks = true →
              ownedBy t.folders c'.userId = ownedBy s.folders c'.userId := by
            intro hlocks'
            by_cases huser : c'.userId = c.userId
            · have hlocks : c.phase.locks = false := by
                by_contra hlocks
                apply hother c' hc' hne hlocks' (.inr (Bool.not_eq_false _ ▸ hlocks))
                rw [huser]
              rw [Call.eq_of_not_locks hact hlocks]
            · apply hkeeps.others _ huser
          by_cases hlocks' : c'.phase.locks = true
          · rw [hsame hlocks']
            apply h.knows c' hc'
          · apply Phase.knows_of_not_locks (Bool.not_eq_true _ ▸ hlocks')
      · intro c₁ hc₁ c₂ hc₂ hlocks₁ hlocks₂ huser
        rcases Table.mem_rows_put_iff.mp hc₁ with rfl | ⟨hc₁, hne₁⟩ <;>
          rcases Table.mem_rows_put_iff.mp hc₂ with rfl | ⟨hc₂, hne₂⟩
        · rfl
        · exact absurd huser.symm (hother c₂ hc₂ hne₂ hlocks₂ (.inl hlocks₁))
        · exact absurd huser (hother c₁ hc₁ hne₁ hlocks₁ (.inl hlocks₂))
        · apply h.locking c₁ hc₁ c₂ hc₂ hlocks₁ hlocks₂ huser

end

/-! ### The hierarchy of all users -/

/-- The folder with the id `a` has the parent `b`. -/
def IsParent (folders : Table Folder.id) (a b : ℕ) : Prop :=
  ∃ folder, folders.find a = some folder ∧ folder.parentId = some b

/-- The depth of a folder.  Folders without a parent have depth 1. -/
inductive HasDepth (folders : Table Folder.id) : ℕ → ℕ → Prop where
  | root {id : ℕ} {folder : Folder} (hfind : folders.find id = some folder)
      (hroot : folder.parentId = none) : HasDepth folders id 1
  | child {id parentId depth : ℕ} (hparent : IsParent folders id parentId)
      (hdepth : HasDepth folders parentId depth) : HasDepth folders id (depth + 1)

/-- The folders form a forest of bounded depth in which parents have the same owner, and which the
recursive queries see as a whole. -/
structure BoundedForest (folders : Table Folder.id) : Prop where
  parent : ∀ folder ∈ folders.rows, ∀ parentId, folder.parentId = some parentId →
    ∃ parent ∈ folders.rows, parent.id = parentId ∧ parent.userId = folder.userId
  acyclic : ∀ id, ¬TransGen (IsParent folders) id id
  depth : ∀ folder ∈ folders.rows, ∃ depth ≤ MAX_FOLDER_DEPTH, HasDepth folders folder.id depth
  untruncated : ∀ userId folderId limit, RECURSION_LIMIT ≤ limit →
    ancestorChain folders userId limit folderId
        = ancestorChain folders userId RECURSION_LIMIT folderId
      ∧ subtreeHeight folders userId limit folderId
        = subtreeHeight folders userId RECURSION_LIMIT folderId

section

variable {folders : Table Folder.id}

/-- A path of parents stays with the folders of one user. -/
theorem exists_user_of_transGen (h : ∀ userId, Hierarchy (ownedBy folders userId)) {a b : ℕ}
    (hpath : TransGen (IsParent folders) a b) :
  ∃ userId, TransGen (fun x y => parentOf (ownedBy folders userId) x = some y) a b
    ∧ ∃ folder, ownedBy folders userId b = some folder
  := by
  induction hpath with
  | single hstep =>
      obtain ⟨folder, hfind, hparent⟩ := hstep
      have howned := ownedBy_eq_some_iff.mpr ⟨hfind, rfl⟩
      refine ⟨folder.userId, .single ?_, (h folder.userId).closed howned hparent⟩
      rw [parentOf, howned, Option.bind_some, hparent]
  | tail _ hstep ih =>
      obtain ⟨userId, hpath, folder, howned⟩ := ih
      obtain ⟨folder', hfind, hparent⟩ := hstep
      obtain rfl : folder = folder' := by
        rw [(ownedBy_eq_some_iff.mp howned).1] at hfind
        exact Option.some.inj hfind
      refine ⟨userId, hpath.tail ?_, (h userId).closed howned hparent⟩
      rw [parentOf, howned, Option.bind_some, hparent]

/-- The depth among the folders of a user is the depth. -/
theorem hasDepth_of_depth {userId id depth : ℕ} {folder : Folder}
    (h : Hierarchy (ownedBy folders userId))
    (hdepth : Depth (parentOf (ownedBy folders userId)) id depth)
    (howned : ownedBy folders userId id = some folder) :
  HasDepth folders id depth
  := by
  induction hdepth generalizing folder with
  | root hroot =>
      rw [parentOf, howned, Option.bind_some] at hroot
      exact .root (ownedBy_eq_some_iff.mp howned).1 hroot
  | child hparent _ ih =>
      rw [parentOf, howned, Option.bind_some] at hparent
      obtain ⟨parent, hparentOwned⟩ := h.closed howned hparent
      exact .child ⟨folder, (ownedBy_eq_some_iff.mp howned).1, hparent⟩ (ih hparentOwned)

theorem boundedForest_of_hierarchy (h : ∀ userId, Hierarchy (ownedBy folders userId)) :
  BoundedForest folders
  := by
  have howned : ∀ folder ∈ folders.rows,
      ownedBy folders folder.userId folder.id = some folder := by
    intro folder hfolder
    exact ownedBy_eq_some_iff.mpr ⟨Table.mem_rows_iff.mp hfolder, rfl⟩
  constructor
  · intro folder hfolder parentId hparent
    obtain ⟨parent, hparentOwned⟩ := (h folder.userId).closed (howned folder hfolder) hparent
    obtain ⟨hfind, huser⟩ := ownedBy_eq_some_iff.mp hparentOwned
    exact ⟨parent, Table.mem_of_find hfind, Table.key_of_find hfind, huser⟩
  · intro id hcycle
    obtain ⟨userId, hpath, -⟩ := exists_user_of_transGen h hcycle
    apply (h userId).bounded.not_transGen id hpath
  · intro folder hfolder
    obtain ⟨depth, hle, hdepth⟩ := exists_depth ((h folder.userId).bounded folder.id)
    exact ⟨depth, hle, hasDepth_of_depth (h folder.userId) hdepth (howned folder hfolder)⟩
  · intro userId folderId limit hlimit
    have hbounded := (h userId).bounded folderId
    have hlevel := (h userId).level_eq_nil folderId
    have hbound : MAX_FOLDER_DEPTH ≤ RECURSION_LIMIT := by decide
    have hle := Nat.le_trans hbound hlimit
    constructor
    · rw [ancestorChain_of_up hbounded hle, ancestorChain_of_up hbounded hbound]
    · apply Eq.trans (height_of_level hlevel hle)
      rw [subtreeHeight, height_of_level hlevel hbound]

end

/-! ### The hierarchy is bounded -/

/-- In every run of calls by any users, from no folders, the folders form a bounded forest. -/
theorem hierarchy_bounded {config : DocumentsConfig} {hashtext : ℕ → ℕ} {s s' : State}
    {ts : List (Transition State Label)} (hrun : (system config hashtext).Run s ts s')
    (hinit : (system config hashtext).init s) :
  BoundedForest s'.folders
  := by
  have hinvariant : Invariant hashtext s' := by
    apply hrun.invariant (invariant_init hinit)
    intro t _ hstep h
    apply h.step hstep
  apply boundedForest_of_hierarchy hinvariant.hierarchy

/-! A run of two users.  One nests a folder, moves the outer one below the inner one, which is
refused, and removes the outer one; calls of the other user interleave. -/

def sampleConfig : DocumentsConfig where
  maxFileSizeBytes := 1000
  allowedMimeTypes := [js "application/pdf"]

def sampleState : State where
  now := 0
  folders := Table.empty
  documents := Table.empty
  calls := Table.empty

def nestAndRemove : List Label :=
  [.call 1 7 (.create ⟨js "Outer", none⟩), .step 1 .lock, .step 1 (.insert 1),
    .call 2 7 (.create ⟨js "Inner", some 1⟩), .call 3 8 (.create ⟨js "Other", none⟩),
    .step 2 .lock, .step 3 .lock, .step 2 .advance, .step 3 (.insert 3), .step 2 (.insert 2),
    .call 4 7 (.update 1 ⟨none, some (some 2)⟩), .call 5 8 (.update 2 ⟨some (some (js "Mine")), none⟩),
    .step 4 .lock, .step 4 .advance, .step 5 .lock, .step 5 .advance, .step 4 .advance,
    .call 6 7 (.remove 1), .tick 5, .step 6 .lock, .step 6 .advance, .step 6 .advance,
    .step 6 .advance]

theorem hierarchy_bounded_of_nestAndRemove :
  ∃ ts s, (system sampleConfig id).Run sampleState ts s
    ∧ s.calls.rows.map Call.phase
      = [.returned (.ok (.folder ⟨1, 7, js "Outer", none, 0, 0⟩)),
        .returned (.ok (.folder ⟨2, 7, js "Inner", some 1, 0, 0⟩)),
        .returned (.ok (.folder ⟨3, 8, js "Other", none, 0, 0⟩)),
        fail folderCycle, fail folderNotFound, .returned (.ok (.deletion 1 0 1))]
    ∧ s.folders.rows = [⟨3, 8, js "Other", none, 0, 0⟩, ⟨2, 7, js "Inner", none, 0, 5⟩]
    ∧ BoundedForest s.folders
  := by
  have hsome : ((system sampleConfig id).execute (fun _ => true) sampleState nestAndRemove).any
      (fun s => s.calls.rows.map Call.phase
          = [.returned (.ok (.folder ⟨1, 7, js "Outer", none, 0, 0⟩)),
            .returned (.ok (.folder ⟨2, 7, js "Inner", some 1, 0, 0⟩)),
            .returned (.ok (.folder ⟨3, 8, js "Other", none, 0, 0⟩)),
            fail folderCycle, fail folderNotFound, .returned (.ok (.deletion 1 0 1))]
        && s.folders.rows = [⟨3, 8, js "Other", none, 0, 0⟩, ⟨2, 7, js "Inner", none, 0, 5⟩])
      = true := by
    decide +kernel
  obtain ⟨s, hs, hend⟩ := (Option.any_eq_true _ _).mp hsome
  obtain ⟨ts, hrun, -⟩ := TransitionSystem.run_of_execute hs
  simp only [Bool.and_eq_true, decide_eq_true_eq] at hend
  exact ⟨ts, s, hrun, hend.1, hend.2, hierarchy_bounded hrun ⟨rfl, rfl⟩⟩

end Folders

end DocuAI

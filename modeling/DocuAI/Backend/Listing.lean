import Mathlib.Data.List.Infix
import DocuAI.Library.Sorted
import DocuAI.Backend.Queries

/-!
# Listing documents

Every page of a list is a query of its own, and the database may order its rows as it likes where
the query does not say how.  The id as the last column of the order leaves it no choice, so that the
pages of one list fit together.
-/

namespace DocuAI

/-! ### The order of a list -/

section

variable {texts : Texts}

/-- A lawful order of the texts makes every column lawful. -/
theorem transCmp_compare (htexts : Std.TransCmp texts.collate) (sort : DocumentSortField) :
  Std.TransCmp fun a b => sort.compare texts a b
  := by
  cases sort with
  | createdAt => exact inferInstanceAs (Std.TransCmp (compareOn Document.createdAt))
  | updatedAt => exact inferInstanceAs (Std.TransCmp (compareOn Document.updatedAt))
  | title => exact transCmp_column htexts Document.title
  | fileSize =>
      -- the sizes that are not known come last, and are not compared any further
      have hsizes : (fun a b => DocumentSortField.compare texts a b .fileSize)
          = compareLex (compareOn fun document : Document => document.fileSize.isNone)
            (compareOn fun document : Document => document.fileSize.getD 0) := by
        funext a b
        simp only [DocumentSortField.compare, compareLex, compareOn]
        cases a.fileSize with
        | none =>
            cases b.fileSize with
            | none => rfl
            | some n => rfl
        | some m =>
            cases b.fileSize with
            | none => rfl
            | some n => rfl
      rw [hsizes]
      infer_instance

theorem transCmp_apply {cmp : Document → Document → Ordering} (h : Std.TransCmp cmp)
    (order : SortOrder) :
  Std.TransCmp fun a b => order.apply (cmp a b)
  := by
  cases order with
  | asc => exact h
  | desc =>
      have hswap : (fun a b => SortOrder.desc.apply (cmp a b)) = fun a b => cmp b a := by
        funext a b
        exact h.eq_swap.symm
      rw [hswap]
      infer_instance

/-- The order a list asks for: the column, and the id where that leaves a choice. -/
def documentOrder (texts : Texts) (query : ListDocumentsQueryDto) (a b : Document) : Ordering :=
  (query.order.apply (query.sort.compare texts a b)).then (compare a.id b.id)

theorem transCmp_documentOrder (htexts : Std.TransCmp texts.collate)
    (query : ListDocumentsQueryDto) :
  Std.TransCmp (documentOrder texts query)
  := by
  have hcolumn := transCmp_apply (transCmp_compare htexts query.sort) query.order
  have hboth : Std.TransCmp (compareLex
      (fun a b => query.order.apply (query.sort.compare texts a b)) (compareOn Document.id)) :=
    inferInstance
  exact hboth

end

/-! ### The pages of a list -/

namespace DocumentsService

/-- The documents a list is about. -/
def found (texts : Texts) (documents : Table Document.id) (userId : ℕ)
    (query : ListDocumentsQueryDto) : List Document :=
  documents.rows.filter (listed texts userId query)

/-- What `list` may return: the folder it is about is the user's, and the page is cut from the
documents in some order the query allows. -/
structure Lists (texts : Texts) (folders : Table Folder.id) (documents : Table Document.id)
    (userId : ℕ) (query : ListDocumentsQueryDto) (result : DocumentPage) : Prop where
  folder : ∀ folderId, query.folderId.join = some folderId →
    ∃ folder, FoldersService.getOwned folders userId folderId = .ok folder
  items : ∃ sorted, sorted.Perm (found texts documents userId query)
    ∧ SortedBy (documentOrder texts query) sorted
    ∧ result.items = pageOf query.page query.limit sorted
  pagination : result.pagination
    = pagination query.page query.limit (found texts documents userId query).length

section

variable {texts : Texts} {folders : Table Folder.id} {documents : Table Document.id} {userId : ℕ}
  {query : ListDocumentsQueryDto}

/-- A list in the order of the table is one of the answers. -/
theorem lists_of_list (htexts : Std.TransCmp texts.collate) {result : DocumentPage}
    (h : list texts folders documents userId query = .ok result) :
  Lists texts folders documents userId query result
  := by
  have hlawful := transCmp_documentOrder htexts query
  have hanswer (result : DocumentPage)
      (hfolder : ∀ folderId, query.folderId.join = some folderId →
        ∃ folder, FoldersService.getOwned folders userId folderId = .ok folder)
      (hresult : result =
        { items := pageOf query.page query.limit
            (orderBy (documentOrder texts query) (found texts documents userId query))
          pagination := DocuAI.pagination query.page query.limit
            (found texts documents userId query).length }) :
      Lists texts folders documents userId query result := by
    subst hresult
    exact ⟨hfolder, ⟨_, List.perm_insertionSort _ _, sortedBy_insertionSort _, rfl⟩, rfl⟩
  unfold list at h
  cases hfolder : query.folderId.join with
  | none =>
      rw [hfolder] at h
      exact hanswer result (by simp [hfolder]) (Except.ok.inj h).symm
  | some folderId =>
      rw [hfolder] at h
      cases howned : FoldersService.getOwned folders userId folderId with
      | error error =>
          simp only [howned] at h
          cases h
      | ok folder =>
          simp only [howned] at h
          refine hanswer result ?_ (Except.ok.inj h).symm
          intro folderId' hfolder'
          obtain rfl := Option.some.inj (hfolder.symm.trans hfolder')
          exact ⟨folder, howned⟩

/-- The documents a list is about are the live ones of the user that match, each once. -/
theorem mem_found_iff {document : Document} :
  document ∈ found texts documents userId query
    ↔ documents.find document.id = some document ∧ document.userId = userId
      ∧ document.deletedAt = none ∧ (∀ folderId ∈ query.folderId, document.folderId = folderId)
      ∧ (∀ status ∈ query.status, document.status = status)
      ∧ (∀ search ∈ query.search, search ≠ [] → texts.contains document.title search = true
        ∨ ∃ description ∈ document.description, texts.contains description search = true)
  := by
  rw [found, List.mem_filter, Table.mem_rows_iff, listed]
  simp only [Bool.and_eq_true, decide_eq_true_eq, Option.isNone_iff_eq_none, and_assoc,
    Option.all_eq_true, Option.mem_def, Option.filter_eq_some_iff, Bool.or_eq_true,
    Option.any_eq_true, and_imp, ne_eq]

/-- Documents of one table that the order does not tell apart are the same. -/
theorem eq_of_documentOrder {a b : Document} (ha : a ∈ found texts documents userId query)
    (hb : b ∈ found texts documents userId query) (h : documentOrder texts query a b = .eq) :
  a = b
  := by
  rw [documentOrder, Ordering.then_eq_eq, Nat.compare_eq_eq] at h
  have hfind := (mem_found_iff.mp ha).1
  rw [h.2, (mem_found_iff.mp hb).1] at hfind
  exact (Option.some.inj hfind).symm

theorem nodup_found :
  (found texts documents userId query).Nodup
  := (List.Nodup.of_map _ documents.nodup).filter _

/-- The documents in the one order that the list leaves. -/
theorem Lists.items_eq (htexts : Std.TransCmp texts.collate) {result : DocumentPage}
    (h : Lists texts folders documents userId query result) :
  result.items = pageOf query.page query.limit
    (orderBy (documentOrder texts query) (found texts documents userId query))
  := by
  have hlawful := transCmp_documentOrder htexts query
  obtain ⟨sorted, hperm, hsorted, hitems⟩ := h.items
  have heq : sorted = orderBy (documentOrder texts query)
      (found texts documents userId query) := by
    refine SortedBy.eq_of_perm ?_ hsorted (sortedBy_insertionSort _)
      (hperm.trans (List.perm_insertionSort _ _).symm)
    intro a ha b hb
    exact eq_of_documentOrder (hperm.mem_iff.mp ha) (hperm.mem_iff.mp hb)
  rw [hitems, heq]

/-- The pages of a list in a row are its rows in their order. -/
theorem flatMap_items {α : Type} {limit : ℕ} (hlimit : 1 ≤ limit) {rows : List α}
    {items : ℕ → List α} (hitems : ∀ page, 1 ≤ page → items page = pageOf page limit rows) :
  (List.range' 1 (pageCount limit rows.length)).flatMap items = rows
  := by
  rw [List.range'_eq_map_range, List.flatMap_map]
  conv_rhs => rw [← flatMap_pages hlimit rows]
  apply List.flatMap_congr
  intro i _
  rw [hitems (1 + i) (Nat.le_add_right 1 i), pageOf, Nat.add_sub_cancel_left]

/-- The pages of a list, each read by a query of its own, partition the documents it is about. -/
theorem list_partitions (htexts : Std.TransCmp texts.collate) (hlimit : 1 ≤ query.limit)
    (results : ℕ → DocumentPage)
    (h : ∀ page, 1 ≤ page →
      Lists texts folders documents userId { query with page } (results page)) :
  ∃ totalPages,
    (∀ page, 1 ≤ page → (results page).pagination =
      { page, limit := query.limit, total := (found texts documents userId query).length,
        totalPages })
    ∧ ((List.range' 1 totalPages).flatMap fun page => (results page).items).Perm
      (found texts documents userId query)
    ∧ ((List.range' 1 totalPages).flatMap fun page => (results page).items).Nodup
    ∧ SortedBy (fun a b => query.order.apply (query.sort.compare texts a b))
      ((List.range' 1 totalPages).flatMap fun page => (results page).items)
    ∧ ∀ page, totalPages < page → (results page).items = []
  := by
  have hlawful := transCmp_documentOrder htexts query
  have hlist := List.perm_insertionSort (fun a b => documentOrder texts query a b ≠ .gt)
    (found texts documents userId query)
  have hitems (page : ℕ) (hpage : 1 ≤ page) : (results page).items = pageOf page query.limit
      (orderBy (documentOrder texts query) (found texts documents userId query)) :=
    (h page hpage).items_eq htexts
  have hlength : (orderBy (documentOrder texts query)
      (found texts documents userId query)).length
        = (found texts documents userId query).length := hlist.length_eq
  have hpages := flatMap_items hlimit hitems
  rw [hlength] at hpages
  refine ⟨pageCount query.limit (found texts documents userId query).length, ?_, ?_, ?_, ?_, ?_⟩
  · intro page hpage
    exact (h page hpage).pagination
  · rw [hpages]
    exact hlist
  · rw [hpages]
    exact hlist.nodup_iff.mpr nodup_found
  · rw [hpages]
    have hsorted : SortedBy (documentOrder texts query) (orderBy (documentOrder texts query)
        (found texts documents userId query)) := sortedBy_insertionSort _
    refine hsorted.imp ?_
    intro a b hle hgt
    apply hle
    simp only [documentOrder, hgt]
    rfl
  · intro page hpage
    rw [hitems page (Nat.lt_of_le_of_lt (Nat.zero_le _) hpage), pageOf]
    apply page_eq_nil hlimit
    rw [hlength]
    omega

end

/-- Texts that are compared and searched by their code units. -/
def codeUnitTexts : Texts where
  collate := compareOn fun text => text.map UInt16.toNat
  contains text search := decide (search <:+: text)

/-- A document without a file. -/
def untitledDraft (id : ℕ) : Document where
  id := id
  userId := 7
  folderId := none
  title := js "Untitled"
  description := none
  status := .DRAFT
  mimeType := none
  fileSize := none
  pageCount := none
  storageKey := none
  originalName := none
  createdAt := 0
  updatedAt := 0
  deletedAt := none

/-- Two documents of one title. -/
def untitledDrafts : Table Document.id :=
  ⟨[untitledDraft 2, untitledDraft 1], by decide⟩

/-- The drafts of the user by title, one a page. -/
def draftsByTitle : ListDocumentsQueryDto where
  page := 1
  limit := 1
  folderId := none
  status := some .DRAFT
  search := none
  sort := .title
  order := .asc

/-- The pages of the drafts. -/
def draftsPage (page : ℕ) : DocumentPage where
  items := pageOf page 1 (orderBy (documentOrder codeUnitTexts draftsByTitle)
    (found codeUnitTexts untitledDrafts 7 draftsByTitle))
  pagination := pagination page 1 (found codeUnitTexts untitledDrafts 7 draftsByTitle).length

theorem list_partitions_drafts :
  ∃ totalPages, ((List.range' 1 totalPages).flatMap fun page => (draftsPage page).items).Perm
    (found codeUnitTexts untitledDrafts 7 draftsByTitle)
  := by
  have htexts : Std.TransCmp codeUnitTexts.collate :=
    inferInstanceAs (Std.TransCmp (compareOn fun text : JsString => text.map UInt16.toNat))
  have hlimit : 1 ≤ draftsByTitle.limit := by decide
  have hlists (page : ℕ) : Lists codeUnitTexts .empty untitledDrafts 7
      { draftsByTitle with page } (draftsPage page) :=
    lists_of_list htexts rfl
  obtain ⟨totalPages, -, hperm, -⟩ :=
    list_partitions htexts hlimit draftsPage fun page _ => hlists page
  exact ⟨totalPages, hperm⟩

end DocumentsService

end DocuAI

import DocuAI.Library.Sorted
import DocuAI.Ocr.JobService

/-!
# Finalization

The query that `finalize` reads the pages with leaves their order to the database.  What it makes of
them does not depend on it: the most common error comes first in the counts sorted by a comparison
that tells all counts apart.
-/

namespace DocuAI

/-! ### Comparing counts -/

/-- Texts without the character NUL are told apart by their weights. -/
theorem eq_of_weights {s t : List Char} (hs : (Char.ofNat 0) ∉ s) (ht : (Char.ofNat 0) ∉ t)
    (h : (s.map fun c => if c = '_' then 0 else c.toNat)
      = t.map fun c => if c = '_' then 0 else c.toNat) :
  s = t
  := by
  have hzero {c : Char} (hc : c.toNat = 0) : c = Char.ofNat 0 := by
    rw [← hc, Char.ofNat_toNat]
  induction s generalizing t with
  | nil => exact (List.map_eq_nil_iff.mp h.symm).symm
  | cons c s ih =>
      cases t with
      | nil => cases h
      | cons d t =>
          rw [List.mem_cons, not_or] at hs ht
          rw [List.map_cons, List.map_cons, List.cons.injEq] at h
          have hhead : c = d := by
            have hweights := h.1
            split at hweights
            · split at hweights
              · rename_i hc hd
                rw [hc, hd]
              · exact absurd (hzero hweights.symm).symm ht.1
            · split at hweights
              · exact absurd (hzero hweights).symm hs.1
              · exact Char.toNat_inj.mp hweights
          rw [hhead, ih hs.2 ht.2 h.2]

theorem OcrErrorCode.name_injective :
  Function.Injective OcrErrorCode.name
  := by
  intro a b h
  cases a <;> cases b <;> first | rfl | simp [name] at h

/-- Codes with the same weights are the same. -/
theorem OcrErrorCode.eq_of_collation {a b : OcrErrorCode} (h : a.collation = b.collation) :
  a = b
  := by
  have hnul (code : OcrErrorCode) : (Char.ofNat 0) ∉ code.name.toList := by
    cases code <;> simp [name]
  apply name_injective
  apply String.toList_injective
  exact eq_of_weights (hnul a) (hnul b) h

instance transCmp_localeCompare :
    Std.TransCmp localeCompare :=
  transCmp_column inferInstance OcrErrorCode.collation

theorem eq_of_localeCompare {a b : OcrErrorCode} (h : localeCompare a b = .eq) :
  a = b
  := OcrErrorCode.eq_of_collation (Std.LawfulEqCmp.compare_eq_iff_eq.mp h)

/-- The comparison `sort` is given: the more frequent value first, then by name. -/
def compareCounts (a b : OcrErrorCode × ℕ) : Ordering :=
  (compare b.2 a.2).then (localeCompare a.1 b.1)

instance transCmp_compareCounts :
    Std.TransCmp compareCounts := by
  have hcount : Std.TransCmp fun a b : OcrErrorCode × ℕ => compare b.2 a.2 :=
    transCmp_column (inferInstance : Std.TransCmp fun m n : ℕ => compare n m) Prod.snd
  have hname : Std.TransCmp fun a b : OcrErrorCode × ℕ => localeCompare a.1 b.1 :=
    transCmp_column transCmp_localeCompare Prod.fst
  exact inferInstanceAs (Std.TransCmp (compareLex _ _))

theorem sortsBefore_iff (a b : OcrErrorCode × ℕ) :
  sortsBefore a b = true ↔ compareCounts a b ≠ .gt
  := by
  rw [sortsBefore, compareCounts, Bool.or_eq_true, Bool.and_eq_true, decide_eq_true_eq,
    decide_eq_true_eq, decide_eq_true_eq]
  cases hcount : compare b.2 a.2 with
  | lt =>
      rw [Nat.compare_eq_lt] at hcount
      simp [hcount]
  | eq =>
      rw [Nat.compare_eq_eq] at hcount
      simp [hcount]
  | gt =>
      rw [Nat.compare_eq_gt] at hcount
      simp only [Ordering.gt_then, ne_eq, not_true_eq_false, iff_false]
      omega

/-! ### Counting -/

/-- The next value is counted. -/
def countValue (counts : List (OcrErrorCode × ℕ)) (value : OcrErrorCode) :
    List (OcrErrorCode × ℕ) :=
  if value ∈ counts.map Prod.fst then
    counts.map fun entry => if entry.1 = value then (value, entry.2 + 1) else entry
  else counts ++ [(value, 1)]

theorem countValues_append (values : List OcrErrorCode) (value : OcrErrorCode) :
  countValues (values ++ [value]) = countValue (countValues values) value
  := by
  rw [countValues, List.foldl_append]
  rfl

/-- Every value has one entry. -/
theorem nodup_countValues (values : List OcrErrorCode) :
  ((countValues values).map Prod.fst).Nodup
  := by
  induction values using List.reverseRecOn with
  | nil => exact List.nodup_nil
  | append_singleton values value ih =>
      rw [countValues_append, countValue]
      split
      · rename_i hmem
        have hkeys : ((countValues values).map fun entry =>
            if entry.1 = value then (value, entry.2 + 1) else entry).map Prod.fst
              = (countValues values).map Prod.fst := by
          rw [List.map_map]
          apply List.map_congr_left
          intro entry hentry
          simp only [Function.comp_apply]
          split
          · rename_i heq
            rw [heq]
          · rfl
        rw [hkeys]
        exact ih
      · rename_i hnew
        rw [List.map_append, List.map_singleton]
        exact List.nodup_append.mpr ⟨ih, List.nodup_singleton _, by
          intro a ha b hb
          rw [List.mem_singleton.mp hb]
          rintro rfl
          exact hnew ha⟩

/-- Counting a value leaves the entries of the others. -/
theorem mem_countValue_of_ne {counts : List (OcrErrorCode × ℕ)} {value last : OcrErrorCode} {n : ℕ}
    (h : value ≠ last) :
  (value, n) ∈ countValue counts last ↔ (value, n) ∈ counts
  := by
  unfold countValue
  split
  · rw [List.mem_map]
    constructor
    · rintro ⟨⟨other, m⟩, hentry, hvalue⟩
      simp only at hvalue
      split at hvalue
      · exact absurd (Prod.mk.inj hvalue).1.symm h
      · rwa [hvalue] at hentry
    · intro hentry
      exact ⟨(value, n), hentry, if_neg h⟩
  · simp [h]

/-- Counting a value adds one to its entry, or makes a new one. -/
theorem mem_countValue_self {counts : List (OcrErrorCode × ℕ)} {value : OcrErrorCode} {n : ℕ} :
  (value, n) ∈ countValue counts value
    ↔ (∃ m, (value, m) ∈ counts ∧ n = m + 1) ∨ value ∉ counts.map Prod.fst ∧ n = 1
  := by
  unfold countValue
  split
  · rename_i hmem
    rw [List.mem_map]
    constructor
    · rintro ⟨⟨other, m⟩, hentry, hvalue⟩
      simp only at hvalue
      split at hvalue
      · rename_i hother
        subst hother
        exact .inl ⟨m, hentry, (Prod.mk.inj hvalue).2.symm⟩
      · rename_i hother
        exact absurd (Prod.mk.inj hvalue).1 hother
    · rintro (⟨m, hentry, rfl⟩ | ⟨hnew, -⟩)
      · exact ⟨(value, m), hentry, by simp⟩
      · exact absurd hmem hnew
  · rename_i hnew
    rw [List.mem_append, List.mem_singleton]
    constructor
    · rintro (hentry | hvalue)
      · exact absurd (List.mem_map_of_mem hentry) hnew
      · exact .inr ⟨hnew, (Prod.mk.inj hvalue).2⟩
    · rintro (⟨m, hentry, -⟩ | ⟨-, rfl⟩)
      · exact absurd (List.mem_map_of_mem hentry) hnew
      · exact .inr rfl

/-- The entry of a value says how often it occurs. -/
theorem mem_countValues_iff {values : List OcrErrorCode} {value : OcrErrorCode} {n : ℕ} :
  (value, n) ∈ countValues values ↔ value ∈ values ∧ n = values.count value
  := by
  induction values using List.reverseRecOn generalizing value n with
  | nil => simp [countValues]
  | append_singleton values last ih =>
      rw [countValues_append, List.count_append, List.mem_append, List.mem_singleton]
      by_cases heq : value = last
      · subst heq
        have hkeys : value ∈ (countValues values).map Prod.fst ↔ value ∈ values := by
          simp [ih]
        rw [mem_countValue_self, hkeys, List.count_singleton_self]
        by_cases hmem : value ∈ values
        · simp [ih, hmem]
        · simp [ih, hmem, List.count_eq_zero.mpr hmem]
      · have hcount : [last].count value = 0 := by
          rw [List.count_eq_zero, List.mem_singleton]
          exact heq
        rw [mem_countValue_of_ne heq, ih, hcount]
        simp [heq]

/-- The counts of the same values, read in another order, are the same. -/
theorem countValues_perm {values values' : List OcrErrorCode} (h : values.Perm values') :
  (countValues values).Perm (countValues values')
  := by
  rw [List.perm_ext_iff_of_nodup (List.Nodup.of_map _ (nodup_countValues values))
    (List.Nodup.of_map _ (nodup_countValues values'))]
  rintro ⟨value, n⟩
  rw [mem_countValues_iff, mem_countValues_iff, h.mem_iff, h.count_eq]

/-! ### The most common value -/

theorem insertionSort_sortsBefore (counts : List (OcrErrorCode × ℕ)) :
  counts.insertionSort (fun a b => sortsBefore a b = true)
    = counts.insertionSort fun a b => compareCounts a b ≠ .gt
  := by
  simp only [sortsBefore_iff]

/-- Entries that the comparison does not tell apart are the same. -/
theorem eq_of_compareCounts {a b : OcrErrorCode × ℕ} (h : compareCounts a b = .eq) :
  a = b
  := by
  rw [compareCounts, Ordering.then_eq_eq, Nat.compare_eq_eq] at h
  exact Prod.ext (eq_of_localeCompare h.2) h.1.symm

theorem mostCommon_perm {values values' : List OcrErrorCode} (h : values.Perm values') :
  mostCommon values = mostCommon values'
  := by
  rw [mostCommon, mostCommon, insertionSort_sortsBefore, insertionSort_sortsBefore,
    insertionSort_eq_of_perm (fun a _ b _ => eq_of_compareCounts) (countValues_perm h)]

/-- A value is the most common one: none occurs more often, and none that occurs as often precedes
it by name. -/
def IsMostCommon (values : List OcrErrorCode) (value : OcrErrorCode) : Prop :=
  value ∈ values ∧ ∀ other ∈ values, values.count other < values.count value
    ∨ values.count other = values.count value ∧ localeCompare value other ≠ .gt

theorem isMostCommon_of_mostCommon {values : List OcrErrorCode} {value : OcrErrorCode}
    (h : mostCommon values = some value) :
  IsMostCommon values value
  := by
  obtain ⟨⟨value', n⟩, hfirst, rfl⟩ := Option.map_eq_some_iff.mp h
  rw [insertionSort_sortsBefore] at hfirst
  have hentry := (List.mem_insertionSort _).mp (List.mem_of_head? hfirst)
  obtain ⟨hmem, rfl⟩ := mem_countValues_iff.mp hentry
  refine ⟨hmem, ?_⟩
  intro other hother
  have hle := head_insertionSort_le hfirst (mem_countValues_iff.mpr ⟨hother, rfl⟩)
  rw [← sortsBefore_iff, sortsBefore, Bool.or_eq_true, Bool.and_eq_true, decide_eq_true_eq,
    decide_eq_true_eq, decide_eq_true_eq] at hle
  rcases hle with hlt | ⟨heq, hname⟩
  · exact .inl hlt
  · exact .inr ⟨heq.symm, hname⟩

theorem mem_of_mostCommon {values : List OcrErrorCode} {value : OcrErrorCode}
    (h : mostCommon values = some value) :
  value ∈ values
  := (isMostCommon_of_mostCommon h).1

theorem mostCommon_ne_none {values : List OcrErrorCode} (h : values ≠ []) :
  mostCommon values ≠ none
  := by
  obtain ⟨value, hvalue⟩ := List.exists_mem_of_ne_nil _ h
  have hentry := mem_countValues_iff.mpr ⟨hvalue, rfl⟩
  rw [mostCommon, ne_eq, Option.map_eq_none_iff, List.head?_eq_none_iff]
  intro hsorted
  have hmem := (List.mem_insertionSort fun a b => sortsBefore a b = true).mpr hentry
  rw [hsorted] at hmem
  cases hmem

/-! ### The order of the pages -/

/-- The error codes of the failed pages, as `finalize` counts them. -/
def failedCodes (pages : List OcrPage) : List OcrErrorCode :=
  (failedPages pages).map fun page => page.errorCode.getD .OCR_PROCESSING_FAILED

section

variable {pages pages' : List OcrPage}

theorem failedPages_perm (h : pages.Perm pages') :
  (failedPages pages).Perm (failedPages pages')
  := h.filter _

theorem extractionMethodOf_perm (h : pages.Perm pages') :
  extractionMethodOf pages = extractionMethodOf pages'
  := by
  have hmethods := (h.filterMap OcrPage.method).dedup
  unfold extractionMethodOf
  generalize (pages.filterMap OcrPage.method).dedup = methods at hmethods
  generalize (pages'.filterMap OcrPage.method).dedup = methods' at hmethods
  have hlength := hmethods.length_eq
  match methods, methods' with
  | [], [] => rfl
  | [method], [method'] => rw [List.perm_singleton.mp hmethods]
  | _ :: _ :: _, _ :: _ :: _ => rfl

theorem dominantError_perm (h : pages.Perm pages') :
  dominantError pages = dominantError pages'
  := by
  rw [dominantError, dominantError, (failedPages_perm h).length_eq,
    mostCommon_perm ((failedPages_perm h).map _)]

theorem finalStatus_perm (h : pages.Perm pages') :
  finalStatus pages = finalStatus pages'
  := by
  rw [finalStatus, finalStatus, (failedPages_perm h).length_eq, h.length_eq]

theorem finalMessage_perm (h : pages.Perm pages') :
  finalMessage pages = finalMessage pages'
  := by
  rw [finalMessage, finalMessage, finalStatus_perm h, (failedPages_perm h).length_eq, h.length_eq]

/-- The error of failed pages is the most common one of theirs. -/
theorem exists_dominantError (h : failedPages pages ≠ []) :
  ∃ code, dominantError pages = some code ∧ IsMostCommon (failedCodes pages) code
  := by
  have hdominant : dominantError pages = mostCommon (failedCodes pages) :=
    if_pos (List.length_pos_iff.mpr h)
  have hcodes : failedCodes pages ≠ [] := by
    rw [failedCodes, ne_eq, List.map_eq_nil_iff]
    exact h
  rw [hdominant]
  obtain ⟨code, hcode⟩ := Option.ne_none_iff_exists'.mp (mostCommon_ne_none hcodes)
  exact ⟨code, hcode, isMostCommon_of_mostCommon hcode⟩

theorem finalStatus_ne_completed (h : failedPages pages ≠ []) :
  finalStatus pages ≠ .COMPLETED
  := by
  have hpos := List.length_pos_iff.mpr h
  rw [finalStatus, if_pos hpos]
  split
  · decide
  · decide

end

namespace OcrJobService

/-- What `finalize` makes of a job does not depend on the order in which the pages are read, and its
error is the most common one of the failed pages. -/
theorem finalizeUpdate_order_irrelevant {pages pages' : List OcrPage} (h : pages.Perm pages')
    (now : ℕ) :
  finalizeUpdate pages now = finalizeUpdate pages' now
  ∧ (failedPages pages ≠ [] → ∃ code, IsMostCommon (failedCodes pages) code
    ∧ ∀ job, ((finalizeUpdate pages now).data job).errorCode = some code)
  := by
  refine ⟨?_, ?_⟩
  · simp only [finalizeUpdate, finalStatus_perm h, extractionMethodOf_perm h, dominantError_perm h,
      finalMessage_perm h, (failedPages_perm h).length_eq, h.length_eq]
  · intro hfailed
    obtain ⟨code, hcode, hmost⟩ := exists_dominantError hfailed
    refine ⟨code, hmost, ?_⟩
    intro job
    simp only [finalizeUpdate, if_neg (finalStatus_ne_completed hfailed), hcode]

theorem finalizeUpdate_order_irrelevant_two :
  [pageRow 1 (failedPage 1 .OCR_INVALID_FILE none),
      pageRow 1 (failedPage 2 .OCR_PROCESSING_TIMEOUT none)].Perm
    [pageRow 1 (failedPage 2 .OCR_PROCESSING_TIMEOUT none),
      pageRow 1 (failedPage 1 .OCR_INVALID_FILE none)]
  ∧ (finalizeUpdate [pageRow 1 (failedPage 1 .OCR_INVALID_FILE none),
        pageRow 1 (failedPage 2 .OCR_PROCESSING_TIMEOUT none)] 0
      = finalizeUpdate [pageRow 1 (failedPage 2 .OCR_PROCESSING_TIMEOUT none),
        pageRow 1 (failedPage 1 .OCR_INVALID_FILE none)] 0
    ∧ (failedPages [pageRow 1 (failedPage 1 .OCR_INVALID_FILE none),
        pageRow 1 (failedPage 2 .OCR_PROCESSING_TIMEOUT none)] ≠ [] →
      ∃ code, IsMostCommon (failedCodes [pageRow 1 (failedPage 1 .OCR_INVALID_FILE none),
          pageRow 1 (failedPage 2 .OCR_PROCESSING_TIMEOUT none)]) code
        ∧ ∀ job, ((finalizeUpdate [pageRow 1 (failedPage 1 .OCR_INVALID_FILE none),
          pageRow 1 (failedPage 2 .OCR_PROCESSING_TIMEOUT none)] 0).data job).errorCode
            = some code))
  := ⟨.swap _ _ _, finalizeUpdate_order_irrelevant (.swap _ _ _) 0⟩

end OcrJobService

end DocuAI

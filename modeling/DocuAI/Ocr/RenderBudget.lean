import DocuAI.Environment
import DocuAI.Ocr.Poppler

/-!
# Renders within the pixel budget

A report prints the size of a page with the format `%g`, which turns to exponents for very large and
very small numbers.  The program reads numbers without an exponent only, and renders a page whose
size it has not read at the configured resolution.  The resolution of any other page is computed in
double precision, so a page may exceed the budget by what the roundings let through.
-/

namespace DocuAI

open JsString

namespace PopplerService

/-! ### Printed numbers -/

/-- The digits of a number. -/
def digits (ds : List (Fin 10)) : JsString :=
  ds.map fun d => UInt16.ofNat (0x30 + d.val)

/-- The number some digits stand for. -/
def ofDigits (ds : List (Fin 10)) : ℕ :=
  ds.foldl (fun n d => 10 * n + d.val) 0

/-- The digits after a decimal point, and the point; nothing when there are none. -/
def fractionText (fraction : List (Fin 10)) : JsString :=
  if fraction = [] then [] else decimalPoint :: digits fraction

/-- A number that is not negative, as `%g` prints it. -/
inductive GNumber where
  | decimal (whole fraction : List (Fin 10)) (whole_ne : whole ≠ [])
  | exponential (lead : Fin 10) (fraction : List (Fin 10)) (negative : Bool)
      (exponent : List (Fin 10))

namespace GNumber

def isDecimal : GNumber → Bool
  | decimal _ _ _ => true
  | exponential _ _ _ _ => false

def text : GNumber → JsString
  | decimal whole fraction _ => digits whole ++ fractionText fraction
  | exponential lead fraction negative exponent =>
      digits [lead] ++ fractionText fraction
        ++ 0x65 :: (if negative then 0x2D else 0x2B) :: digits exponent

def value : GNumber → ℚ
  | decimal whole fraction _ => ofDigits (whole ++ fraction) / 10 ^ fraction.length
  | exponential lead fraction negative exponent =>
      ofDigits (lead :: fraction) / 10 ^ fraction.length
        * (if negative then 1 / 10 ^ ofDigits exponent else 10 ^ ofDigits exponent)

theorem value_nonneg (number : GNumber) :
  0 ≤ number.value
  := by
  cases number with
  | decimal whole fraction _ =>
      rw [value]
      positivity
  | exponential lead fraction negative exponent =>
      rw [value]
      split
      · positivity
      · positivity

end GNumber

theorem toNat_digit (d : Fin 10) :
  (UInt16.ofNat (0x30 + d.val)).toNat = 0x30 + d.val
  := by
  rw [UInt16.toNat_ofNat']
  omega

theorem isDigit_digits {ds : List (Fin 10)} {u : UInt16} (h : u ∈ digits ds) :
  isDigit u = true
  := by
  obtain ⟨d, -, rfl⟩ := List.mem_map.mp h
  simp only [isDigit, Bool.and_eq_true, decide_eq_true_eq, UInt16.le_iff_toNat_le, toNat_digit,
    UInt16.reduceToNat]
  omega

theorem isDecimal_of_isDigit {u : UInt16} (h : isDigit u = true) :
  isDecimal u = true
  := by
  rw [isDecimal, h, Bool.true_or]

theorem digits_ne_nil {ds : List (Fin 10)} (h : ds ≠ []) :
  digits ds ≠ []
  := by
  simpa [digits] using h

theorem digits_append (ds ds' : List (Fin 10)) :
  digits (ds ++ ds') = digits ds ++ digits ds'
  := List.map_append

theorem parseInt_digits (ds : List (Fin 10)) :
  parseInt (digits ds) = ofDigits ds
  := by
  rw [parseInt, digits, ofDigits, List.foldl_map]
  congr 1
  funext n d
  rw [toNat_digit, Nat.add_sub_cancel_left]

theorem isDecimal_fractionText {fraction : List (Fin 10)} {u : UInt16}
    (h : u ∈ fractionText fraction) :
  isDecimal u = true
  := by
  unfold fractionText at h
  split at h
  · cases h
  · rcases List.mem_cons.mp h with rfl | hdigit
    · decide
    · exact isDecimal_of_isDigit (isDigit_digits hdigit)

theorem isDigit_head_fractionText (fraction : List (Fin 10)) :
  ∀ u ∈ (fractionText fraction).head?, isDigit u = false
  := by
  intro u hu
  unfold fractionText at hu
  split at hu
  · cases hu
  · obtain rfl := Option.some.inj hu
    decide

/-- A number printed without an exponent is read as the double nearest to it. -/
theorem parseFloat_text (whole fraction : List (Fin 10)) (hne : whole ≠ []) :
  parseFloat (digits whole ++ fractionText fraction)
    = .ofRat (GNumber.decimal whole fraction hne).value
  := by
  obtain ⟨htake, hdrop⟩ := Scan.takeWhile_append_of_stop
    (fun u (hu : u ∈ digits whole) => isDigit_digits hu) (isDigit_head_fractionText fraction)
  rw [parseFloat, htake, hdrop]
  by_cases hfraction : fraction = []
  · subst hfraction
    simp only [fractionText, if_pos, digits_ne_nil hne, false_and, if_false, List.append_nil,
      List.length_nil, GNumber.value, parseInt_digits]
  · have hdigits : (digits fraction).takeWhile isDigit = digits fraction := by
      rw [List.takeWhile_eq_self_iff]
      exact fun _ hu => isDigit_digits hu
    simp only [fractionText, if_neg hfraction, if_pos, hdigits, digits_ne_nil hne, false_and,
      if_false, GNumber.value, ← digits_append, parseInt_digits]
    simp [digits]

/-- A printed number begins with decimals, and with an exponent it goes on with something else. -/
theorem many1_text (number : GNumber) {rest : JsString}
    (hrest : ∀ u ∈ rest.head?, isDecimal u = false) :
  ∃ read tail, Scan.many1 isDecimal (number.text ++ rest) = some (read, tail)
    ∧ (number.isDecimal = true → parseFloat read = .ofRat number.value ∧ tail = rest)
    ∧ (number.isDecimal = false → tail.head? = some 0x65)
  := by
  cases number with
  | decimal whole fraction hne =>
      refine ⟨digits whole ++ fractionText fraction, rest, ?_, ?_, by simp [GNumber.isDecimal]⟩
      · apply Scan.many1_append _ _ hrest
        · exact fun hnil => digits_ne_nil hne (List.append_eq_nil_iff.mp hnil).1
        · intro u hu
          rcases List.mem_append.mp hu with hu | hu
          · exact isDecimal_of_isDigit (isDigit_digits hu)
          · exact isDecimal_fractionText hu
      · exact fun _ => ⟨parseFloat_text whole fraction hne, rfl⟩
  | exponential lead fraction negative exponent =>
      refine ⟨digits [lead] ++ fractionText fraction,
        0x65 :: (if negative then 0x2D else 0x2B) :: digits exponent ++ rest, ?_,
        by simp [GNumber.isDecimal], by simp⟩
      rw [GNumber.text, List.append_assoc]
      apply Scan.many1_append
      · simp [digits]
      · intro u hu
        rcases List.mem_append.mp hu with hu | hu
        · exact isDecimal_of_isDigit (isDigit_digits hu)
        · exact isDecimal_fractionText hu
      · intro u hu
        obtain rfl := Option.some.inj hu
        decide

theorem not_whiteSpace_of_isDigit {u : UInt16} (h : isDigit u = true) :
  isWhiteSpace u = false
  := by
  simp only [isDigit, Bool.and_eq_true, decide_eq_true_eq, UInt16.le_iff_toNat_le,
    UInt16.reduceToNat] at h
  simp only [isWhiteSpace, Bool.or_eq_false_iff, Bool.and_eq_false_iff, decide_eq_false_iff_not,
    beq_eq_false_iff_ne, ne_eq, UInt16.le_iff_toNat_le, ← UInt16.toNat_inj, UInt16.reduceToNat]
  omega

theorem not_lineTerminator_of_isDigit {u : UInt16} (h : isDigit u = true) :
  isLineTerminator u = false
  := by
  simp only [isDigit, Bool.and_eq_true, decide_eq_true_eq, UInt16.le_iff_toNat_le,
    UInt16.reduceToNat] at h
  simp only [isLineTerminator, lineFeed, carriageReturn, Bool.or_eq_false_iff,
    beq_eq_false_iff_ne, ne_eq, ← UInt16.toNat_inj, UInt16.reduceToNat]
  omega

theorem isDigit_head_digits {ds : List (Fin 10)} (hne : ds ≠ []) (rest : JsString) :
  ∀ u ∈ (digits ds ++ rest).head?, isDigit u = true
  := by
  intro u hu
  rw [List.head?_append_of_ne_nil _ (digits_ne_nil hne)] at hu
  exact isDigit_digits (List.mem_of_mem_head? hu)

theorem GNumber.isDigit_head_text (number : GNumber) (rest : JsString) :
  ∀ u ∈ (number.text ++ rest).head?, isDigit u = true
  := by
  cases number with
  | decimal whole fraction hne =>
      rw [GNumber.text, List.append_assoc]
      exact isDigit_head_digits hne _
  | exponential lead fraction negative exponent =>
      rw [GNumber.text, List.append_assoc, List.append_assoc]
      exact isDigit_head_digits (List.cons_ne_nil _ _) _

theorem GNumber.not_lineTerminator_text (number : GNumber) :
  ∀ u ∈ number.text, isLineTerminator u = false
  := by
  have hfraction : ∀ fraction, ∀ u ∈ fractionText fraction, isLineTerminator u = false := by
    intro fraction u hu
    unfold fractionText at hu
    split at hu
    · cases hu
    · rcases List.mem_cons.mp hu with rfl | hdigit
      · decide
      · exact not_lineTerminator_of_isDigit (isDigit_digits hdigit)
  intro u hu
  cases number with
  | decimal whole fraction hne =>
      rcases List.mem_append.mp hu with hu | hu
      · exact not_lineTerminator_of_isDigit (isDigit_digits hu)
      · exact hfraction fraction u hu
  | exponential lead fraction negative exponent =>
      rw [GNumber.text, List.append_assoc, List.mem_append, List.mem_append] at hu
      rcases hu with hu | hu | hu
      · exact not_lineTerminator_of_isDigit (isDigit_digits hu)
      · exact hfraction fraction u hu
      · rcases List.mem_cons.mp hu with rfl | hu
        · decide
        · rcases List.mem_cons.mp hu with rfl | hdigit
          · cases negative
            · decide
            · decide
          · exact not_lineTerminator_of_isDigit (isDigit_digits hdigit)

/-! ### Reports -/

/-- The size of a page in points, as a report tells it. -/
structure PageSize where
  width : ℚ
  height : ℚ
  width_nonneg : 0 ≤ width
  height_nonneg : 0 ≤ height

/-- The size in the numbers of the program. -/
def PageSize.pageInfo (size : PageSize) : PdfPageInfo where
  widthPt := .ofRat size.width
  heightPt := .ofRat size.height

/-- The line of a report that tells the size of a page. -/
structure SizeLine where
  page : List (Fin 10)
  page_ne : page ≠ []
  width : GNumber
  height : GNumber
  /-- One less than the spaces before the number of the page, and before its size. -/
  pageGap : ℕ
  sizeGap : ℕ
  /-- What follows the unit. -/
  rest : JsString
  rest_line : ∀ u ∈ rest, isLineTerminator u = false

namespace SizeLine

/-- The number of the page. -/
def number (line : SizeLine) : ℕ :=
  ofDigits line.page

def text (line : SizeLine) : JsString :=
  js "Page" ++ (List.replicate (line.pageGap + 1) space ++ (digits line.page ++ (js " size:"
    ++ (List.replicate (line.sizeGap + 1) space ++ (line.width.text ++ (js " x "
      ++ (line.height.text ++ (js " pts" ++ line.rest))))))))

/-- Neither number of the line has an exponent. -/
def isDecimal (line : SizeLine) : Bool :=
  line.width.isDecimal && line.height.isDecimal

/-- The size the line tells. -/
def size (line : SizeLine) : PageSize :=
  { width := line.width.value
    height := line.height.value
    width_nonneg := line.width.value_nonneg
    height_nonneg := line.height.value_nonneg }

/-- What the program reads in the line. -/
def read (line : SizeLine) : Option (ℕ × PdfPageInfo) :=
  if line.isDecimal then some (line.number, line.size.pageInfo) else none

theorem literal_of_head {t s : JsString} {u : UInt16} (h : s.head? = some u)
    (hu : t.head?.any (· ≠ u) = true) :
  Scan.literal t s = none
  := by
  cases s with
  | nil => cases h
  | cons v s =>
      obtain rfl := Option.some.inj h
      cases t with
      | nil => cases hu
      | cons a t =>
          have hne : a ≠ v := by simpa using hu
          rw [Scan.literal, if_neg hne]

theorem many1_spaces (n : ℕ) {rest : JsString} (h : ∀ u ∈ rest.head?, isDigit u = true) :
  Scan.many1 isWhiteSpace (List.replicate (n + 1) space ++ rest)
    = some (List.replicate (n + 1) space, rest)
  := by
  apply Scan.many1_append
  · simp
  · intro u hu
    rw [List.eq_of_mem_replicate hu]
    decide
  · exact fun u hu => not_whiteSpace_of_isDigit (h u hu)

/-- The line is read when its numbers have no exponent, and else it is not. -/
theorem sizePattern_text (line : SizeLine) (s : JsString) :
  sizePattern (line.text ++ s) = line.read
  := by
  have hnumber : Scan.many1 isDigit (digits line.page ++ (js " size:"
      ++ (List.replicate (line.sizeGap + 1) space ++ (line.width.text ++ (js " x "
        ++ (line.height.text ++ (js " pts" ++ (line.rest ++ s))))))))
      = some (digits line.page, js " size:"
      ++ (List.replicate (line.sizeGap + 1) space ++ (line.width.text ++ (js " x "
        ++ (line.height.text ++ (js " pts" ++ (line.rest ++ s))))))) := by
    apply Scan.many1_append (digits_ne_nil line.page_ne) (fun u hu => isDigit_digits hu)
    intro u hu
    obtain rfl := Option.some.inj hu
    decide
  have hcross : ∀ u ∈ (js " x " ++ (line.height.text ++ (js " pts" ++ (line.rest ++ s)))).head?,
      PopplerService.isDecimal u = false := by
    intro u hu
    obtain rfl := Option.some.inj hu
    decide
  have hunit : ∀ u ∈ (js " pts" ++ (line.rest ++ s)).head?,
      PopplerService.isDecimal u = false := by
    intro u hu
    obtain rfl := Option.some.inj hu
    decide
  obtain ⟨width, afterWidth, hwidth, hwidthDecimal, hwidthExponential⟩ :=
    many1_text line.width hcross
  obtain ⟨height, afterHeight, hheight, hheightDecimal, hheightExponential⟩ :=
    many1_text line.height hunit
  simp only [sizePattern, text, List.append_assoc, Scan.literal_append, Option.bind_eq_bind,
    Option.bind_some, many1_spaces _ (isDigit_head_digits line.page_ne _), hnumber,
    many1_spaces _ (line.width.isDigit_head_text _), hwidth, read]
  by_cases hw : line.width.isDecimal = true
  · obtain ⟨hparsed, rfl⟩ := hwidthDecimal hw
    simp only [Scan.literal_append, Option.bind_some, hheight, hparsed]
    by_cases hh : line.height.isDecimal = true
    · obtain ⟨hparsed', rfl⟩ := hheightDecimal hh
      simp only [Scan.literal_append, Option.bind_some, hparsed', parseInt_digits]
      rw [if_pos (by rw [isDecimal, hw, hh, Bool.true_and])]
      rfl
    · rw [Bool.not_eq_true] at hh
      rw [literal_of_head (hheightExponential hh) (by decide),
        if_neg (by rw [isDecimal, hh, Bool.and_false]; exact Bool.false_ne_true)]
      rfl
  · rw [Bool.not_eq_true] at hw
    rw [literal_of_head (hwidthExponential hw) (by decide),
      if_neg (by rw [isDecimal, hw, Bool.false_and]; exact Bool.false_ne_true)]
    rfl

theorem not_lineTerminator_text (line : SizeLine) :
  ∀ u ∈ line.text, isLineTerminator u = false
  := by
  have hliteral : ∀ u, u ∈ js "Page" ∨ u ∈ js " size:" ∨ u ∈ js " x " ∨ u ∈ js " pts" →
      isLineTerminator u = false := by
    have hall : (js "Page" ++ js " size:" ++ js " x " ++ js " pts").all
        (fun u => !isLineTerminator u) = true := by
      decide +kernel
    intro u hu
    have hmem := List.all_eq_true.mp hall u (by
      simp only [List.mem_append]
      tauto)
    simpa using hmem
  have hspaces : ∀ n, ∀ u ∈ List.replicate n space, isLineTerminator u = false := by
    intro n u hu
    rw [List.eq_of_mem_replicate hu]
    decide
  intro u hu
  simp only [text, List.mem_append] at hu
  rcases hu with h | h | h | h | h | h | h | h | h | h
  · exact hliteral u (.inl h)
  · exact hspaces _ u h
  · exact not_lineTerminator_of_isDigit (isDigit_digits h)
  · exact hliteral u (.inr (.inl h))
  · exact hspaces _ u h
  · exact line.width.not_lineTerminator_text u h
  · exact hliteral u (.inr (.inr (.inl h)))
  · exact line.height.not_lineTerminator_text u h
  · exact hliteral u (.inr (.inr (.inr h)))
  · exact line.rest_line u h

end SizeLine

/-- A line of a report: the size of a page, or a line the program does not take for one. -/
inductive ReportLine where
  | size (line : SizeLine)
  | other (text : JsString) (text_line : ∀ u ∈ text, isLineTerminator u = false)
      (not_size : ∀ s, sizePattern (text ++ lineFeed :: s) = none)

namespace ReportLine

def text : ReportLine → JsString
  | size line => line.text
  | other text _ _ => text

/-- What the program reads in a line. -/
def read : ReportLine → Option (ℕ × PdfPageInfo)
  | size line => line.read
  | other _ _ _ => none

end ReportLine

def reportText : List ReportLine → JsString
  | [] => []
  | line :: lines => line.text ++ lineFeed :: reportText lines

/-- The sizes that are read in a report are those read in its lines. -/
theorem sizes_reportText (lines : List ReportLine) :
  Scan.atLines isLineTerminator sizePattern true (reportText lines)
    = lines.filterMap ReportLine.read
  := by
  induction lines with
  | nil => rfl
  | cons line lines ih =>
      have hline : ∀ u ∈ line.text, isLineTerminator u = false := by
        cases line with
        | size line => exact line.not_lineTerminator_text
        | other text htext _ => exact htext
      have hread : sizePattern (line.text ++ lineFeed :: reportText lines) = line.read := by
        cases line with
        | size line => exact line.sizePattern_text _
        | other text _ hnot => exact hnot _
      rw [reportText, Scan.atLines_line hline (by decide), ih, hread, List.filterMap_cons]
      cases line.read with
      | none => rfl
      | some entry => rfl

/-! ### The sizes of pages -/

theorem getElem_setPage (pages : List (Option PdfPageInfo)) (entry : ℕ × PdfPageInfo) {n : ℕ}
    (hn : 1 ≤ n) :
  (setPage pages entry)[n - 1]?.join = if entry.1 = n then some entry.2 else pages[n - 1]?.join
  := by
  obtain ⟨page, size⟩ := entry
  cases page with
  | zero =>
      rw [setPage, if_neg]
      exact Nat.ne_of_lt hn
  | succ page =>
      have hpadded : ∀ i : ℕ, (pages ++ List.replicate (page + 1 - pages.length) none)[i]?.join
          = pages[i]?.join := by
        intro i
        by_cases hi : i < pages.length
        · rw [List.getElem?_append_left hi]
        · rw [List.getElem?_append_right (Nat.not_lt.mp hi),
            List.getElem?_eq_none (Nat.not_lt.mp hi), List.getElem?_replicate]
          split
          · rfl
          · rfl
      rw [setPage]
      by_cases heq : page + 1 = n
      · subst heq
        rw [if_pos rfl, Nat.add_sub_cancel, List.getElem?_set_self]
        · rfl
        · rw [List.length_append, List.length_replicate]
          omega
      · rw [if_neg heq, List.getElem?_set_ne (by omega), hpadded]

/-- A page that is read in no line has no size. -/
theorem foldl_setPage_of_absent {entries : List (ℕ × PdfPageInfo)} {n : ℕ} (hn : 1 ≤ n)
    (h : ∀ entry ∈ entries, entry.1 ≠ n) (pages : List (Option PdfPageInfo)) :
  (entries.foldl setPage pages)[n - 1]?.join = pages[n - 1]?.join
  := by
  induction entries generalizing pages with
  | nil => rfl
  | cons entry entries ih =>
      rw [List.foldl_cons, ih fun e he => h e (List.mem_cons_of_mem _ he), getElem_setPage _ _ hn,
        if_neg (h entry List.mem_cons_self)]

/-- A page that is read with one size only has this size. -/
theorem foldl_setPage_of_unique {entries : List (ℕ × PdfPageInfo)} {n : ℕ} {size : PdfPageInfo}
    (hn : 1 ≤ n) (h : ∀ entry ∈ entries, entry.1 = n → entry.2 = size)
    (pages : List (Option PdfPageInfo))
    (hpresent : (n, size) ∈ entries ∨ pages[n - 1]?.join = some size) :
  (entries.foldl setPage pages)[n - 1]?.join = some size
  := by
  induction entries generalizing pages with
  | nil =>
      rcases hpresent with hmem | hpages
      · cases hmem
      · exact hpages
  | cons entry entries ih =>
      rw [List.foldl_cons]
      apply ih fun e he => h e (List.mem_cons_of_mem _ he)
      rw [getElem_setPage _ _ hn]
      by_cases hentry : entry.1 = n
      · rw [if_pos hentry, h entry List.mem_cons_self hentry]
        exact .inr rfl
      · rw [if_neg hentry]
        rcases hpresent with hmem | hpages
        · rcases List.mem_cons.mp hmem with rfl | hmem
          · exact absurd rfl hentry
          · exact .inl hmem
        · exact .inr hpages

/-- Every page is reported once. -/
def ReportedOnce (lines : List ReportLine) : Prop :=
  ∀ line line', .size line ∈ lines → .size line' ∈ lines → line.number = line'.number →
    line = line'

/-- The size of a page is what its line tells without an exponent. -/
theorem size_of_report {lines : List ReportLine} (honce : ReportedOnce lines) {line : SizeLine}
    (hline : .size line ∈ lines) (hn : 1 ≤ line.number) :
  ((lines.filterMap ReportLine.read).foldl setPage [])[line.number - 1]?.join
    = if line.isDecimal then some line.size.pageInfo else none
  := by
  have hread : ∀ entry ∈ lines.filterMap ReportLine.read, entry.1 = line.number →
      line.read = some entry := by
    intro entry hentry hnumber
    obtain ⟨other, hother, hread⟩ := List.mem_filterMap.mp hentry
    cases other with
    | other text _ _ => cases hread
    | size other =>
        have hother_read : other.read = some entry := hread
        have hentry_number : other.number = entry.1 := by
          rw [ReportLine.read, SizeLine.read] at hread
          split at hread
          · obtain rfl := Option.some.inj hread
            rfl
          · cases hread
        rw [honce line other hline hother (hnumber.symm.trans hentry_number.symm), hother_read]
  by_cases hdecimal : line.isDecimal = true
  · have hsome : line.read = some (line.number, line.size.pageInfo) := if_pos hdecimal
    rw [if_pos hdecimal]
    apply foldl_setPage_of_unique hn
    · intro entry hentry hnumber
      obtain rfl := Option.some.inj (hsome.symm.trans (hread entry hentry hnumber))
      rfl
    · exact .inl (List.mem_filterMap.mpr ⟨.size line, hline, hsome⟩)
  · have hnone : line.read = none := if_neg hdecimal
    rw [if_neg hdecimal, foldl_setPage_of_absent hn]
    · rfl
    · intro entry hentry hnumber
      rw [hread entry hentry hnumber] at hnone
      cases hnone

/-! ### The resolution of a render -/

/-- A page of the given size, rendered at the given resolution, has no more than `maxRenderPixels`
pixels. -/
def FitsBudget (limits : OcrLimits) (size : PageSize) (dpi : ℕ) : Prop :=
  (dpi : ℚ) * dpi * size.width * size.height ≤ 72 * 72 * limits.maxRenderPixels

instance (limits : OcrLimits) (size : PageSize) (dpi : ℕ) :
    Decidable (FitsBudget limits size dpi) :=
  inferInstanceAs (Decidable (_ ≤ _))

/-- The area of a page in square inches, in the numbers of the program. -/
def PageSize.inches (size : PageSize) : Double :=
  (size.pageInfo.widthPt / POINTS_PER_INCH) * (size.pageInfo.heightPt / POINTS_PER_INCH)

/-- The area is so small that the quotient of `maxRenderPixels` and the area comes up to the square
of the given resolution, or so close below it that its root is rounded to the resolution. -/
def Admits (limits : OcrLimits) (inches : Double) (dpi : ℕ) : Prop :=
  inches ≤ 0
  ∨ ∃ area h, inches = .finite area h ∧ Double.ReachesSquare dpi (limits.maxRenderPixels / area)

/-- The area of a page is a number, and no resolution beyond the budget is admitted for it. -/
structure RoundsWithinBudget (limits : OcrLimits) (size : PageSize) : Prop where
  inches_ne_nan : size.inches ≠ .nan
  not_admits : ∀ dpi, MIN_RENDER_DPI ≤ dpi → dpi ≤ limits.renderDpi →
    ¬ FitsBudget limits size dpi → ¬ Admits limits size.inches dpi

/-- The resolution a page is rendered at is within its limits and fits the budget, and a page for
which no resolution does is recorded as failed without being rendered. -/
structure RendersWithinBudget (config : OcrConfig) (pdf : PdfInfo) (n : ℕ) (size : PageSize) :
    Prop where
  rendered : ∀ dpi, renderDpiFor config pdf n = .ok dpi →
    ∃ d : ℕ, dpi = d ∧ MIN_RENDER_DPI ≤ d ∧ d ≤ config.limits.renderDpi
      ∧ FitsBudget config.limits size d
  refused : (∀ dpi, MIN_RENDER_DPI ≤ dpi → dpi ≤ config.limits.renderDpi →
      ¬ FitsBudget config.limits size dpi) →
    (∃ error, renderDpiFor config pdf n = .error error)
    ∧ ∀ unicode tools now input nativePages budget, now < input.deadline →
      isNativeTextUsable unicode (normalizeExtractedText unicode (nativePages[n - 1]?.getD []))
        config.nativeText = false →
      pdfPage config unicode tools now input pdf nativePages n budget
        = .ok (failedPage n .OCR_PAGE_TOO_LARGE none)

/-- A page that fits at a resolution fits at every smaller one. -/
theorem FitsBudget.mono {limits : OcrLimits} {size : PageSize} {dpi dpi' : ℕ}
    (h : FitsBudget limits size dpi) (hle : dpi' ≤ dpi) :
  FitsBudget limits size dpi'
  := by
  have hcast : (dpi' : ℚ) ≤ dpi := by exact_mod_cast hle
  have hsq : (dpi' : ℚ) * dpi' ≤ dpi * dpi := by nlinarith
  have harea : 0 ≤ size.width * size.height := mul_nonneg size.width_nonneg size.height_nonneg
  unfold FitsBudget at h ⊢
  nlinarith

/-- The error of a page that is too large does not say that a tool is missing. -/
theorem pageFailure_tooLarge (size : PdfPageInfo) (message rest : JsString) (n : ℕ) :
  pageFailure (.processing (.ofPermanent .OCR_PAGE_TOO_LARGE message
      (some (JsNumber.text size.widthPt ++ (js "x" ++ rest))))) n
    = some (failedPage n .OCR_PAGE_TOO_LARGE none)
  := by
  have hcommand : js "Command not found" = 0x43 :: (js "Command not found").tail := by
    decide +kernel
  have hstarts : startsWith (JsNumber.text size.widthPt ++ (js "x" ++ rest))
      (js "Command not found") = false := by
    rw [hcommand, startsWith]
    cases htext : JsNumber.text size.widthPt with
    | nil => rfl
    | cons u text =>
        have hne : u ≠ 0x43 := JsNumber.ne_of_mem_text size.widthPt u (htext ▸ List.mem_cons_self)
        rw [List.cons_append, List.isPrefixOf_cons_cons, beq_false_of_ne hne.symm, Bool.false_and]
  simp only [pageFailure, OcrProcessingError.ofPermanent, Option.any_some, hstarts,
    Bool.false_eq_true, if_false]

section

variable {config : OcrConfig} {pdf : PdfInfo} {n : ℕ} {size : PageSize}

theorem renderDpiFor_of_size (hsize : pdf.pages[n - 1]?.join = some size.pageInfo) :
  renderDpiFor config pdf n
    = if size.inches ≤ 0 then .ok (config.limits.renderDpi : Double)
      else if Double.min config.limits.renderDpi
          ((config.limits.maxRenderPixels : Double) / size.inches).sqrt.floor
          < (MIN_RENDER_DPI : Double) then
        .error (.processing (.ofPermanent .OCR_PAGE_TOO_LARGE
          (js "The page is too large to render within the configured limits")
          (some (JsNumber.text size.pageInfo.widthPt ++ (js "x"
            ++ (JsNumber.text size.pageInfo.heightPt ++ js " pt"))))))
      else .ok (Double.min config.limits.renderDpi
          ((config.limits.maxRenderPixels : Double) / size.inches).sqrt.floor)
  := by
  simp only [renderDpiFor, hsize, PageSize.inches, List.append_assoc]
  rfl

/-- The quotient that is rounded, for an area that is a positive number. -/
theorem exists_quotient {limits : OcrLimits} {inches : Double} (hnan : inches ≠ .nan)
    (hpos : ¬ inches ≤ 0) (hpixels : limits.maxRenderPixels < 2 ^ 53) :
  ∃ x : ℚ, 0 ≤ x ∧ (limits.maxRenderPixels : Double) / inches = .ofRat x
    ∧ ∀ dpi, 2 ≤ dpi → dpi ≤ 2 ^ 26 → (Double.ReachesSquare dpi x ↔ Admits limits inches dpi)
  := by
  obtain ⟨_, hcast⟩ := Double.natCast_eq hpixels
  cases inches with
  | nan => exact absurd rfl hnan
  | infinity negative =>
      refine ⟨0, le_refl _, ?_, fun dpi hdpi hdpi' => iff_of_false ?_ ?_⟩
      · rw [hcast]
        change Double.ofRat ((0 : ℕ) : ℚ) = Double.ofRat 0
        rw [Nat.cast_zero]
      · rw [← Double.leastSquare_le_nearest_iff hdpi hdpi' (le_refl _), Double.nearest_zero]
        exact not_le.mpr (Double.leastSquare_pos hdpi hdpi')
      · rintro (hle | ⟨_, _, heq, _⟩)
        · exact hpos hle
        · cases heq
  | finite area h =>
      rw [Double.finite_le_zero, not_le] at hpos
      refine ⟨limits.maxRenderPixels / area, by positivity, ?_, fun dpi _ _ => ?_⟩
      · rw [hcast]
        change (if area = 0 then _ else Double.ofRat (limits.maxRenderPixels / area)) = _
        rw [if_neg hpos.ne']
      · constructor
        · exact fun hreaches => .inr ⟨area, h, rfl, hreaches⟩
        · rintro (hle | ⟨_, _, heq, hreaches⟩)
          · exact absurd (Double.finite_le_zero.mp hle) (not_le.mpr hpos)
          · cases heq
            exact hreaches

/-- A page whose area is not positive, or whose size was not read, is rendered within the budget
when the configured resolution happens to fit. -/
theorem rendersWithinBudget_of_configured_iff (hlimits : config.limits.Validated)
    (hdpi : renderDpiFor config pdf n = .ok (config.limits.renderDpi : Double)) :
  RendersWithinBudget config pdf n size
    ↔ FitsBudget config.limits size config.limits.renderDpi
  := by
  have hmin : MIN_RENDER_DPI ≤ config.limits.renderDpi :=
    (show 50 ≤ 72 by decide).trans hlimits.renderDpi.1
  have hshort : config.limits.renderDpi < 2 ^ 53 := hlimits.renderDpi.2.trans_lt (by norm_num)
  constructor
  · intro h
    obtain ⟨d, hd, -, hle, hfits⟩ := h.rendered _ hdpi
    rwa [(Double.natCast_inj hshort (hle.trans_lt hshort)).mp hd]
  · intro hfits
    refine ⟨?_, fun hnone => absurd hfits (hnone _ hmin (Nat.le_refl _))⟩
    intro dpi h
    obtain rfl := Except.ok.inj (hdpi.symm.trans h)
    exact ⟨_, rfl, hmin, Nat.le_refl _, hfits⟩

/-- A page whose size was read is rendered within the budget, or refused, exactly when the roundings
let no resolution beyond the budget through. -/
theorem rendersWithinBudget_of_size_iff (hlimits : config.limits.Validated)
    (hsize : pdf.pages[n - 1]?.join = some size.pageInfo) :
  RendersWithinBudget config pdf n size ↔ RoundsWithinBudget config.limits size
  := by
  have hmin : MIN_RENDER_DPI ≤ config.limits.renderDpi :=
    (show 50 ≤ 72 by decide).trans hlimits.renderDpi.1
  have hshort : config.limits.renderDpi ≤ 2 ^ 26 := hlimits.renderDpi.2.trans (by norm_num)
  have hpixels : config.limits.maxRenderPixels < 2 ^ 53 :=
    hlimits.maxRenderPixels.2.trans_lt (by norm_num)
  have hdpiFor : renderDpiFor config pdf n = _ := renderDpiFor_of_size hsize
  by_cases hle : size.inches ≤ 0
  · -- every resolution is admitted, and the configured one is taken
    rw [if_pos hle] at hdpiFor
    rw [rendersWithinBudget_of_configured_iff hlimits hdpiFor]
    constructor
    · intro hfits
      refine ⟨?_, fun dpi _ hdpi hnot => absurd (hfits.mono hdpi) hnot⟩
      intro hnan
      rw [hnan] at hle
      cases hle
    · intro h
      by_contra hnot
      exact h.not_admits _ hmin (Nat.le_refl _) hnot (.inl hle)
  rw [if_neg hle] at hdpiFor
  by_cases hnan : size.inches = .nan
  · -- the resolution is no number
    refine iff_of_false (fun h => ?_) (fun h => h.inches_ne_nan hnan)
    obtain ⟨_, hcast⟩ := Double.natCast_eq hpixels
    obtain ⟨_, hconfigured⟩ := Double.natCast_eq (hshort.trans_lt (by norm_num))
    have hno : Double.min config.limits.renderDpi
        ((config.limits.maxRenderPixels : Double) / size.inches).sqrt.floor = .nan := by
      rw [hnan, hcast, hconfigured]
      rfl
    rw [hno, if_neg (by rintro ⟨⟩)] at hdpiFor
    obtain ⟨d, hd, -, hdle, -⟩ := h.rendered _ hdpiFor
    obtain ⟨_, hd'⟩ := Double.natCast_eq ((hdle.trans hshort).trans_lt (by norm_num))
    rw [hd'] at hd
    cases hd
  obtain ⟨x, hx, hquotient, hreaches⟩ := exists_quotient hnan hle hpixels
  obtain ⟨d, hd, hadmitted⟩ := Double.exists_min_floor_sqrt hshort hx
  rw [hquotient, hd] at hdpiFor
  -- below the least resolution the page is refused, from there on it is rendered
  have hsmall : d ≤ config.limits.renderDpi := by
    by_cases htwo : 2 ≤ d
    · exact ((hadmitted d htwo).mp (Nat.le_refl _)).1
    · exact (Nat.le_of_lt (not_le.mp htwo)).trans ((show 2 ≤ MIN_RENDER_DPI by decide).trans hmin)
  have hlt : (d : Double) < (MIN_RENDER_DPI : Double) ↔ d < MIN_RENDER_DPI :=
    Double.natCast_lt ((hsmall.trans hshort).trans_lt (by norm_num)) (by decide)
  rw [if_congr hlt rfl rfl] at hdpiFor
  have hadmits : ∀ dpi, MIN_RENDER_DPI ≤ dpi → dpi ≤ config.limits.renderDpi →
      (dpi ≤ d ↔ Admits config.limits size.inches dpi) := by
    intro dpi hdpi hdpi'
    have htwo : 2 ≤ dpi := (show 2 ≤ MIN_RENDER_DPI by decide).trans hdpi
    rw [hadmitted dpi htwo, ← hreaches dpi htwo (hdpi'.trans hshort)]
    exact and_iff_right hdpi'
  constructor
  · intro h
    refine ⟨hnan, fun dpi hdpi hdpi' hnot hadmit => ?_⟩
    have hreached : dpi ≤ d := (hadmits dpi hdpi hdpi').mpr hadmit
    rw [if_neg (Nat.not_lt.mpr (hdpi.trans hreached))] at hdpiFor
    obtain ⟨d', hd', -, hle', hfits⟩ := h.rendered _ hdpiFor
    have hsame : d = d' := (Double.natCast_inj ((hsmall.trans hshort).trans_lt (by norm_num))
      ((hle'.trans hshort).trans_lt (by norm_num))).mp hd'
    exact hnot (hfits.mono (hsame ▸ hreached))
  · intro h
    have hfits : MIN_RENDER_DPI ≤ d → FitsBudget config.limits size d := by
      intro hlarge
      by_contra hnot
      exact h.not_admits d hlarge hsmall hnot ((hadmits d hlarge hsmall).mp (Nat.le_refl _))
    constructor
    · intro dpi hdpi
      rw [hdpiFor] at hdpi
      split at hdpi
      · cases hdpi
      · rename_i hlarge
        obtain rfl := Except.ok.inj hdpi
        exact ⟨d, rfl, Nat.not_lt.mp hlarge, hsmall, hfits (Nat.not_lt.mp hlarge)⟩
    · intro hnone
      have hrefused : d < MIN_RENDER_DPI := by
        by_contra hlarge
        exact hnone d (Nat.not_lt.mp hlarge) hsmall (hfits (Nat.not_lt.mp hlarge))
      rw [if_pos hrefused] at hdpiFor
      refine ⟨⟨_, hdpiFor⟩, ?_⟩
      intro unicode tools now input nativePages budget hdeadline hnative
      have hnative' : ¬ isNativeTextUsable unicode
          (normalizeExtractedText unicode (nativePages[n - 1]?.getD [])) config.nativeText = true :=
        by rw [hnative]; exact Bool.false_ne_true
      simp only [pdfPage, if_neg (Nat.not_le.mpr hdeadline), if_neg hnative', hdpiFor, bind,
        Except.bind, pageFailure_tooLarge]

/-- A size within the range in which `%g` prints no exponent, in square inches. -/
theorem exists_inches (hwidth : 1 / 10 ^ 4 ≤ size.width ∧ size.width ≤ 10 ^ 6)
    (hheight : 1 / 10 ^ 4 ≤ size.height ∧ size.height ≤ 10 ^ 6) :
  ∃ area h, size.inches = .finite area h
    ∧ size.width * size.height / (72 * 72) * (1 - 1 / 2 ^ 53) ^ 5 ≤ area
  := by
  have hside : ∀ {x : ℚ}, 1 / 10 ^ 4 ≤ x → x ≤ 10 ^ 6 → ∃ y h,
      Double.ofRat x / POINTS_PER_INCH = .finite y h
        ∧ x / 72 * (1 - 1 / 2 ^ 53) ^ 2 ≤ y ∧ y ≤ 10 ^ 6 := by
    intro x hx hx'
    obtain ⟨y, h, heq, hlower, hupper⟩ := Double.exists_ofRat (x := x) (by linarith) (by linarith)
    obtain ⟨_, hinch⟩ := Double.natCast_eq (n := 72) (by norm_num)
    obtain ⟨z, h', heq', hlower', hupper'⟩ := Double.exists_ofRat (x := y / 72)
      (by linarith) (by linarith)
    refine ⟨z, h', ?_, by linarith, by linarith⟩
    change Double.div _ ((72 : ℕ) : Double) = _
    rw [heq, hinch, Double.div, if_neg (by norm_num), ← heq', Nat.cast_ofNat]
  obtain ⟨w, _, hweq, hwlower, hwupper⟩ := hside hwidth.1 hwidth.2
  obtain ⟨v, _, hveq, hvlower, hvupper⟩ := hside hheight.1 hheight.2
  have hw : 1 / 10 ^ 7 ≤ w := by linarith
  have hv : 1 / 10 ^ 7 ≤ v := by linarith
  obtain ⟨area, h, heq, hlower, -⟩ := Double.exists_ofRat (x := w * v) (by nlinarith) (by nlinarith)
  refine ⟨area, h, ?_, ?_⟩
  · change Double.mul (Double.ofRat size.width / _) (Double.ofRat size.height / _) = _
    rw [hweq, hveq]
    exact heq
  · have hsides := mul_le_mul hwlower hvlower
      (mul_nonneg (div_nonneg size.height_nonneg (by norm_num)) (by positivity))
      ((by positivity : (0 : ℚ) ≤ 1 / 10 ^ 7).trans hw)
    calc
      size.width * size.height / (72 * 72) * (1 - 1 / 2 ^ 53) ^ 5
          = size.width / 72 * (1 - 1 / 2 ^ 53) ^ 2 * (size.height / 72 * (1 - 1 / 2 ^ 53) ^ 2)
            * (1 - 1 / 2 ^ 53) := by ring
      _ ≤ w * v * (1 - 1 / 2 ^ 53) := mul_le_mul_of_nonneg_right hsides (by norm_num)
      _ ≤ area := hlower

/-- Only a page that exceeds the budget by less than one part in `2 ^ 49` may be let through by the
roundings. -/
theorem roundsWithinBudget_of_clear {limits : OcrLimits} (hlimits : limits.Validated)
    (hwidth : 1 / 10 ^ 4 ≤ size.width ∧ size.width ≤ 10 ^ 6)
    (hheight : 1 / 10 ^ 4 ≤ size.height ∧ size.height ≤ 10 ^ 6)
    (hclear : ∀ dpi : ℕ, MIN_RENDER_DPI ≤ dpi → dpi ≤ limits.renderDpi →
      ¬ FitsBudget limits size dpi →
      72 * 72 * limits.maxRenderPixels * (1 + 1 / 2 ^ 49)
        < (dpi : ℚ) * dpi * size.width * size.height) :
  RoundsWithinBudget limits size
  := by
  obtain ⟨area, h, hinches, hlower⟩ := exists_inches hwidth hheight
  have harea : 0 < size.width * size.height := mul_pos (by linarith) (by linarith)
  refine ⟨by rw [hinches]; rintro ⟨⟩, fun dpi hdpi hdpi' hnot hadmits => ?_⟩
  have hpos : 0 < area := lt_of_lt_of_le (by positivity) hlower
  have hreaches : Double.ReachesSquare dpi (limits.maxRenderPixels / area) := by
    rw [hinches] at hadmits
    rcases hadmits with hle | ⟨_, _, heq, hreaches⟩
    · exact absurd (Double.finite_le_zero.mp hle) (not_le.mpr hpos)
    · cases heq
      exact hreaches
  -- what the roundings add up to
  have hgap : (dpi : ℚ) ^ 2 * (1 - 3 / 2 ^ 53) ≤ limits.maxRenderPixels / area := by
    have hshort := Double.gapBelow_lt (n := dpi ^ 2) (by nlinarith [show 50 ≤ dpi from hdpi])
    have hsub := hreaches.sub_le
    push_cast at hshort
    linarith
  rw [le_div_iff₀ hpos] at hgap
  have hpixels : 0 < (limits.maxRenderPixels : ℚ) := by
    exact_mod_cast (by norm_num : 0 < 250000).trans_le hlimits.maxRenderPixels.1
  have hsq : (0 : ℚ) ≤ (dpi : ℚ) ^ 2 * (1 - 3 / 2 ^ 53) :=
    mul_nonneg (by positivity) (by norm_num)
  have hproduct := (mul_le_mul_of_nonneg_left hlower hsq).trans hgap
  have hexceeds := hclear dpi hdpi hdpi' hnot
  have hscaled : (dpi : ℚ) * dpi * size.width * size.height
      * ((1 - 3 / 2 ^ 53) * (1 - 1 / 2 ^ 53) ^ 5) ≤ 72 * 72 * limits.maxRenderPixels := by
    linarith
  have hslack : (1 : ℚ) ≤ (1 + 1 / 2 ^ 49) * ((1 - 3 / 2 ^ 53) * (1 - 1 / 2 ^ 53) ^ 5) := by
    norm_num
  nlinarith

/-- A page of A4 fits the default budget at every resolution. -/
example : RoundsWithinBudget defaultLimits ⟨59528 / 100, 84189 / 100, by norm_num, by norm_num⟩ := by
  apply roundsWithinBudget_of_clear Configuration.validated_defaultLimits
  · norm_num
  · norm_num
  · intro dpi _ hle hnot
    have hdpi : (dpi : ℚ) ≤ 150 := by exact_mod_cast hle
    have hsquare : (dpi : ℚ) * dpi ≤ 150 * 150 :=
      mul_le_mul hdpi hdpi (Nat.cast_nonneg dpi) (by norm_num)
    refine absurd ?_ hnot
    simp only [FitsBudget, defaultLimits]
    push_cast
    linarith

end

/-- The sizes in what `info` answers are those it reads in the report. -/
theorem pages_of_info {result : RunCommandResult} {pdf : PdfInfo}
    (h : info (.ok result) = .ok pdf) :
  pdf.pages
    = (Scan.atLines isLineTerminator sizePattern true (Utf8.decode result.stdout)).foldl setPage []
  := by
  simp only [info, run, bind, Except.bind, pure, Except.pure] at h
  split at h
  · cases h
  · rename_i hresult
    split at hresult
    · cases hresult
    · obtain rfl := Except.ok.inj hresult
      split at h
      · cases h
      · split at h
        · cases h
        · obtain rfl := Except.ok.inj h
          rfl

/-- A page is rendered within the budget, or refused, exactly when its size is printed without an
exponent and no resolution beyond the budget is let through by the roundings, or its size is printed
with an exponent and fits the budget at the configured resolution. -/
theorem rendersWithinBudget_iff {config : OcrConfig} (hlimits : config.limits.Validated)
    {lines : List ReportLine} (honce : ReportedOnce lines) {result : RunCommandResult}
    (hreport : Utf8.decode result.stdout = reportText lines) {pdf : PdfInfo}
    (hinfo : info (.ok result) = .ok pdf) {line : SizeLine} (hline : .size line ∈ lines)
    (hpage : 1 ≤ line.number) :
  RendersWithinBudget config pdf line.number line.size
    ↔ (line.isDecimal = true ∧ RoundsWithinBudget config.limits line.size)
      ∨ (line.isDecimal = false
        ∧ FitsBudget config.limits line.size config.limits.renderDpi)
  := by
  have hsize : pdf.pages[line.number - 1]?.join
      = if line.isDecimal then some line.size.pageInfo else none := by
    rw [pages_of_info hinfo, hreport, sizes_reportText, size_of_report honce hline hpage]
  cases hdecimal : line.isDecimal with
  | true =>
      rw [hdecimal, if_pos rfl] at hsize
      rw [rendersWithinBudget_of_size_iff hlimits hsize]
      simp only [true_and, Bool.true_eq_false, false_and, or_false]
  | false =>
      have hdpi : renderDpiFor config pdf line.number
          = .ok (config.limits.renderDpi : Double) := by
        rw [hdecimal, if_neg Bool.false_ne_true] at hsize
        simp only [renderDpiFor, hsize]
      rw [rendersWithinBudget_of_configured_iff hlimits hdpi]
      simp only [Bool.false_eq_true, false_and, true_and, false_or]

/-- A page of a million points in each direction. -/
def hugePage : SizeLine where
  page := [1]
  page_ne := by decide
  width := .exponential 1 [] false [0, 6]
  height := .exponential 1 [] false [0, 6]
  pageGap := 3
  sizeGap := 0
  rest := []
  rest_line := by simp

/-- The report on a document of one huge page. -/
def hugeReport : List ReportLine :=
  [.other (js "Pages:          1")
    (by simp [js, isLineTerminator, lineFeed, carriageReturn]) (fun _ => rfl), .size hugePage]

def hugeResult : RunCommandResult where
  exitCode := some 0
  signal := none
  stdout := (reportText hugeReport).map fun u => UInt8.ofNat u.toNat
  stderr := []
  timedOut := false
  durationMs := 5

theorem reportedOnce_hugeReport :
  ReportedOnce hugeReport
  := by
  intro line line' hline hline' _
  simp only [hugeReport, List.mem_cons, reduceCtorEq, ReportLine.size.injEq, List.not_mem_nil,
    or_false, false_or] at hline hline'
  rw [hline, hline']

theorem info_hugeResult :
  info (.ok hugeResult) = .ok { pageCount := 1, pages := [] }
  := by decide +kernel

theorem rendersWithinBudget_of_hugePage :
  (RendersWithinBudget defaultOcrConfig { pageCount := 1, pages := [] } 1 hugePage.size
    ↔ (hugePage.isDecimal = true ∧ RoundsWithinBudget defaultLimits hugePage.size)
      ∨ (hugePage.isDecimal = false
        ∧ FitsBudget defaultLimits hugePage.size defaultLimits.renderDpi))
  ∧ hugePage.isDecimal = false
  ∧ ¬ FitsBudget defaultLimits hugePage.size defaultLimits.renderDpi
  := ⟨rendersWithinBudget_iff Configuration.validated_defaultLimits reportedOnce_hugeReport
    (by decide +kernel : Utf8.decode hugeResult.stdout = reportText hugeReport) info_hugeResult
    (List.mem_cons_of_mem _ List.mem_cons_self) (by decide : 1 ≤ hugePage.number),
    rfl, by decide +kernel⟩

/-- A page of `1e+06 x 1e+06` points is rendered at the configured resolution, far beyond the
budget. -/
theorem not_rendersWithinBudget_of_exponent :
  ¬ ∀ (config : OcrConfig), config.limits.Validated → ∀ (lines : List ReportLine),
    ReportedOnce lines → ∀ (result : RunCommandResult),
    Utf8.decode result.stdout = reportText lines → ∀ (pdf : PdfInfo),
    info (.ok result) = .ok pdf → ∀ (line : SizeLine), .size line ∈ lines → 1 ≤ line.number →
    RendersWithinBudget config pdf line.number line.size
  := by
  intro h
  have hrenders := h defaultOcrConfig Configuration.validated_defaultLimits hugeReport
    reportedOnce_hugeReport hugeResult (by decide +kernel) _ info_hugeResult hugePage
    (List.mem_cons_of_mem _ List.mem_cons_self) (by decide)
  have hdpi : renderDpiFor defaultOcrConfig { pageCount := 1, pages := [] } hugePage.number
      = .ok ((150 : ℕ) : Double) := rfl
  obtain ⟨d, hd, -, hle, hfits⟩ := hrenders.rendered _ hdpi
  have hshort : d < 2 ^ 53 := hle.trans_lt (by decide)
  obtain rfl := (Double.natCast_inj (by norm_num) hshort).mp hd
  exact absurd hfits (by decide +kernel)

/-- A page whose size has no exponent and that the roundings let through beyond the budget. -/
example :
    renderDpiFor
        { defaultOcrConfig with
          limits := { defaultLimits with maxRenderPixels := 51758076 } }
        { pageCount := 1
          pages := [some { widthPt := .ofRat (147887 / 100), heightPt := .ofRat (817223 / 100) }] } 1
      = .ok 149
    ∧ ¬ FitsBudget { defaultLimits with maxRenderPixels := 51758076 }
        ⟨147887 / 100, 817223 / 100, by norm_num, by norm_num⟩ 149 := by
  decide +kernel

end PopplerService

end DocuAI

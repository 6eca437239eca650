import DocuAI.JsString
import DocuAI.Library.Double

/-!
# Numbers of ECMAScript

A number is a double.  The template literals of the program print it with the shortest digits that
are read as the same number.
-/

namespace JsNumber

open JsString

/-- The digit zero. -/
def zero : UInt16 := 0x30

/-- The decimal point. -/
def point : UInt16 := 0x2E

/-- The integer of at most `k` digits that is read as a number when its last digit stands at the
place the number has for a digit `k`, and of two the one nearer to the number. -/
def digitsOf (x : ℚ) (k : ℕ) : Option ℕ :=
  let unit : ℚ := 10 ^ (Int.log 10 x + 1 - k)
  let below := ⌊x / unit⌋₊
  let reads (s : ℕ) : Bool := Double.nearest (s * unit) = x
  if reads below ∧ (¬ reads (below + 1) ∨ x / unit - below ≤ 1 / 2) then some below
  else if reads (below + 1) then some (below + 1)
  else none

/-- The shortest digits of a positive number, without zeros at the end, and the place of the decimal
point relative to the first of them. -/
def shortest (x : ℚ) : JsString × ℤ :=
  match (List.range 17).findSome? fun i => (digitsOf x (i + 1)).map fun s => (s, i + 1) with
  | none => ([], 0)
  | some (s, k) => ((jsNat s).rdropWhile (· = zero), Int.log 10 x + 1 - k + (jsNat s).length)

/-- `Number::toString` of a positive number. -/
def positiveText (x : ℚ) : JsString :=
  let (digits, n) := shortest x
  if digits.length ≤ n ∧ n ≤ 21 then
    digits ++ List.replicate (n - digits.length).toNat zero
  else if 0 < n ∧ n ≤ 21 then digits.take n.toNat ++ point :: digits.drop n.toNat
  else if -6 < n ∧ n ≤ 0 then zero :: point :: List.replicate (-n).toNat zero ++ digits
  else
    let exponent := 0x65 :: (if n - 1 < 0 then 0x2D else 0x2B) :: jsNat (n - 1).natAbs
    if digits.length = 1 then digits ++ exponent
    else digits.take 1 ++ point :: digits.drop 1 ++ exponent

/-- `Number::toString`. -/
def text : Double → JsString
  | .finite x _ =>
      if x = 0 then [zero]
      else if x < 0 then 0x2D :: positiveText (-x)
      else positiveText x
  | .infinity negative => if negative then js "-Infinity" else js "Infinity"
  | .nan => js "NaN"

theorem toNat_of_mem_jsNat {n : ℕ} {u : UInt16} (h : u ∈ jsNat n) :
  0x30 ≤ u.toNat ∧ u.toNat ≤ 0x39
  := by
  have hdigits : (toString n).toList = Nat.toDigits 10 n := by simp [toString]
  rw [jsNat, js, hdigits] at h
  obtain ⟨c, hc, hu⟩ := List.mem_flatMap.mp h
  have hdigit : c.isDigit = true :=
    Nat.isDigit_of_mem_toDigits (n := n) (b := 10) (by decide) (by decide) hc
  have hrange : 0x30 ≤ c.toNat ∧ c.toNat ≤ 0x39 := by
    simp only [Char.isDigit, Bool.and_eq_true, decide_eq_true_eq, ge_iff_le,
      UInt32.le_iff_toNat_le] at hdigit
    exact hdigit
  rw [if_pos (by omega), List.mem_singleton] at hu
  rw [hu, UInt16.toNat_ofNat']
  omega

theorem ne_of_mem_jsNat (n : ℕ) :
  ∀ u ∈ jsNat n, u ≠ 0x43
  := by
  rintro u hu rfl
  have := (toNat_of_mem_jsNat hu).2
  simp at this

theorem ne_of_mem_positiveText (x : ℚ) :
  ∀ u ∈ positiveText x, u ≠ 0x43
  := by
  have hdigits : ∀ u ∈ (shortest x).1, u ≠ 0x43 := by
    intro u hu
    unfold shortest at hu
    split at hu
    · cases hu
    · exact ne_of_mem_jsNat _ u ((List.rdropWhile_prefix _ _).subset hu)
  have hzeros : ∀ n, ∀ u ∈ List.replicate n zero, u ≠ 0x43 := by
    intro n u hu
    rw [List.eq_of_mem_replicate hu]
    decide
  have htake : ∀ n, ∀ u ∈ (shortest x).1.take n, u ≠ 0x43 :=
    fun _ u hu => hdigits u (List.mem_of_mem_take hu)
  have hdrop : ∀ n, ∀ u ∈ (shortest x).1.drop n, u ≠ 0x43 :=
    fun _ u hu => hdigits u (List.mem_of_mem_drop hu)
  have hsign : ∀ negative : Prop, [Decidable negative] →
      (if negative then (0x2D : UInt16) else 0x2B) ≠ 0x43 := by
    intro negative _
    split
    · decide
    · decide
  unfold positiveText
  simp only
  split
  · exact List.forall_mem_append.mpr ⟨hdigits, hzeros _⟩
  · split
    · exact List.forall_mem_append.mpr
        ⟨htake _, List.forall_mem_cons.mpr ⟨by decide, hdrop _⟩⟩
    · split
      · exact List.forall_mem_cons.mpr ⟨by decide, List.forall_mem_cons.mpr
          ⟨by decide, List.forall_mem_append.mpr ⟨hzeros _, hdigits⟩⟩⟩
      · have hexponent : ∀ u ∈ (0x65 : UInt16) :: (if (shortest x).2 - 1 < 0 then 0x2D else 0x2B)
            :: jsNat ((shortest x).2 - 1).natAbs, u ≠ 0x43 :=
          List.forall_mem_cons.mpr
            ⟨by decide, List.forall_mem_cons.mpr ⟨hsign _, ne_of_mem_jsNat _⟩⟩
        split
        · exact List.forall_mem_append.mpr ⟨hdigits, hexponent⟩
        · exact List.forall_mem_append.mpr ⟨List.forall_mem_append.mpr
            ⟨htake _, List.forall_mem_cons.mpr ⟨by decide, hdrop _⟩⟩, hexponent⟩

/-- A printed number has no capital letter but those of `Infinity` and `NaN`. -/
theorem ne_of_mem_text (number : Double) :
  ∀ u ∈ text number, u ≠ 0x43
  := by
  cases number with
  | finite x _ =>
      rw [text]
      split
      · exact List.forall_mem_ne'.mpr (by decide)
      · split
        · exact List.forall_mem_cons.mpr ⟨by decide, ne_of_mem_positiveText _⟩
        · exact ne_of_mem_positiveText x
  | infinity negative =>
      cases negative with
      | false => exact List.forall_mem_ne'.mpr (by decide)
      | true => exact List.forall_mem_ne'.mpr (by decide)
  | nan => exact List.forall_mem_ne'.mpr (by decide)

end JsNumber

import DocuAI.Utf8

/-!
# URI components

`encodeURIComponent` writes the bytes of every character it does not keep as escapes, and fails on a
surrogate without its partner.
-/

namespace JsString

/-! ### Well-formed strings, character by character -/

theorem isLowSurrogate_of_isHighSurrogate {u : UInt16} (h : isHighSurrogate u = true) :
  isLowSurrogate u = false
  := by
  simp only [isHighSurrogate, isLowSurrogate, Bool.and_eq_true, Bool.and_eq_false_iff,
    decide_eq_true_eq, decide_eq_false_iff_not, UInt16.le_iff_toNat_le, UInt16.reduceToNat] at h ⊢
  omega

/-- A well-formed string is empty, or it begins with a character of one or of two units. -/
@[elab_as_elim]
theorem isWellFormed_induction {motive : ∀ s : JsString, isWellFormed s = true → Prop}
    (nil : motive [] rfl)
    (unit : ∀ u rest, isHighSurrogate u = false → isLowSurrogate u = false →
      ∀ hrest : isWellFormed rest = true, motive rest hrest → ∀ h, motive (u :: rest) h)
    (pair : ∀ u v rest, isHighSurrogate u = true → isLowSurrogate v = true →
      ∀ hrest : isWellFormed rest = true, motive rest hrest → ∀ h, motive (u :: v :: rest) h)
    (s : JsString) (h : isWellFormed s = true) :
  motive s h
  := by
  induction s using codePoints.induct with
  | case1 => exact nil
  | case2 u =>
      have hu : isHighSurrogate u = false ∧ isLowSurrogate u = false := by
        have h := h
        simp only [isWellFormed, isWellFormedAfter] at h
        split at h
        · cases h
        · rename_i hhigh
          exact ⟨by simpa using hhigh, by simpa using h⟩
      exact unit u [] hu.1 hu.2 rfl nil h
  | case3 u v rest hpair ih =>
      rw [Bool.and_eq_true] at hpair
      have hrest : isWellFormed rest = true := by
        simpa [isWellFormed, isWellFormedAfter, hpair.1, hpair.2] using h
      exact pair u v rest hpair.1 hpair.2 hrest (ih hrest) h
  | case4 u v rest hpair ih =>
      have hsplit := h
      by_cases hhigh : isHighSurrogate u = true
      · simp only [isWellFormed, isWellFormedAfter, hhigh, if_true, Bool.and_eq_true] at hsplit
        simp [hhigh, hsplit.1] at hpair
      · rw [Bool.not_eq_true] at hhigh
        rw [isWellFormed, isWellFormedAfter, if_neg (by simp [hhigh]), Bool.and_eq_true,
          Bool.not_eq_true'] at hsplit
        exact unit u (v :: rest) hhigh hsplit.1 hsplit.2 (ih hsplit.2) h

/-- The first character of a string is a single unit when that is no first surrogate. -/
theorem codePoints_cons {u : UInt16} (h : isHighSurrogate u = false) (rest : JsString) :
  codePoints (u :: rest) = [u] :: codePoints rest
  := by
  cases rest with
  | nil => rfl
  | cons v rest => rw [codePoints, h, Bool.false_and, if_neg (by decide)]

/-! ### Encoding -/

/-- A character in a URI component: its escaped bytes, or itself when it is kept. -/
def encodeUnit (u : UInt16) : JsString :=
  if isUnescaped u then [u] else (utf8 u.toNat).flatMap percentEncode

/-- The number of the character that a pair of surrogates stands for. -/
def pairPoint (u v : UInt16) : ℕ :=
  0x10000 + (u.toNat - 0xD800) * 0x400 + (v.toNat - 0xDC00)

/-- What `encodeURIComponent` makes of one code point. -/
def encodePoint : JsString → Option JsString
  | [u] => if isHighSurrogate u || isLowSurrogate u then none else some (encodeUnit u)
  | [u, v] => some ((utf8 (pairPoint u v)).flatMap percentEncode)
  | _ => none

theorem encodeURIComponent_eq (s : JsString) :
  encodeURIComponent s = ((codePoints s).mapM encodePoint).map List.flatten
  := by
  unfold encodeURIComponent
  rw [Option.map_eq_bind]
  congr 2
  funext point
  match point with
  | [] => rfl
  | [u] =>
      simp only [encodePoint, encodeUnit]
      split
      · rfl
      · split
        · rfl
        · rfl
  | [u, v] => rfl
  | u :: v :: w :: rest => rfl

theorem encodeURIComponent_cons_of_point {u : UInt16} {point part rest rest' : JsString}
    (hpoints : codePoints (u :: rest) = point :: codePoints rest')
    (hpart : encodePoint point = some part) :
  encodeURIComponent (u :: rest) = (encodeURIComponent rest').map (part ++ ·)
  := by
  rw [encodeURIComponent_eq, encodeURIComponent_eq, hpoints, List.mapM_cons, hpart]
  cases hparts : (codePoints rest').mapM encodePoint with
  | none => rfl
  | some parts => rfl

theorem encodeURIComponent_cons {u : UInt16} (hhigh : isHighSurrogate u = false)
    (hlow : isLowSurrogate u = false) (rest : JsString) :
  encodeURIComponent (u :: rest) = (encodeURIComponent rest).map (encodeUnit u ++ ·)
  := by
  apply encodeURIComponent_cons_of_point (codePoints_cons hhigh rest)
  rw [encodePoint, hhigh, hlow]
  rfl

theorem encodeURIComponent_pair {u v : UInt16} (hhigh : isHighSurrogate u = true)
    (hlow : isLowSurrogate v = true) (rest : JsString) :
  encodeURIComponent (u :: v :: rest)
    = (encodeURIComponent rest).map ((utf8 (pairPoint u v)).flatMap percentEncode ++ ·)
  := by
  have hpoints : codePoints (u :: v :: rest) = [u, v] :: codePoints rest := by
    rw [codePoints, hhigh, hlow, Bool.and_self, if_pos rfl]
  exact encodeURIComponent_cons_of_point hpoints rfl

/-- A surrogate without its partner is not encoded. -/
theorem encodeURIComponent_lone {u : UInt16} {rest : JsString}
    (hpoints : codePoints (u :: rest) = [u] :: codePoints rest)
    (h : (isHighSurrogate u || isLowSurrogate u) = true) :
  encodeURIComponent (u :: rest) = none
  := by
  rw [encodeURIComponent_eq, hpoints, List.mapM_cons, encodePoint, if_pos h]
  rfl

/-- Exactly the well-formed strings are encoded. -/
theorem isSome_encodeURIComponent (s : JsString) :
  (encodeURIComponent s).isSome = isWellFormed s
  := by
  have hsingle {u : UInt16} {rest : JsString}
      (hpoints : codePoints (u :: rest) = [u] :: codePoints rest)
      (hwf : isWellFormed (u :: rest)
        = (!isHighSurrogate u && !isLowSurrogate u && isWellFormed rest))
      (ih : (encodeURIComponent rest).isSome = isWellFormed rest) :
      (encodeURIComponent (u :: rest)).isSome = isWellFormed (u :: rest) := by
    by_cases hlone : (isHighSurrogate u || isLowSurrogate u) = true
    · rw [encodeURIComponent_lone hpoints hlone, hwf, ← Bool.not_or, hlone]
      rfl
    · rw [Bool.not_eq_true, Bool.or_eq_false_iff] at hlone
      rw [encodeURIComponent_cons hlone.1 hlone.2, Option.isSome_map, ih, hwf, hlone.1, hlone.2]
      rfl
  induction s using codePoints.induct with
  | case1 => rfl
  | case2 u =>
      apply hsingle rfl _ rfl
      cases hhigh : isHighSurrogate u with
      | false => simp [isWellFormed, isWellFormedAfter, hhigh]
      | true => simp [isWellFormed, isWellFormedAfter, hhigh]
  | case3 u v rest hpair ih =>
      rw [Bool.and_eq_true] at hpair
      rw [encodeURIComponent_pair hpair.1 hpair.2, Option.isSome_map, ih]
      simp [isWellFormed, isWellFormedAfter, hpair.1, hpair.2]
  | case4 u v rest hpair ih =>
      apply hsingle _ _ ih
      · rw [codePoints, if_neg hpair]
      · cases hhigh : isHighSurrogate u with
        | false => simp [isWellFormed, isWellFormedAfter, hhigh]
        | true =>
            rw [hhigh, Bool.true_and, Bool.not_eq_true] at hpair
            simp [isWellFormed, isWellFormedAfter, hhigh, hpair]

/-! ### Reading escapes -/

/-- The percent sign. -/
def percent : UInt16 := 0x25

/-- The value of a hexadecimal digit. -/
def hexValue (u : UInt16) : Option ℕ :=
  if 0x30 ≤ u && u ≤ 0x39 then some (u.toNat - 0x30)
  else if 0x41 ≤ u && u ≤ 0x46 then some (u.toNat - 0x37)
  else if 0x61 ≤ u && u ≤ 0x66 then some (u.toNat - 0x57)
  else none

/-- Percent-decoding: the bytes that escapes and kept characters stand for, `none` when there is
anything else. -/
def percentDecode (kept : UInt16 → Bool) : JsString → Option Bytes
  | [] => some []
  | u :: rest =>
      if u = percent then
        match rest with
        | high :: low :: rest => do
            let byte := 0x10 * (← hexValue high) + (← hexValue low)
            let bytes ← percentDecode kept rest
            some (UInt8.ofNat byte :: bytes)
        | _ => none
      else if kept u then (percentDecode kept rest).map (UInt8.ofNat u.toNat :: ·)
      else none

/-- A hexadecimal digit is read as its value. -/
theorem hexValue_digit {n : ℕ} (h : n < 0x10) :
  hexValue (UInt16.ofNat (if n < 10 then 0x30 + n else 0x37 + n)) = some n
  := by
  have hunit (m : ℕ) (hm : m < 0x50) : (UInt16.ofNat m).toNat = m := by
    rw [UInt16.toNat_ofNat', Nat.mod_eq_of_lt (by omega)]
  simp only [hexValue, UInt16.le_iff_toNat_le, UInt16.reduceToNat, Bool.and_eq_true,
    decide_eq_true_eq]
  split
  · rename_i hdigit
    rw [hunit _ (by omega), if_pos (by omega), Nat.add_sub_cancel_left]
  · rename_i hdigit
    rw [hunit _ (by omega), if_neg (by omega), if_pos (by omega), Nat.add_sub_cancel_left]

section

variable {kept : UInt16 → Bool}

/-- An escaped byte is read back. -/
theorem percentDecode_percentEncode {byte : ℕ} (h : byte < 0x100) (rest : JsString) :
  percentDecode kept (percentEncode byte ++ rest)
    = (percentDecode kept rest).map (UInt8.ofNat byte :: ·)
  := by
  have hbyte : 0x10 * (byte / 0x10) + byte % 0x10 = byte := by omega
  have hpercent : (0x25 : UInt16) = percent := rfl
  rw [percentEncode]
  simp only [List.cons_append, List.nil_append]
  rw [percentDecode, if_pos hpercent]
  simp only [hexValue_digit (show byte / 0x10 < 0x10 by omega),
    hexValue_digit (show byte % 0x10 < 0x10 by omega)]
  cases percentDecode kept rest with
  | none => rfl
  | some bytes =>
      simp only [Option.bind_eq_bind, Option.bind_some, hbyte, Option.map_some]

theorem percentDecode_flatMap_percentEncode {bytes : List ℕ} (h : ∀ byte ∈ bytes, byte < 0x100)
    (rest : JsString) :
  percentDecode kept (bytes.flatMap percentEncode ++ rest)
    = (percentDecode kept rest).map (bytes.map UInt8.ofNat ++ ·)
  := by
  induction bytes with
  | nil => simp
  | cons byte bytes ih =>
      rw [List.forall_mem_cons] at h
      rw [List.flatMap_cons, List.append_assoc, percentDecode_percentEncode h.1, ih h.2,
        Option.map_map]
      rfl

/-- A kept character is read as its byte. -/
theorem percentDecode_cons {u : UInt16} (hkept : kept u = true) (hne : u ≠ percent)
    (rest : JsString) :
  percentDecode kept (u :: rest)
    = (percentDecode kept rest).map (UInt8.ofNat u.toNat :: ·)
  := by
  conv_lhs => unfold percentDecode
  rw [if_neg hne, if_pos hkept]

end

/-- The numbers that encode a character are bytes. -/
theorem lt_of_mem_utf8 {n byte : ℕ} (hn : n < 0x110000) (h : byte ∈ utf8 n) :
  byte < 0x100
  := by
  unfold utf8 at h
  split at h
  · simp only [List.mem_cons, List.not_mem_nil, or_false] at h
    omega
  · split at h
    · simp only [List.mem_cons, List.not_mem_nil, or_false] at h
      omega
    · split at h
      · simp only [List.mem_cons, List.not_mem_nil, or_false] at h
        omega
      · simp only [List.mem_cons, List.not_mem_nil, or_false] at h
        omega

/-! ### The bytes of a string -/

/-- A single unit that is no surrogate is a character, and decoded as itself. -/
theorem unitsOf_toNat (u : UInt16) :
  Utf8.unitsOf u.toNat = [u]
  := by
  rw [Utf8.unitsOf, if_pos u.toNat_lt, UInt16.ofNat_toNat]

theorem isScalar_toNat {u : UInt16} (hhigh : isHighSurrogate u = false)
    (hlow : isLowSurrogate u = false) :
  Utf8.IsScalar u.toNat
  := by
  have hlt := u.toNat_lt
  simp only [isHighSurrogate, isLowSurrogate, Bool.and_eq_false_iff, decide_eq_false_iff_not,
    UInt16.le_iff_toNat_le, UInt16.reduceToNat] at hhigh hlow
  unfold Utf8.IsScalar
  omega

/-- A pair of surrogates is a character, and what it is decoded as. -/
theorem unitsOf_pairPoint {u v : UInt16} (hhigh : isHighSurrogate u = true)
    (hlow : isLowSurrogate v = true) :
  Utf8.unitsOf (pairPoint u v) = [u, v] ∧ Utf8.IsScalar (pairPoint u v)
  := by
  simp only [isHighSurrogate, isLowSurrogate, Bool.and_eq_true, decide_eq_true_eq,
    UInt16.le_iff_toNat_le, UInt16.reduceToNat] at hhigh hlow
  have hfirst : 0xD800 + (pairPoint u v - 0x10000) / 0x400 % 0x400 = u.toNat := by
    unfold pairPoint
    omega
  have hsecond : 0xDC00 + (pairPoint u v - 0x10000) % 0x400 = v.toNat := by
    unfold pairPoint
    omega
  constructor
  · rw [Utf8.unitsOf, if_neg (by unfold pairPoint; omega), hfirst, hsecond, UInt16.ofNat_toNat,
      UInt16.ofNat_toNat]
  · unfold Utf8.IsScalar pairPoint
    omega

end JsString

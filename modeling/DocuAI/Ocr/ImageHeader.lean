import DocuAI.Library.Loop
import DocuAI.Ocr.FileSignature

/-!
# Image headers

The readers of `FileSignature` with every read checked against the end of the buffer, the loop of
`jpegDimensions` on offsets; and the headers they read, laid out by format.
-/

namespace DocuAI

namespace Checked

/-- A read outside the buffer. -/
structure OutOfBounds where
  offset : ℕ

def byteAt (head : Bytes) (offset : ℕ) : Except OutOfBounds ℕ :=
  match head[offset]? with
  | some byte => .ok byte.toNat
  | none => .error { offset }

/-- `subarray`, which could stop at the end of the buffer, but never has to. -/
def subarray (head : Bytes) (first last : ℕ) : Except OutOfBounds Bytes :=
  if last ≤ head.length then .ok (DocuAI.subarray head first last) else .error { offset := last }

def readUInt16BE (head : Bytes) (offset : ℕ) : Except OutOfBounds ℕ := do
  let high ← byteAt head offset
  let low ← byteAt head (offset + 1)
  return high * 0x100 + low

def readUInt32BE (head : Bytes) (offset : ℕ) : Except OutOfBounds ℕ := do
  let high ← readUInt16BE head offset
  let low ← readUInt16BE head (offset + 2)
  return high * 0x10000 + low

def readUIntLE (head : Bytes) (offset : ℕ) : ℕ → Except OutOfBounds ℕ
  | 0 => .ok 0
  | size + 1 => do
      let low ← byteAt head offset
      let high ← readUIntLE head (offset + 1) size
      return low + 0x100 * high

def pngDimensions (head : Bytes) : Except OutOfBounds (Option ImageDimensions) := do
  if head.length < 24 then return none
  let type ← subarray head 12 16
  if type ≠ latin1 "IHDR" then return none
  let width ← readUInt32BE head 16
  let height ← readUInt32BE head 20
  return valid width height

/-- A round of the loop of `jpegDimensions`. -/
def jpegRound (head : Bytes) (offset : ℕ) :
    Except OutOfBounds (Loop.Round ℕ (Option ImageDimensions)) := do
  if ¬ offset + 9 ≤ head.length then return .done none
  let first ← byteAt head offset
  if first ≠ 0xFF then return .done none
  let marker ← byteAt head (offset + 1)
  if marker = 0xFF then return .next (offset + 1)
  if isStandalone marker then return .next (offset + 2)
  if marker = 0xD9 ∨ marker = 0xDA then return .done none
  let length ← readUInt16BE head (offset + 2)
  if length < 2 then return .done none
  if isSof marker then
    let height ← readUInt16BE head (offset + 5)
    let width ← readUInt16BE head (offset + 7)
    return .done (valid width height)
  return .next (offset + (2 + length))

/-- `jpegDimensions` with at most the given number of rounds of its loop. -/
def jpegDimensions (rounds : ℕ) (head : Bytes) :
    Option (Except OutOfBounds (Option ImageDimensions)) :=
  Loop.run (jpegRound head) rounds 2

def webpDimensions (head : Bytes) : Except OutOfBounds (Option ImageDimensions) := do
  if head.length < 30 then return none
  let chunk ← subarray head 12 16
  if chunk = latin1 "VP8 " then
    let first ← byteAt head 23
    let second ← byteAt head 24
    let third ← byteAt head 25
    if first ≠ 0x9D ∨ second ≠ 0x01 ∨ third ≠ 0x2A then return none
    let width ← readUIntLE head 26 2
    let height ← readUIntLE head 28 2
    return valid (width &&& 0x3FFF) (height &&& 0x3FFF)
  if chunk = latin1 "VP8L" then
    let signature ← byteAt head 20
    if signature ≠ 0x2F then return none
    let bits ← readUIntLE head 21 4
    return valid ((bits &&& 0x3FFF) + 1) ((bits >>> 14 &&& 0x3FFF) + 1)
  if chunk = latin1 "VP8X" then
    let width ← readUIntLE head 24 3
    let height ← readUIntLE head 27 3
    return valid ((width &&& 0xFFFFFF) + 1) ((height &&& 0xFFFFFF) + 1)
  return none

/-- `readImageDimensions`, in at most the given number of rounds of its loop. -/
def readImageDimensions (rounds : ℕ) (format : DetectedFormat) (head : Bytes) :
    Option (Except OutOfBounds (Option ImageDimensions)) :=
  match format with
  | .png => some (pngDimensions head)
  | .jpeg => jpegDimensions rounds head
  | .webp => some (webpDimensions head)
  | .pdf => some (.ok none)

/-! ### Reads within the buffer -/

variable {head : Bytes} {offset : ℕ}

theorem byteAt_of_lt (h : offset < head.length) :
  byteAt head offset = .ok (DocuAI.byteAt head offset)
  := by
  rw [byteAt, DocuAI.byteAt, List.getElem?_eq_getElem h]
  rfl

theorem subarray_of_le {last : ℕ} (first : ℕ) (h : last ≤ head.length) :
  subarray head first last = .ok (DocuAI.subarray head first last)
  := if_pos h

theorem readUInt16BE_of_le (h : offset + 2 ≤ head.length) :
  readUInt16BE head offset = .ok (DocuAI.readUInt16BE head offset)
  := by
  rw [readUInt16BE, byteAt_of_lt (by omega), byteAt_of_lt (by omega)]
  rfl

theorem readUInt32BE_of_le (h : offset + 4 ≤ head.length) :
  readUInt32BE head offset = .ok (DocuAI.readUInt32BE head offset)
  := by
  rw [readUInt32BE, readUInt16BE_of_le (by omega), readUInt16BE_of_le (by omega)]
  rfl

theorem readUIntLE_of_le {size : ℕ} (h : offset + size ≤ head.length) :
  readUIntLE head offset size = .ok (DocuAI.readUIntLE head offset size)
  := by
  induction size generalizing offset with
  | zero => rfl
  | succ size ih =>
      rw [readUIntLE, byteAt_of_lt (by omega), ih (by omega)]
      rfl

theorem pngDimensions_eq (head : Bytes) :
  pngDimensions head = .ok (DocuAI.pngDimensions head)
  := by
  rw [pngDimensions, DocuAI.pngDimensions]
  by_cases hshort : head.length < 24
  · rw [if_pos hshort, if_pos hshort]
    rfl
  · rw [if_neg hshort, if_neg hshort, subarray_of_le 12 (by omega),
      readUInt32BE_of_le (by omega), readUInt32BE_of_le (by omega)]
    simp only [bind, Except.bind, pure, Except.pure, apply_ite Except.ok]

/-- A round of the loop returns what the scan from its offset finds, or goes on at a later offset
from which the scan finds the same. -/
theorem jpegRound_cases (head : Bytes) (offset : ℕ) :
  (∃ next, jpegRound head offset = .ok (.next next)
    ∧ offset + 9 ≤ head.length ∧ offset < next
    ∧ jpegSegments (head.drop next) = jpegSegments (head.drop offset))
  ∨ jpegRound head offset = .ok (.done (jpegSegments (head.drop offset)))
  := by
  rw [jpegRound, jpegSegments_drop]
  by_cases hlong : offset + 9 ≤ head.length
  · rw [byteAt_of_lt (by omega), byteAt_of_lt (by omega), readUInt16BE_of_le (by omega),
      readUInt16BE_of_le (by omega), readUInt16BE_of_le (by omega)]
    simp only [bind, Except.bind, pure, Except.pure, hlong, not_true_eq_false, if_false]
    -- The branches in the order of the source: no marker, a fill byte, a marker that stands alone,
    -- the end of the header, a length that is too small, a frame header, any other segment.
    split
    · exact .inr rfl
    · split
      · exact .inl ⟨offset + 1, rfl, trivial, by omega, rfl⟩
      · split
        · exact .inl ⟨offset + 2, rfl, trivial, by omega, rfl⟩
        · split
          · exact .inr rfl
          · split
            · exact .inr rfl
            · split
              · exact .inr rfl
              · exact .inl ⟨_, rfl, trivial, by omega, rfl⟩
  · right
    simp only [hlong, not_false_eq_true, if_true]
    rfl

/-- The loop of `jpegDimensions` comes to an end within the buffer. -/
theorem jpegDimensions_eq {rounds : ℕ} (head : Bytes) (hrounds : head.length < rounds) :
  jpegDimensions rounds head = some (.ok (DocuAI.jpegDimensions head))
  := by
  have hbody : Loop.Descends (jpegRound head)
      (fun offset => jpegSegments (head.drop offset) = DocuAI.jpegDimensions head)
      (fun offset => head.length - offset) (· = DocuAI.jpegDimensions head) := by
    intro offset hoffset
    rcases jpegRound_cases head offset with ⟨next, hround, hlong, hlt, hnext⟩ | hround
    · exact .inl ⟨next, hround, hnext.trans hoffset, Nat.sub_lt_sub_left (by omega) hlt⟩
    · exact .inr ⟨_, hround, hoffset⟩
  have hstart : jpegSegments (head.drop 2) = DocuAI.jpegDimensions head := rfl
  have hvariant : head.length - 2 < rounds := by omega
  obtain ⟨result, hrun, rfl⟩ := Loop.run_of_descends hbody hstart hvariant
  exact hrun

theorem webpDimensions_eq (head : Bytes) :
  webpDimensions head = .ok (DocuAI.webpDimensions head)
  := by
  rw [webpDimensions, DocuAI.webpDimensions]
  by_cases hshort : head.length < 30
  · rw [if_pos hshort, if_pos hshort]
    rfl
  · rw [if_neg hshort, if_neg hshort, subarray_of_le 12 (by omega), byteAt_of_lt (by omega),
      byteAt_of_lt (by omega), byteAt_of_lt (by omega), byteAt_of_lt (by omega),
      readUIntLE_of_le (by omega), readUIntLE_of_le (by omega), readUIntLE_of_le (by omega),
      readUIntLE_of_le (by omega), readUIntLE_of_le (by omega)]
    have hcode : DocuAI.subarray head 23 26 ≠ [0x9D, 0x01, 0x2A]
        ↔ DocuAI.byteAt head 23 ≠ 0x9D ∨ DocuAI.byteAt head 24 ≠ 0x01
          ∨ DocuAI.byteAt head 25 ≠ 0x2A := by
      rw [subarray_of_lt (by omega) (by omega), subarray_of_lt (by omega) (by omega),
        subarray_of_lt (by omega) (by omega), byteAt_eq_getElem (by omega),
        byteAt_eq_getElem (by omega), byteAt_eq_getElem (by omega), subarray_self]
      simp only [ne_eq, List.cons.injEq, and_true, not_and_or, ← UInt8.toNat_inj]
      rfl
    have hlow : ∀ n : ℕ, n &&& 0x3FFF = n % 0x4000 := fun n =>
      Nat.and_two_pow_sub_one_eq_mod n 14
    have hhigh : ∀ n : ℕ, n >>> 14 = n / 0x4000 := fun n => Nat.shiftRight_eq_div_pow n 14
    have hsize : ∀ offset, DocuAI.readUIntLE head offset 3 &&& 0xFFFFFF
        = DocuAI.readUIntLE head offset 3 := by
      intro offset
      rw [Nat.and_two_pow_sub_one_eq_mod _ 24]
      apply Nat.mod_eq_of_lt
      apply readUIntLE_lt head offset 3
    simp only [bind, Except.bind, pure, Except.pure, hcode, hlow, hhigh, hsize,
      apply_ite Except.ok]

/-- The source reads no byte outside the buffer, and its loop comes to an end. -/
theorem readImageDimensions_eq {rounds : ℕ} (format : DetectedFormat) (head : Bytes)
    (hrounds : head.length < rounds) :
  readImageDimensions rounds format head = some (.ok (DocuAI.readImageDimensions format head))
  := by
  cases format with
  | pdf => rfl
  | jpeg => apply jpegDimensions_eq head hrounds
  | png => apply congrArg some (pngDimensions_eq head)
  | webp => apply congrArg some (webpDimensions_eq head)

end Checked

/-! ### Layouts -/

/-- The four bytes of a number. -/
def uint32Bytes (n : ℕ) : Bytes :=
  uint16Bytes (n / 0x10000) ++ uint16Bytes (n % 0x10000)

/-- The given number of bytes of a number, the low byte first. -/
def uintLEBytes (n : ℕ) : ℕ → Bytes
  | 0 => []
  | size + 1 => UInt8.ofNat (n % 0x100) :: uintLEBytes (n / 0x100) size

/-- Dimensions up to a limit. -/
structure SizeUpTo (limit : ℕ) extends ImageDimensions where
  width_le : 0 < width ∧ width ≤ limit
  height_le : 0 < height ∧ height ≤ limit

/-- What an image header holds, for each layout. In a PNG and in a WebP image `start` is what comes
before the type of the first chunk; of a JPEG image the buffer holds the first `m` bytes, the frame
header up to its width among them. -/
inductive ImageHeader where
  | png (start : Vector UInt8 12) (size : SizeUpTo 0xFFFFFFFF) (rest : Bytes)
  | vp8 (start : Vector UInt8 12) (chunkSize : Vector UInt8 4) (tag : Vector UInt8 3)
      (size : SizeUpTo 0x3FFF) (widthScale heightScale : Fin 4) (rest : Bytes)
  | vp8l (start : Vector UInt8 12) (chunkSize : Vector UInt8 4) (size : SizeUpTo 0x4000)
      (flags : Fin 16) (rest : Bytes)
  | vp8x (start : Vector UInt8 12) (chunkSize flags : Vector UInt8 4)
      (size : SizeUpTo 0x1000000) (rest : Bytes)
  | jpeg (items : List JpegItem) (frame : FrameHeader) (tail : Bytes) (m : ℕ)
      (hm : frameEnd items frame ≤ m)

namespace ImageHeader

def format : ImageHeader → DetectedFormat
  | png .. => .png
  | vp8 .. | vp8l .. | vp8x .. => .webp
  | jpeg .. => .jpeg

def dimensions : ImageHeader → ImageDimensions
  | png _ size _ => size.toImageDimensions
  | vp8 _ _ _ size _ _ _ => size.toImageDimensions
  | vp8l _ _ size _ _ => size.toImageDimensions
  | vp8x _ _ _ size _ => size.toImageDimensions
  | jpeg _ frame _ _ _ => { width := frame.width, height := frame.height }

def bytes : ImageHeader → Bytes
  | png start size rest =>
      start.toList ++ (latin1 "IHDR"
        ++ (uint32Bytes size.width ++ (uint32Bytes size.height ++ rest)))
  | vp8 start chunkSize tag size widthScale heightScale rest =>
      start.toList ++ (latin1 "VP8 " ++ (chunkSize.toList ++ (tag.toList
        ++ ([0x9D, 0x01, 0x2A] ++ (uintLEBytes (size.width + 0x4000 * widthScale) 2
          ++ (uintLEBytes (size.height + 0x4000 * heightScale) 2 ++ rest))))))
  | vp8l start chunkSize size flags rest =>
      start.toList ++ (latin1 "VP8L" ++ (chunkSize.toList ++ ([0x2F]
        ++ (uintLEBytes (size.width - 1 + 0x4000 * (size.height - 1) + 0x10000000 * flags) 4
          ++ rest))))
  | vp8x start chunkSize flags size rest =>
      start.toList ++ (latin1 "VP8X" ++ (chunkSize.toList ++ (flags.toList
        ++ (uintLEBytes (size.width - 1) 3 ++ (uintLEBytes (size.height - 1) 3 ++ rest)))))
  | jpeg items frame tail m _ => (jpegFile items frame tail).take m

end ImageHeader

/-! ### Fields -/

/-- The bytes of a field stand at an offset of the buffer. -/
def FieldAt (head : Bytes) (offset : ℕ) (field : Bytes) : Prop :=
  ∃ rest, head.drop offset = field ++ rest

namespace FieldAt

variable {head field : Bytes} {offset : ℕ}

theorem zero (field rest : Bytes) :
  FieldAt (field ++ rest) 0 field
  := ⟨rest, rfl⟩

theorem after {start : Bytes} {n : ℕ} (hstart : start.length = n)
    (h : FieldAt head offset field) :
  FieldAt (start ++ head) (n + offset) field
  := by
  obtain ⟨rest, hrest⟩ := h
  use rest
  rw [← List.drop_drop, List.drop_left' hstart, hrest]

theorem length_le (h : FieldAt head offset field) (hfield : field ≠ []) :
  offset + field.length ≤ head.length
  := by
  obtain ⟨rest, hrest⟩ := h
  have hlength := congrArg List.length hrest
  rw [List.length_drop, List.length_append] at hlength
  have hpositive := List.length_pos_of_ne_nil hfield
  omega

theorem subarray_eq {n : ℕ} (h : FieldAt head offset field) (hfield : field.length = n) :
  subarray head offset (offset + n) = field
  := by
  obtain ⟨rest, hrest⟩ := h
  rw [subarray, List.drop_take, hrest, Nat.add_sub_cancel_left, List.take_left' hfield]

theorem byteAt_eq {b : UInt8} (h : FieldAt head offset [b]) :
  byteAt head offset = b.toNat
  := by
  obtain ⟨rest, hrest⟩ := h
  rw [← Nat.add_zero offset, ← byteAt_drop, hrest]
  rfl

theorem readUInt32BE_eq {n : ℕ} (h : FieldAt head offset (uint32Bytes n)) (hn : n < 2 ^ 32) :
  readUInt32BE head offset = n
  := by
  obtain ⟨rest, hrest⟩ := h
  have hhigh : readUInt16BE head offset = n / 0x10000 := by
    rw [← Nat.add_zero offset, ← readUInt16BE_drop, hrest, uint32Bytes, List.append_assoc]
    exact readUInt16BE_uint16Bytes (by omega) _
  have hlow : readUInt16BE head (offset + 2) = n % 0x10000 := by
    rw [← readUInt16BE_drop, hrest, uint32Bytes, List.append_assoc]
    exact readUInt16BE_uint16Bytes (by omega) rest
  rw [readUInt32BE, hhigh, hlow]
  omega

theorem readUIntLE_eq {n size : ℕ} (h : FieldAt head offset (uintLEBytes n size))
    (hn : n < 0x100 ^ size) :
  readUIntLE head offset size = n
  := by
  induction size generalizing n offset with
  | zero =>
      rw [readUIntLE]
      omega
  | succ size ih =>
      obtain ⟨rest, hrest⟩ := h
      have hlow : byteAt head offset = n % 0x100 := by
        rw [← Nat.add_zero offset, ← byteAt_drop, hrest]
        exact UInt8.toNat_ofNat_of_lt (Nat.mod_lt n (by decide))
      have hhigh : FieldAt head (offset + 1) (uintLEBytes (n / 0x100) size) := by
        use rest
        rw [← List.drop_drop, hrest]
        rfl
      rw [Nat.pow_succ] at hn
      rw [readUIntLE, hlow, ih hhigh (by omega)]
      omega

end FieldAt

/-! ### Headers -/

theorem length_latin1 (s : String) :
  (latin1 s).length = s.length
  := by
  rw [latin1, List.length_map, String.length_toList]

theorem length_uint32Bytes (n : ℕ) :
  (uint32Bytes n).length = 4
  := rfl

theorem length_uintLEBytes (n size : ℕ) :
  (uintLEBytes n size).length = size
  := by
  induction size generalizing n with
  | zero => rfl
  | succ size ih => rw [uintLEBytes, List.length_cons, ih]

theorem valid_sizeUpTo {limit : ℕ} (size : SizeUpTo limit) :
  valid size.width size.height = some size.toImageDimensions
  := if_pos ⟨size.width_le.1, size.height_le.1⟩

theorem pngDimensions_of_fieldAt {head : Bytes} {size : SizeUpTo 0xFFFFFFFF}
    (htype : FieldAt head 12 (latin1 "IHDR")) (hwidth : FieldAt head 16 (uint32Bytes size.width))
    (hheight : FieldAt head 20 (uint32Bytes size.height)) :
  pngDimensions head = some size.toImageDimensions
  := by
  have hwidthLe := size.width_le.2
  have hheightLe := size.height_le.2
  have hlength := hheight.length_le (List.cons_ne_nil _ _)
  rw [length_uint32Bytes] at hlength
  have hchunk : subarray head 12 16 = latin1 "IHDR" := htype.subarray_eq (length_latin1 _)
  rw [pngDimensions, if_neg (by omega), if_neg (not_not_intro hchunk),
    hwidth.readUInt32BE_eq (by omega), hheight.readUInt32BE_eq (by omega), valid_sizeUpTo]

theorem webpDimensions_of_vp8 {head : Bytes} {size : SizeUpTo 0x3FFF}
    {widthScale heightScale : Fin 4} (htype : FieldAt head 12 (latin1 "VP8 "))
    (hcode : FieldAt head 23 [0x9D, 0x01, 0x2A])
    (hwidth : FieldAt head 26 (uintLEBytes (size.width + 0x4000 * widthScale) 2))
    (hheight : FieldAt head 28 (uintLEBytes (size.height + 0x4000 * heightScale) 2)) :
  webpDimensions head = some size.toImageDimensions
  := by
  have hwidthLe := size.width_le.2
  have hheightLe := size.height_le.2
  have hwidthScale := widthScale.isLt
  have hheightScale := heightScale.isLt
  have hlength := hheight.length_le (List.cons_ne_nil _ _)
  rw [length_uintLEBytes] at hlength
  have hchunk : subarray head 12 16 = latin1 "VP8 " := htype.subarray_eq (length_latin1 _)
  have hstart : subarray head 23 26 = [0x9D, 0x01, 0x2A] := hcode.subarray_eq rfl
  rw [webpDimensions, if_neg (by omega), hchunk, if_pos rfl, if_neg (not_not_intro hstart),
    hwidth.readUIntLE_eq (by omega), hheight.readUIntLE_eq (by omega),
    Nat.add_mul_mod_self_left, Nat.add_mul_mod_self_left, Nat.mod_eq_of_lt (by omega),
    Nat.mod_eq_of_lt (by omega), valid_sizeUpTo]

theorem webpDimensions_of_vp8l {head : Bytes} {size : SizeUpTo 0x4000} {flags : Fin 16}
    (hlength : 30 ≤ head.length) (htype : FieldAt head 12 (latin1 "VP8L"))
    (hsignature : FieldAt head 20 [0x2F])
    (hbits : FieldAt head 21
      (uintLEBytes (size.width - 1 + 0x4000 * (size.height - 1) + 0x10000000 * flags) 4)) :
  webpDimensions head = some size.toImageDimensions
  := by
  have hwidth := size.width_le
  have hheight := size.height_le
  have hflags := flags.isLt
  have hchunk : subarray head 12 16 = latin1 "VP8L" := htype.subarray_eq (length_latin1 _)
  have hread := hbits.readUIntLE_eq (by omega)
  have hlow : readUIntLE head 21 4 % 0x4000 + 1 = size.width := by omega
  have hhigh : readUIntLE head 21 4 / 0x4000 % 0x4000 + 1 = size.height := by omega
  rw [webpDimensions, if_neg (by omega), hchunk, if_neg (by decide), if_pos rfl,
    hsignature.byteAt_eq, if_neg (by decide)]
  change valid (readUIntLE head 21 4 % 0x4000 + 1) (readUIntLE head 21 4 / 0x4000 % 0x4000 + 1) = _
  rw [hlow, hhigh, valid_sizeUpTo]

theorem webpDimensions_of_vp8x {head : Bytes} {size : SizeUpTo 0x1000000}
    (htype : FieldAt head 12 (latin1 "VP8X"))
    (hwidth : FieldAt head 24 (uintLEBytes (size.width - 1) 3))
    (hheight : FieldAt head 27 (uintLEBytes (size.height - 1) 3)) :
  webpDimensions head = some size.toImageDimensions
  := by
  have hwidthLe := size.width_le
  have hheightLe := size.height_le
  have hlength := hheight.length_le (List.cons_ne_nil _ _)
  rw [length_uintLEBytes] at hlength
  have hchunk : subarray head 12 16 = latin1 "VP8X" := htype.subarray_eq (length_latin1 _)
  rw [webpDimensions, if_neg (by omega), hchunk, if_neg (by decide), if_neg (by decide),
    if_pos rfl, hwidth.readUIntLE_eq (by omega), hheight.readUIntLE_eq (by omega),
    Nat.sub_add_cancel hwidthLe.1, Nat.sub_add_cancel hheightLe.1, valid_sizeUpTo]

/-- The type of the first chunk. -/
theorem fieldAt_type (start : Vector UInt8 12) {type : String} (rest : Bytes) :
  FieldAt (start.toList ++ (latin1 type ++ rest)) 12 (latin1 type)
  := .after start.length_toList (.zero _ _)

/-- A field of the first chunk, whose data come after its type and its size. -/
theorem fieldAt_chunk (start : Vector UInt8 12) {type : String} (htype : type.length = 4)
    (chunkSize : Vector UInt8 4) {data field : Bytes} {offset : ℕ} (h : FieldAt data offset field) :
  FieldAt (start.toList ++ (latin1 type ++ (chunkSize.toList ++ data))) (20 + offset) field
  := by
  have hfield : FieldAt (latin1 type ++ (chunkSize.toList ++ data)) (4 + (4 + offset)) field :=
    .after ((length_latin1 type).trans htype) (.after chunkSize.length_toList h)
  have hoffset : 20 + offset = 12 + (4 + (4 + offset)) := by omega
  rw [hoffset]
  exact .after start.length_toList hfield

/-- Of a buffer laid out by its format the size in the header is read. -/
theorem readImageDimensions_bytes (header : ImageHeader) (hlength : 30 ≤ header.bytes.length) :
  readImageDimensions header.format header.bytes = some header.dimensions
  := by
  cases header with
  | png start size rest =>
      apply pngDimensions_of_fieldAt (fieldAt_type start _)
      · exact .after start.length_toList (.after (length_latin1 _) (.zero _ _))
      · exact .after start.length_toList (.after (length_latin1 _)
          (.after (length_uint32Bytes _) (.zero _ _)))
  | vp8 start chunkSize tag size widthScale heightScale rest =>
      apply webpDimensions_of_vp8 (fieldAt_type start _)
      · exact fieldAt_chunk start rfl chunkSize (.after tag.length_toList (.zero _ _))
      · exact fieldAt_chunk start rfl chunkSize (.after tag.length_toList
          (.after (n := 3) rfl (.zero _ _)))
      · exact fieldAt_chunk start rfl chunkSize (.after tag.length_toList
          (.after (n := 3) rfl (.after (length_uintLEBytes _ 2) (.zero _ _))))
  | vp8l start chunkSize size flags rest =>
      apply webpDimensions_of_vp8l hlength (fieldAt_type start _)
      · exact fieldAt_chunk start rfl chunkSize (.zero _ _)
      · exact fieldAt_chunk start rfl chunkSize (.after (n := 1) rfl (.zero _ _))
  | vp8x start chunkSize flags size rest =>
      apply webpDimensions_of_vp8x (fieldAt_type start _)
      · exact fieldAt_chunk start rfl chunkSize (.after flags.length_toList (.zero _ _))
      · exact fieldAt_chunk start rfl chunkSize (.after flags.length_toList
          (.after (length_uintLEBytes _ 3) (.zero _ _)))
  | jpeg items frame tail m hm =>
      change jpegDimensions ((jpegFile items frame tail).take m) = _
      rw [jpegDimensions_take_jpegFile, if_pos hm]
      rfl

/-- For every buffer the source returns, reading nothing outside it, and of a buffer laid out by
its format it returns the size in the header. -/
theorem readImageDimensions_returns :
  (∀ (format : DetectedFormat) (head : Bytes), ∃ dimensions, ∀ rounds, head.length < rounds →
    Checked.readImageDimensions rounds format head = some (.ok dimensions))
  ∧ ∀ header : ImageHeader, 30 ≤ header.bytes.length →
    ∀ rounds, header.bytes.length < rounds →
      Checked.readImageDimensions rounds header.format header.bytes
        = some (.ok (some header.dimensions))
  := by
  constructor
  · intro format head
    use readImageDimensions format head
    intro rounds hrounds
    apply Checked.readImageDimensions_eq format head hrounds
  · intro header hlength rounds hrounds
    rw [Checked.readImageDimensions_eq header.format header.bytes hrounds,
      readImageDimensions_bytes header hlength]

/-- The header of a lossless WebP image of 100 by 50 pixels. -/
def losslessHeader : ImageHeader :=
  .vp8l #v[0x52, 0x49, 0x46, 0x46, 0, 0, 0, 0, 0x57, 0x45, 0x42, 0x50] #v[0, 0, 0, 0]
    { width := 100, height := 50, width_le := by decide, height_le := by decide } 0 [0, 0, 0, 0, 0]

theorem readImageDimensions_lossless :
  Checked.readImageDimensions 31 .webp
      [0x52, 0x49, 0x46, 0x46, 0, 0, 0, 0, 0x57, 0x45, 0x42, 0x50, 0x56, 0x50, 0x38, 0x4C,
        0, 0, 0, 0, 0x2F, 0x63, 0x40, 0x0C, 0, 0, 0, 0, 0, 0]
    = some (.ok (some { width := 100, height := 50 }))
  := by
  have hbytes : losslessHeader.bytes
      = [0x52, 0x49, 0x46, 0x46, 0, 0, 0, 0, 0x57, 0x45, 0x42, 0x50, 0x56, 0x50, 0x38, 0x4C,
        0, 0, 0, 0, 0x2F, 0x63, 0x40, 0x0C, 0, 0, 0, 0, 0, 0] := by decide
  rw [← hbytes]
  exact readImageDimensions_returns.2 losslessHeader (by decide) 31 (by decide)

end DocuAI

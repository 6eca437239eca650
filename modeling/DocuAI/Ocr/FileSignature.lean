import DocuAI.Ocr.Extraction
import DocuAI.Utf8

/-!
# File signatures

Format and pixel dimensions as the bytes at the start of a file tell them.
-/

namespace DocuAI

/-- Bytes needed to detect the format and read image dimensions. -/
def SIGNATURE_PROBE_BYTES : ℕ := 64 * 1024

def PNG_SIGNATURE : Bytes := [0x89, 0x50, 0x4E, 0x47, 0x0D, 0x0A, 0x1A, 0x0A]

/-- The bytes of an ASCII literal. -/
def latin1 (s : String) : Bytes :=
  s.toList.map fun c => UInt8.ofNat c.toNat

/-- `subarray`. -/
def subarray (bytes : Bytes) (first last : ℕ) : Bytes :=
  (bytes.take last).drop first

def detectFormat (head : Bytes) : Option DetectedFormat :=
  if 5 ≤ head.length ∧ subarray head 0 5 = latin1 "%PDF-" then some .pdf
  else if 8 ≤ head.length ∧ subarray head 0 8 = PNG_SIGNATURE then some .png
  else if 3 ≤ head.length ∧ subarray head 0 3 = [0xFF, 0xD8, 0xFF] then some .jpeg
  else if 12 ≤ head.length ∧ subarray head 0 4 = latin1 "RIFF" ∧ subarray head 8 12 = latin1 "WEBP"
  then some .webp
  else none

/-- The byte at an offset within the buffer. -/
def byteAt (bytes : Bytes) (offset : ℕ) : ℕ :=
  (bytes[offset]?.getD 0).toNat

def readUInt16BE (bytes : Bytes) (offset : ℕ) : ℕ :=
  byteAt bytes offset * 0x100 + byteAt bytes (offset + 1)

def readUInt32BE (bytes : Bytes) (offset : ℕ) : ℕ :=
  readUInt16BE bytes offset * 0x10000 + readUInt16BE bytes (offset + 2)

/-- `readUIntLE` of the given number of bytes. -/
def readUIntLE (bytes : Bytes) (offset : ℕ) : ℕ → ℕ
  | 0 => 0
  | size + 1 => byteAt bytes offset + 0x100 * readUIntLE bytes (offset + 1) size

def valid (width height : ℕ) : Option ImageDimensions :=
  if 0 < width ∧ 0 < height then some { width, height } else none

def pngDimensions (head : Bytes) : Option ImageDimensions :=
  if head.length < 24 then none
  else if subarray head 12 16 ≠ latin1 "IHDR" then none
  else valid (readUInt32BE head 16) (readUInt32BE head 20)

/-- Markers without a length field. -/
def isStandalone (marker : ℕ) : Bool :=
  marker == 0xD8 || (0xD0 ≤ marker && marker ≤ 0xD7) || marker == 0x01

/-- Markers of a frame header. -/
def isSof (marker : ℕ) : Bool :=
  0xC0 ≤ marker && marker ≤ 0xCF && marker != 0xC4 && marker != 0xC8 && marker != 0xCC

/-- The loop of `jpegDimensions` on the bytes from `offset` on. -/
def jpegSegments (bytes : Bytes) : Option ImageDimensions :=
  if bytes.length < 9 then none
  else if byteAt bytes 0 ≠ 0xFF then none
  else
    let marker := byteAt bytes 1
    if marker = 0xFF then jpegSegments (bytes.drop 1)
    else if isStandalone marker then jpegSegments (bytes.drop 2)
    else if marker = 0xD9 ∨ marker = 0xDA then none
    else
      let length := readUInt16BE bytes 2
      if length < 2 then none
      else if isSof marker then
        let height := readUInt16BE bytes 5
        let width := readUInt16BE bytes 7
        valid width height
      else jpegSegments (bytes.drop (2 + length))
termination_by bytes.length
decreasing_by
  all_goals rw [List.length_drop]; omega

def jpegDimensions (head : Bytes) : Option ImageDimensions :=
  jpegSegments (head.drop 2)

def webpDimensions (head : Bytes) : Option ImageDimensions :=
  if head.length < 30 then none
  else
    let chunk := subarray head 12 16
    if chunk = latin1 "VP8 " then
      if subarray head 23 26 ≠ [0x9D, 0x01, 0x2A] then none
      else valid (readUIntLE head 26 2 % 0x4000) (readUIntLE head 28 2 % 0x4000)
    else if chunk = latin1 "VP8L" then
      if byteAt head 20 ≠ 0x2F then none
      else
        let bits := readUIntLE head 21 4
        valid (bits % 0x4000 + 1) (bits / 0x4000 % 0x4000 + 1)
    else if chunk = latin1 "VP8X" then
      valid (readUIntLE head 24 3 + 1) (readUIntLE head 27 3 + 1)
    else none

/-- The pixel dimensions in an image header. -/
def readImageDimensions (format : DetectedFormat) (head : Bytes) : Option ImageDimensions :=
  match format with
  | .png => pngDimensions head
  | .jpeg => jpegDimensions head
  | .webp => webpDimensions head
  | .pdf => none

/-- The first bytes of a file. -/
def readHead (file : Bytes) (bytes : ℕ) : Bytes :=
  file.take bytes

/-- What the bytes of a file say of it; the report on a PDF comes from the tools. -/
def probeOf (file : Bytes) (info : Except Thrown PdfInfo) : FileProbe :=
  let head := readHead file SIGNATURE_PROBE_BYTES
  let format := detectFormat head
  { format, dimensions := format.bind (readImageDimensions · head), info }

/-! ### Offsets -/

theorem byteAt_eq_getElem {bytes : Bytes} {offset : ℕ} (h : offset < bytes.length) :
  byteAt bytes offset = bytes[offset].toNat
  := by
  rw [byteAt, List.getElem?_eq_getElem h, Option.getD_some]

theorem subarray_self (bytes : Bytes) (first : ℕ) :
  subarray bytes first first = []
  := by
  rw [subarray, List.drop_eq_nil_of_le (List.length_take_le _ _)]

theorem subarray_of_lt {bytes : Bytes} {first last : ℕ} (h : first < last)
    (hlast : last ≤ bytes.length) :
  subarray bytes first last = bytes[first] :: subarray bytes (first + 1) last
  := by
  have hfirst : first < (bytes.take last).length := by
    rw [List.length_take]
    omega
  rw [subarray, subarray, List.drop_eq_getElem_cons hfirst, List.getElem_take]

theorem readUIntLE_lt (bytes : Bytes) (offset size : ℕ) :
  readUIntLE bytes offset size < 0x100 ^ size
  := by
  induction size generalizing offset with
  | zero => exact Nat.one_pos
  | succ size ih =>
      have hlow : byteAt bytes offset < 0x100 := UInt8.toNat_lt _
      have hhigh := ih (offset + 1)
      rw [readUIntLE, Nat.pow_succ]
      omega

@[simp]
theorem byteAt_drop (bytes : Bytes) (offset i : ℕ) :
  byteAt (bytes.drop offset) i = byteAt bytes (offset + i)
  := by
  rw [byteAt, byteAt, List.getElem?_drop]

@[simp]
theorem readUInt16BE_drop (bytes : Bytes) (offset i : ℕ) :
  readUInt16BE (bytes.drop offset) i = readUInt16BE bytes (offset + i)
  := by
  rw [readUInt16BE, readUInt16BE, byteAt_drop, byteAt_drop, Nat.add_assoc]

/-- A round of the loop of `jpegDimensions` at an offset. -/
theorem jpegSegments_drop (head : Bytes) (offset : ℕ) :
  jpegSegments (head.drop offset)
    = if ¬ offset + 9 ≤ head.length then none
      else if byteAt head offset ≠ 0xFF then none
      else if byteAt head (offset + 1) = 0xFF then jpegSegments (head.drop (offset + 1))
      else if isStandalone (byteAt head (offset + 1)) then jpegSegments (head.drop (offset + 2))
      else if byteAt head (offset + 1) = 0xD9 ∨ byteAt head (offset + 1) = 0xDA then none
      else if readUInt16BE head (offset + 2) < 2 then none
      else if isSof (byteAt head (offset + 1)) then
        valid (readUInt16BE head (offset + 7)) (readUInt16BE head (offset + 5))
      else jpegSegments (head.drop (offset + (2 + readUInt16BE head (offset + 2))))
  := by
  have hshort : head.length - offset < 9 ↔ ¬ offset + 9 ≤ head.length := by omega
  rw [jpegSegments]
  simp only [List.length_drop, hshort, byteAt_drop, Nat.add_zero, readUInt16BE_drop,
    List.drop_drop]

/-! ### JPEG headers -/

/-- What may stand between the start of a JPEG file and its frame header, with fill bytes before
it: a marker that stands alone, or a segment. -/
inductive JpegItem where
  | standalone (fill : ℕ) (marker : UInt8) (h : isStandalone marker.toNat = true)
  | segment (fill : ℕ) (marker : UInt8) (payload : Bytes)
      (hmarker : marker ≠ 0xFF ∧ marker ≠ 0xD9 ∧ marker ≠ 0xDA
        ∧ isStandalone marker.toNat = false ∧ isSof marker.toNat = false)
      (hpayload : payload.length ≤ 65533)

/-- A marker with the fill bytes before it. -/
def markerBytes (fill : ℕ) (marker : UInt8) : Bytes :=
  List.replicate fill 0xFF ++ [0xFF, marker]

/-- The two bytes of a number. -/
def uint16Bytes (n : ℕ) : Bytes :=
  [UInt8.ofNat (n / 0x100), UInt8.ofNat (n % 0x100)]

def JpegItem.bytes : JpegItem → Bytes
  | standalone fill marker _ => markerBytes fill marker
  | segment fill marker payload _ _ =>
      markerBytes fill marker ++ (uint16Bytes (payload.length + 2) ++ payload)

/-- The segment of a frame header. -/
structure FrameHeader where
  fill : ℕ
  marker : UInt8
  isSof : isSof marker.toNat = true
  precision : UInt8
  height : ℕ
  width : ℕ
  height_lt : 0 < height ∧ height < 0x10000
  width_lt : 0 < width ∧ width < 0x10000
  components : Bytes
  components_le : components.length ≤ 65528

def FrameHeader.bytes (frame : FrameHeader) : Bytes :=
  markerBytes frame.fill frame.marker ++ (uint16Bytes (frame.components.length + 7)
    ++ (frame.precision :: uint16Bytes frame.height ++ uint16Bytes frame.width
      ++ frame.components))

theorem readUInt16BE_uint16Bytes {n : ℕ} (h : n < 0x10000) (rest : Bytes) :
  readUInt16BE (uint16Bytes n ++ rest) 0 = n
  := by
  simp only [readUInt16BE, byteAt, uint16Bytes, List.cons_append, List.nil_append,
    List.getElem?_cons_zero, List.getElem?_cons_succ, Option.getD_some, UInt8.toNat_ofNat']
  omega

theorem jpegSegments_of_short {bytes : Bytes} (h : bytes.length < 9) :
  jpegSegments bytes = none
  := by
  rw [jpegSegments, if_pos h]

/-- A fill byte is skipped. -/
theorem jpegSegments_fill (bytes : Bytes) :
  jpegSegments (0xFF :: 0xFF :: bytes) = jpegSegments (0xFF :: bytes)
  := by
  rw [jpegSegments]
  by_cases hshort : (0xFF :: 0xFF :: bytes : Bytes).length < 9
  · rw [if_pos hshort, jpegSegments, if_pos]
    simp only [List.length_cons] at hshort ⊢
    omega
  · rw [if_neg hshort]
    rfl

theorem jpegSegments_replicate (fill : ℕ) (bytes : Bytes) :
  jpegSegments (List.replicate fill 0xFF ++ 0xFF :: bytes) = jpegSegments (0xFF :: bytes)
  := by
  induction fill with
  | zero => rfl
  | succ fill ih =>
      cases fill with
      | zero => exact jpegSegments_fill bytes
      | succ fill =>
          rw [← ih]
          exact jpegSegments_fill _

/-- Fill bytes alone have no dimensions. -/
theorem jpegSegments_of_fill (n : ℕ) :
  jpegSegments (List.replicate n 0xFF) = none
  := by
  cases n with
  | zero => exact jpegSegments_of_short (by decide)
  | succ n =>
      rw [List.replicate_succ', jpegSegments_replicate]
      exact jpegSegments_of_short (by decide)

/-- One round of the loop at a marker. -/
theorem jpegSegments_marker {marker : UInt8} (hmarker : marker ≠ 0xFF) (fill : ℕ) (rest : Bytes) :
  jpegSegments (markerBytes fill marker ++ rest)
    = if rest.length < 7 then none
      else if isStandalone marker.toNat then jpegSegments rest
      else if marker.toNat = 0xD9 ∨ marker.toNat = 0xDA then none
      else if readUInt16BE rest 0 < 2 then none
      else if isSof marker.toNat then valid (readUInt16BE rest 5) (readUInt16BE rest 3)
      else jpegSegments (rest.drop (readUInt16BE rest 0))
  := by
  have hnot : marker.toNat ≠ 0xFF := fun h => hmarker (UInt8.toNat_inj.mp h)
  rw [markerBytes, List.append_assoc, List.cons_append, List.cons_append, List.nil_append,
    jpegSegments_replicate]
  by_cases hshort : rest.length < 7
  · rw [if_pos hshort, jpegSegments_of_short]
    simp only [List.length_cons]
    omega
  · have hlong : ¬ (0xFF :: marker :: rest : Bytes).length < 9 := by
      simp only [List.length_cons]
      omega
    have hfirst : byteAt (0xFF :: marker :: rest) 0 = 0xFF := rfl
    have hsecond : byteAt (0xFF :: marker :: rest) 1 = marker.toNat := rfl
    have hlength : readUInt16BE (0xFF :: marker :: rest) 2 = readUInt16BE rest 0 := rfl
    have hheight : readUInt16BE (0xFF :: marker :: rest) 5 = readUInt16BE rest 3 := rfl
    have hwidth : readUInt16BE (0xFF :: marker :: rest) 7 = readUInt16BE rest 5 := rfl
    rw [if_neg hshort, jpegSegments, if_neg hlong, hfirst, if_neg (not_not_intro rfl)]
    simp only [hsecond, if_neg hnot, hlength, hheight, hwidth, Nat.add_comm 2,
      List.drop_succ_cons, List.drop_zero]

theorem length_markerBytes (fill : ℕ) (marker : UInt8) :
  (markerBytes fill marker).length = fill + 2
  := by
  simp [markerBytes]

/-- A file that ends before the marker has no dimensions. -/
theorem jpegSegments_take_markerBytes {m fill : ℕ} (hm : m ≤ fill + 1) (marker : UInt8)
    (rest : Bytes) :
  jpegSegments ((markerBytes fill marker ++ rest).take m) = none
  := by
  have htake : (markerBytes fill marker ++ rest).take m = List.replicate m 0xFF := by
    have hbytes : markerBytes fill marker ++ rest
        = List.replicate (fill + 1) 0xFF ++ marker :: rest := by
      simp [markerBytes, List.replicate_succ']
    rw [hbytes, List.take_append_of_le_length (by simpa using hm), List.take_replicate,
      Nat.min_eq_left hm]
  rw [htake]
  apply jpegSegments_of_fill

theorem take_markerBytes (fill : ℕ) (marker : UInt8) (rest : Bytes) (n : ℕ) :
  (markerBytes fill marker ++ rest).take (fill + 2 + n) = markerBytes fill marker ++ rest.take n
  := by
  rw [← length_markerBytes fill marker, List.take_length_add_append]

/-- A marker that stands alone is skipped. -/
theorem jpegSegments_standalone {marker : UInt8} (hstandalone : isStandalone marker.toNat = true)
    (fill : ℕ) (rest : Bytes) :
  jpegSegments (markerBytes fill marker ++ rest) = jpegSegments rest
  := by
  have hmarker : marker ≠ 0xFF := by
    rintro rfl
    exact absurd hstandalone (by decide)
  rw [jpegSegments_marker hmarker, if_pos hstandalone]
  split
  · rw [jpegSegments_of_short (by omega)]
  · rfl

/-- A segment that is no frame header is skipped by its length. -/
theorem jpegSegments_segment {marker : UInt8}
    (hmarker : marker ≠ 0xFF ∧ marker ≠ 0xD9 ∧ marker ≠ 0xDA
      ∧ isStandalone marker.toNat = false ∧ isSof marker.toNat = false)
    (fill : ℕ) {rest : Bytes} {length : ℕ} (hrest : readUInt16BE rest 0 = length)
    (hlength : 2 ≤ length) :
  jpegSegments (markerBytes fill marker ++ rest) = jpegSegments (rest.drop length)
  := by
  obtain ⟨hfill, heoi, hsos, hstandalone, hsof⟩ := hmarker
  have hend : ¬ (marker.toNat = 0xD9 ∨ marker.toNat = 0xDA) := by
    rintro (h | h)
    · exact heoi (UInt8.toNat_inj.mp h)
    · exact hsos (UInt8.toNat_inj.mp h)
  rw [jpegSegments_marker hfill, hstandalone, hsof, hrest, if_neg Bool.false_ne_true, if_neg hend,
    if_neg (Nat.not_lt.mpr hlength), if_neg Bool.false_ne_true]
  split
  · rw [jpegSegments_of_short]
    rw [List.length_drop]
    omega
  · rfl

theorem ne_fill_of_isSof {marker : UInt8} (hsof : isSof marker.toNat = true) :
  marker ≠ 0xFF
  := by
  rintro rfl
  exact absurd hsof (by decide)

/-- A frame header tells the dimensions. -/
theorem jpegSegments_sof {marker : UInt8} (hsof : isSof marker.toNat = true) (fill : ℕ)
    {rest : Bytes} (hrest : 7 ≤ rest.length) (hlength : 2 ≤ readUInt16BE rest 0) :
  jpegSegments (markerBytes fill marker ++ rest)
    = valid (readUInt16BE rest 5) (readUInt16BE rest 3)
  := by
  have hbound : 0xC0 ≤ marker.toNat ∧ marker.toNat ≤ 0xCF := by
    simp only [isSof, Bool.and_eq_true, decide_eq_true_eq] at hsof
    omega
  have hstandalone : isStandalone marker.toNat = false := by
    simp only [isStandalone, Bool.or_eq_false_iff, Bool.and_eq_false_iff, beq_eq_false_iff_ne,
      decide_eq_false_iff_not]
    omega
  rw [jpegSegments_marker (ne_fill_of_isSof hsof), hstandalone, hsof, if_neg (by omega),
    if_neg Bool.false_ne_true, if_neg (by omega), if_neg (by omega), if_pos rfl]

theorem take_uint16Bytes (n k : ℕ) (rest : Bytes) :
  (uint16Bytes n ++ rest).take (2 + k) = uint16Bytes n ++ rest.take k
  := by
  change (uint16Bytes n ++ rest).take ((uint16Bytes n).length + k) = _
  rw [List.take_length_add_append]

/-- A marker that stands alone and a segment that is no frame header are skipped. -/
theorem jpegSegments_item (item : JpegItem) (rest : Bytes) :
  jpegSegments (item.bytes ++ rest) = jpegSegments rest
  := by
  cases item with
  | standalone fill marker hstandalone => apply jpegSegments_standalone hstandalone
  | segment fill marker payload hmarker hpayload =>
      have hlength : readUInt16BE (uint16Bytes (payload.length + 2) ++ payload ++ rest) 0
          = payload.length + 2 := by
        rw [List.append_assoc, readUInt16BE_uint16Bytes (by omega)]
      have hdrop : (uint16Bytes (payload.length + 2) ++ payload ++ rest).drop (payload.length + 2)
          = rest := by
        rw [List.drop_left']
        simp only [List.length_append, uint16Bytes, List.length_cons, List.length_nil]
        omega
      rw [JpegItem.bytes, List.append_assoc, jpegSegments_segment hmarker fill hlength (by omega),
        hdrop]

/-- A file that ends within an item has no dimensions. -/
theorem jpegSegments_take_item (item : JpegItem) {m : ℕ} (hm : m < item.bytes.length) :
  jpegSegments (item.bytes.take m) = none
  := by
  cases item with
  | standalone fill marker hstandalone =>
      rw [JpegItem.bytes, length_markerBytes] at hm
      have htake := jpegSegments_take_markerBytes (Nat.le_of_lt_succ hm) marker []
      rwa [List.append_nil] at htake
  | segment fill marker payload hmarker hpayload =>
      rw [JpegItem.bytes] at hm ⊢
      by_cases hstart : m ≤ fill + 1
      · exact jpegSegments_take_markerBytes hstart marker _
      · obtain ⟨n, rfl⟩ : ∃ n, m = fill + 2 + n := ⟨m - (fill + 2), by omega⟩
        rw [take_markerBytes]
        by_cases hshort : n < 2
        · rw [jpegSegments_marker hmarker.1, if_pos]
          rw [List.length_take]
          omega
        · obtain ⟨k, rfl⟩ : ∃ k, n = 2 + k := ⟨n - 2, by omega⟩
          have hlength : readUInt16BE ((uint16Bytes (payload.length + 2) ++ payload).take (2 + k)) 0
              = payload.length + 2 := by
            rw [take_uint16Bytes, readUInt16BE_uint16Bytes (by omega)]
          rw [jpegSegments_segment hmarker fill hlength (by omega)]
          apply jpegSegments_of_short
          rw [List.length_append, length_markerBytes] at hm
          simp only [List.length_drop, List.length_take, List.length_append, uint16Bytes,
            List.length_cons, List.length_nil] at hm ⊢
          omega

/-- The frame header tells the dimensions when its first nine bytes, after the fill bytes, are
there. -/
theorem jpegSegments_take_frame (frame : FrameHeader) (tail : Bytes) (m : ℕ) :
  jpegSegments ((frame.bytes ++ tail).take m)
    = if frame.fill + 9 ≤ m then some { width := frame.width, height := frame.height } else none
  := by
  rw [FrameHeader.bytes, List.append_assoc]
  by_cases hshort : m ≤ frame.fill + 1
  · rw [jpegSegments_take_markerBytes hshort, if_neg (by omega)]
  · obtain ⟨n, rfl⟩ : ∃ n, m = frame.fill + 2 + n := ⟨m - (frame.fill + 2), by omega⟩
    rw [take_markerBytes]
    by_cases hn : n < 7
    · rw [jpegSegments_marker (ne_fill_of_isSof frame.isSof), if_pos, if_neg (by omega)]
      rw [List.length_take]
      omega
    · obtain ⟨k, rfl⟩ : ∃ k, n = 2 + (2 + (2 + k) + 1) := ⟨n - 7, by omega⟩
      have hcomponents := frame.components_le
      have htake : ((uint16Bytes (frame.components.length + 7)
            ++ (frame.precision :: uint16Bytes frame.height ++ uint16Bytes frame.width
              ++ frame.components)) ++ tail).take (2 + (2 + (2 + k) + 1))
          = uint16Bytes (frame.components.length + 7) ++ (frame.precision
            :: (uint16Bytes frame.height ++ (uint16Bytes frame.width
              ++ (frame.components ++ tail).take k))) := by
        simp only [List.append_assoc, List.cons_append, take_uint16Bytes, List.take_succ_cons]
      rw [htake]
      generalize (frame.components ++ tail).take k = rest
      have hlength : readUInt16BE (uint16Bytes (frame.components.length + 7) ++ (frame.precision
          :: (uint16Bytes frame.height ++ (uint16Bytes frame.width ++ rest)))) 0
          = frame.components.length + 7 := readUInt16BE_uint16Bytes (by omega) _
      have hheight : readUInt16BE (uint16Bytes (frame.components.length + 7) ++ (frame.precision
          :: (uint16Bytes frame.height ++ (uint16Bytes frame.width ++ rest)))) 3 = frame.height :=
        readUInt16BE_uint16Bytes frame.height_lt.2 (uint16Bytes frame.width ++ rest)
      have hwidth : readUInt16BE (uint16Bytes (frame.components.length + 7) ++ (frame.precision
          :: (uint16Bytes frame.height ++ (uint16Bytes frame.width ++ rest)))) 5 = frame.width :=
        readUInt16BE_uint16Bytes frame.width_lt.2 rest
      rw [jpegSegments_sof frame.isSof frame.fill _ (by omega), hheight, hwidth, valid,
        if_pos ⟨frame.width_lt.1, frame.height_lt.1⟩, if_pos (by omega)]
      simp only [List.length_append, uint16Bytes, List.length_cons, List.length_nil]
      omega

/-! ### Files -/

/-- A JPEG file up to its frame header, and what follows it. -/
def jpegFile (items : List JpegItem) (frame : FrameHeader) (tail : Bytes) : Bytes :=
  0xFF :: 0xD8 :: (items.flatMap JpegItem.bytes ++ (frame.bytes ++ tail))

/-- The scan of the first bytes of a file reaches the frame header when it is among them. -/
theorem jpegSegments_take_items (items : List JpegItem) (frame : FrameHeader) (tail : Bytes)
    (m : ℕ) :
  jpegSegments ((items.flatMap JpegItem.bytes ++ (frame.bytes ++ tail)).take m)
    = if (items.flatMap JpegItem.bytes).length + frame.fill + 9 ≤ m
      then some { width := frame.width, height := frame.height } else none
  := by
  induction items generalizing m with
  | nil =>
      rw [List.flatMap_nil, List.nil_append, jpegSegments_take_frame, List.length_nil,
        Nat.zero_add]
  | cons item items ih =>
      rw [List.flatMap_cons, List.append_assoc, List.length_append]
      by_cases hm : m < item.bytes.length
      · rw [List.take_append_of_le_length hm.le, jpegSegments_take_item item hm,
          if_neg (by omega)]
      · obtain ⟨n, rfl⟩ : ∃ n, m = item.bytes.length + n := ⟨m - item.bytes.length, by omega⟩
        rw [List.take_length_add_append, jpegSegments_item, ih n]
        congr 1
        rw [eq_iff_iff]
        omega

theorem detectFormat_jpeg (rest : Bytes) :
  detectFormat (0xFF :: 0xD8 :: 0xFF :: rest) = some .jpeg
  := by
  have hpdf : latin1 "%PDF-" = [0x25, 0x50, 0x44, 0x46, 0x2D] := by decide
  have hnot : ∀ n, subarray (0xFF :: 0xD8 :: 0xFF :: rest) 0 (n + 1)
      = 0xFF :: subarray (0xD8 :: 0xFF :: rest) 0 n := fun _ => rfl
  rw [detectFormat, hnot 4, hpdf, hnot 7, PNG_SIGNATURE, if_neg (by simp), if_neg (by simp),
    if_pos]
  exact ⟨by simp, rfl⟩

theorem exists_markerBytes (fill : ℕ) (marker : UInt8) (rest : Bytes) :
  ∃ bytes, markerBytes fill marker ++ rest = 0xFF :: bytes
  := by
  cases fill with
  | zero => exact ⟨marker :: rest, rfl⟩
  | succ fill => exact ⟨markerBytes fill marker ++ rest, rfl⟩

/-- After the start of the file comes a marker. -/
theorem exists_jpegFile (items : List JpegItem) (frame : FrameHeader) (tail : Bytes) :
  ∃ bytes, items.flatMap JpegItem.bytes ++ (frame.bytes ++ tail) = 0xFF :: bytes
  := by
  cases items with
  | nil =>
      rw [List.flatMap_nil, List.nil_append, FrameHeader.bytes, List.append_assoc]
      apply exists_markerBytes
  | cons item items =>
      rw [List.flatMap_cons, List.append_assoc]
      cases item with
      | standalone fill marker _ => apply exists_markerBytes
      | segment fill marker payload _ _ =>
          rw [JpegItem.bytes, List.append_assoc]
          apply exists_markerBytes

/-- The bytes from the start of the file to the height and width in the frame header, inclusive. -/
def frameEnd (items : List JpegItem) (frame : FrameHeader) : ℕ :=
  2 + (items.flatMap JpegItem.bytes).length + frame.fill + 9

/-- The first bytes of a JPEG file tell its dimensions when the frame header is among them. -/
theorem jpegDimensions_take_jpegFile (items : List JpegItem) (frame : FrameHeader) (tail : Bytes)
    (m : ℕ) :
  jpegDimensions ((jpegFile items frame tail).take m)
    = if frameEnd items frame ≤ m
      then some { width := frame.width, height := frame.height } else none
  := by
  rw [jpegDimensions, List.drop_take]
  change jpegSegments ((items.flatMap JpegItem.bytes ++ (frame.bytes ++ tail)).take (m - 2)) = _
  rw [jpegSegments_take_items]
  congr 1
  rw [frameEnd, eq_iff_iff]
  omega

/-- A file is probed as a JPEG, with its dimensions when the frame header is within the bytes that
are read. -/
theorem probeOf_jpegFile (items : List JpegItem) (frame : FrameHeader) (tail : Bytes)
    (info : Except Thrown PdfInfo) :
  (probeOf (jpegFile items frame tail) info).format = some .jpeg
  ∧ (probeOf (jpegFile items frame tail) info).dimensions
    = if frameEnd items frame ≤ SIGNATURE_PROBE_BYTES
      then some { width := frame.width, height := frame.height } else none
  := by
  have hhead : readHead (jpegFile items frame tail) SIGNATURE_PROBE_BYTES
      = 0xFF :: 0xD8 :: (items.flatMap JpegItem.bytes ++ (frame.bytes ++ tail)).take 65534 := rfl
  have hformat : detectFormat (readHead (jpegFile items frame tail) SIGNATURE_PROBE_BYTES)
      = some .jpeg := by
    obtain ⟨bytes, hbytes⟩ := exists_jpegFile items frame tail
    rw [hhead, hbytes]
    apply detectFormat_jpeg
  refine ⟨hformat, ?_⟩
  have hdimensions : (probeOf (jpegFile items frame tail) info).dimensions
      = jpegDimensions (readHead (jpegFile items frame tail) SIGNATURE_PROBE_BYTES) := by
    simp only [probeOf, hformat, Option.bind_some, readImageDimensions]
  rw [hdimensions, readHead, jpegDimensions_take_jpegFile]

/-- An image of the declared type passes the inspection when it has few enough pixels. -/
theorem inspect_image {config : OcrConfig} {expectedMimeType : Option JsString} {probe : FileProbe}
    {format : DetectedFormat} {dimensions : ImageDimensions} (hformat : probe.format = some format)
    (himage : format ≠ .pdf) (hdimensions : probe.dimensions = some dimensions)
    (hexpected : expectedMimeType = none ∨ expectedMimeType = some (mimeOf format)) :
  (∃ inspected, inspect config expectedMimeType probe = .ok inspected)
    ↔ dimensions.width * dimensions.height ≤ config.limits.maxImagePixels
  := by
  by_cases hlarge : config.limits.maxImagePixels < dimensions.width * dimensions.height
  · rcases hexpected with rfl | rfl <;>
      simp [inspect, hformat, himage, hdimensions, hlarge, bind, Except.bind, throw, throwThe,
        MonadExceptOf.throw, Nat.not_le.mpr hlarge]
  · rcases hexpected with rfl | rfl <;>
      simp [inspect, hformat, himage, hdimensions, hlarge, pure, Except.pure, Nat.not_lt.mp hlarge]

/-- An image whose dimensions were read is not called invalid. -/
theorem code_of_inspect_image {config : OcrConfig} {expectedMimeType : Option JsString}
    {probe : FileProbe} {format : DetectedFormat} {dimensions : ImageDimensions}
    (hformat : probe.format = some format) (himage : format ≠ .pdf)
    (hdimensions : probe.dimensions = some dimensions) {error : OcrProcessingError}
    (h : inspect config expectedMimeType probe = .error (.processing error)) :
  error.code ≠ .OCR_INVALID_FILE
  := by
  simp only [inspect, hformat, himage, hdimensions, bind, Except.bind, pure, Except.pure, throw,
    throwThe, MonadExceptOf.throw, if_false] at h
  split at h
  · split at h
    · obtain rfl := Thrown.processing.inj (Except.error.inj h)
      exact (by decide : OcrErrorCode.OCR_UNSUPPORTED_FILE_TYPE ≠ .OCR_INVALID_FILE)
    · split at h
      · obtain rfl := Thrown.processing.inj (Except.error.inj h)
        exact (by decide : OcrErrorCode.OCR_PAGE_TOO_LARGE ≠ .OCR_INVALID_FILE)
      · cases h
  · split at h
    · obtain rfl := Thrown.processing.inj (Except.error.inj h)
      exact (by decide : OcrErrorCode.OCR_PAGE_TOO_LARGE ≠ .OCR_INVALID_FILE)
    · cases h

/-- A JPEG file is measured: its dimensions are read, it is accepted exactly when it has few enough
pixels, unless another type was declared, and it is not called invalid. -/
structure Measured (config : OcrConfig) (expectedMimeType : Option JsString) (file : Bytes)
    (info : Except Thrown PdfInfo) (width height : ℕ) : Prop where
  dimensions : (probeOf file info).dimensions = some { width, height }
  accepted : expectedMimeType = none ∨ expectedMimeType = some (mimeOf .jpeg) →
    ((∃ inspected, inspect config expectedMimeType (probeOf file info) = .ok inspected)
      ↔ width * height ≤ config.limits.maxImagePixels)
  valid : ∀ error, inspect config expectedMimeType (probeOf file info)
    = .error (.processing error) → error.code ≠ .OCR_INVALID_FILE

/-- A well-formed JPEG file is measured exactly when the dimensions in its frame header are within
the bytes that are read. -/
theorem measured_iff (config : OcrConfig) (expectedMimeType : Option JsString)
    (items : List JpegItem) (frame : FrameHeader) (tail : Bytes) (info : Except Thrown PdfInfo) :
  Measured config expectedMimeType (jpegFile items frame tail) info frame.width frame.height
    ↔ frameEnd items frame ≤ SIGNATURE_PROBE_BYTES
  := by
  obtain ⟨hformat, hdimensions⟩ := probeOf_jpegFile items frame tail info
  have himage : DetectedFormat.jpeg ≠ .pdf := by decide
  by_cases hend : frameEnd items frame ≤ SIGNATURE_PROBE_BYTES
  · rw [if_pos hend] at hdimensions
    refine iff_of_true ⟨hdimensions, ?_, ?_⟩ hend
    · intro hexpected
      exact inspect_image hformat himage hdimensions hexpected
    · intro error herror
      exact code_of_inspect_image hformat himage hdimensions herror
  · rw [if_neg hend] at hdimensions
    refine iff_of_false ?_ hend
    intro h
    exact absurd (hdimensions.symm.trans h.dimensions) (by simp)

/-- A colour profile as large as a segment can be. -/
def largeProfile : JpegItem :=
  .segment 0 0xE2 (List.replicate 65533 0) (by decide) (Nat.le_of_eq List.length_replicate)

theorem length_largeProfile :
  largeProfile.bytes.length = 65537
  := by
  rw [largeProfile, JpegItem.bytes, List.length_append, List.length_append, length_markerBytes,
    List.length_replicate, uint16Bytes, List.length_cons, List.length_cons, List.length_nil]

/-- The frame header of an image of eight by six pixels. -/
def smallFrame : FrameHeader where
  fill := 0
  marker := 0xC0
  isSof := by decide
  precision := 8
  height := 6
  width := 8
  height_lt := by decide
  width_lt := by decide
  components := []
  components_le := by decide

/-- A valid image of 48 pixels is called invalid when its frame header comes after a large
segment. -/
theorem not_measured_of_largeProfile :
  ¬ ∀ (config : OcrConfig) (expectedMimeType : Option JsString) (items : List JpegItem)
      (frame : FrameHeader) (tail : Bytes) (info : Except Thrown PdfInfo),
    Measured config expectedMimeType (jpegFile items frame tail) info frame.width frame.height
  := by
  intro h
  have hmeasured := h defaultOcrConfig none [largeProfile] smallFrame [] (.error (.other []))
  have hdimensions := (probeOf_jpegFile [largeProfile] smallFrame [] (.error (.other []))).2
  have hend : ¬ frameEnd [largeProfile] smallFrame ≤ SIGNATURE_PROBE_BYTES := by
    rw [frameEnd, List.flatMap_cons, List.flatMap_nil, List.append_nil, length_largeProfile,
      SIGNATURE_PROBE_BYTES]
    omega
  rw [if_neg hend] at hdimensions
  exact absurd (hdimensions.symm.trans hmeasured.dimensions) (by simp)

end DocuAI

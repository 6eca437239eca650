import Mathlib.Algebra.Group.Nat.Defs
import DocuAI.JsString

/-!
# Decoding UTF-8

`Buffer.toString('utf8')`: every maximal part of a character that never becomes one is decoded as
the replacement character.  What was encoded is decoded as it was.
-/

/-- The contents of a buffer. -/
abbrev Bytes := List UInt8

namespace Utf8

/-- The replacement character. -/
def replacement : UInt16 := 0xFFFD

/-- The form feed `\f`, as a byte. -/
def formFeedByte : UInt8 := 0x0C

/-- The form feed `\f`. -/
def formFeed : UInt16 := 0x0C

/-- A character of which some bytes were read: the bits read so far, the number of bytes that are
missing, and the bounds of the next one. -/
structure Pending where
  bits : ℕ
  missing : ℕ
  lower : UInt8
  upper : UInt8
  deriving DecidableEq

/-- The code units of a code point. -/
def unitsOf (n : ℕ) : JsString :=
  if n < 0x10000 then [UInt16.ofNat n]
  else
    [UInt16.ofNat (0xD800 + (n - 0x10000) / 0x400 % 0x400),
      UInt16.ofNat (0xDC00 + (n - 0x10000) % 0x400)]

/-- What the first byte of a character decodes to, and what is pending after it. -/
def lead (byte : UInt8) : JsString × Option Pending :=
  if byte ≤ 0x7F then (unitsOf byte.toNat, none)
  else if 0xC2 ≤ byte ∧ byte ≤ 0xDF then
    ([], some { bits := byte.toNat - 0xC0, missing := 1, lower := 0x80, upper := 0xBF })
  else if 0xE0 ≤ byte ∧ byte ≤ 0xEF then
    ([], some {
      bits := byte.toNat - 0xE0, missing := 2
      lower := if byte = 0xE0 then 0xA0 else 0x80
      upper := if byte = 0xED then 0x9F else 0xBF })
  else if 0xF0 ≤ byte ∧ byte ≤ 0xF4 then
    ([], some {
      bits := byte.toNat - 0xF0, missing := 3
      lower := if byte = 0xF0 then 0x90 else 0x80
      upper := if byte = 0xF4 then 0x8F else 0xBF })
  else ([replacement], none)

/-- What one byte decodes to, and what is pending after it.  A byte that does not continue the
pending character starts the next one. -/
def step : Option Pending → UInt8 → JsString × Option Pending
  | none, byte => lead byte
  | some pending, byte =>
      if pending.lower ≤ byte ∧ byte ≤ pending.upper then
        let bits := pending.bits * 0x40 + (byte.toNat - 0x80)
        if pending.missing = 1 then (unitsOf bits, none)
        else
          ([], some { bits, missing := pending.missing - 1, lower := 0x80, upper := 0xBF })
      else (replacement :: (lead byte).1, (lead byte).2)

/-- The bytes after those that are pending, decoded. -/
def decodeAfter : Option Pending → Bytes → JsString
  | none, [] => []
  | some _, [] => [replacement]
  | pending, byte :: rest => (step pending byte).1 ++ decodeAfter (step pending byte).2 rest

/-- `toString('utf8')`. -/
def decode (bytes : Bytes) : JsString :=
  decodeAfter none bytes

/-- However a pending character goes on, it is a code point beyond ASCII. -/
structure Pending.Valid (pending : Pending) : Prop where
  missing_pos : 1 ≤ pending.missing
  lower : 0x80 ≤ pending.lower.toNat
  least : 0x80 ≤ (pending.bits * 0x40 + (pending.lower.toNat - 0x80)) * 0x40 ^ (pending.missing - 1)

theorem formFeed_not_mem_unitsOf {n : ℕ} (h : 0x80 ≤ n) :
  formFeed ∉ unitsOf n
  := by
  unfold unitsOf formFeed
  split
  · rw [List.mem_singleton, ← UInt16.toNat_inj, UInt16.toNat_ofNat']
    simp only [UInt16.reduceToNat]
    omega
  · simp only [List.mem_cons, List.not_mem_nil, or_false, ← UInt16.toNat_inj,
      UInt16.toNat_ofNat', UInt16.reduceToNat]
    omega

/-- The first byte of a character decodes to a form feed only when it is one, and leaves a pending
character valid. -/
theorem lead_spec {byte : UInt8} (h : byte ≠ formFeedByte) :
  formFeed ∉ (lead byte).1 ∧ ∀ pending, (lead byte).2 = some pending → pending.Valid
  := by
  simp only [lead]
  split
  · rename_i hle
    refine ⟨?_, by simp⟩
    simp only [formFeedByte, ne_eq, ← UInt8.toNat_inj, UInt8.le_iff_toNat_le,
      UInt8.reduceToNat] at h hle
    unfold unitsOf formFeed
    rw [if_pos (by omega), List.mem_singleton, ← UInt16.toNat_inj, UInt16.toNat_ofNat']
    simp only [UInt16.reduceToNat]
    omega
  · split
    · rename_i hlong
      refine ⟨by simp, ?_⟩
      rintro pending heq
      obtain rfl := Option.some.inj heq
      simp only [UInt8.le_iff_toNat_le, UInt8.reduceToNat] at hlong
      constructor
      · exact Nat.le_refl 1
      · exact Nat.le_refl 0x80
      · simp only [UInt8.reduceToNat]
        omega
    · split
      · rename_i hlong
        refine ⟨by simp, ?_⟩
        rintro pending heq
        obtain rfl := Option.some.inj heq
        simp only [UInt8.le_iff_toNat_le, UInt8.reduceToNat] at hlong
        by_cases hfirst : byte = 0xE0
        · subst hfirst
          exact ⟨by decide, by decide, by decide⟩
        · simp only [if_neg hfirst]
          simp only [← UInt8.toNat_inj, UInt8.reduceToNat] at hfirst
          constructor
          · exact Nat.le_succ 1
          · exact Nat.le_refl 0x80
          · simp only [UInt8.reduceToNat]
            omega
      · split
        · rename_i hlong
          refine ⟨by simp, ?_⟩
          rintro pending heq
          obtain rfl := Option.some.inj heq
          simp only [UInt8.le_iff_toNat_le, UInt8.reduceToNat] at hlong
          by_cases hfirst : byte = 0xF0
          · subst hfirst
            exact ⟨by decide, by decide, by decide⟩
          · simp only [if_neg hfirst]
            simp only [← UInt8.toNat_inj, UInt8.reduceToNat] at hfirst
            constructor
            · simp
            · exact Nat.le_refl 0x80
            · simp only [UInt8.reduceToNat]
              omega
        · exact ⟨by decide, by simp⟩

/-- A byte that is no form feed decodes to none, whatever is pending. -/
theorem step_spec {pending : Option Pending} {byte : UInt8}
    (hvalid : ∀ p, pending = some p → p.Valid) (h : byte ≠ formFeedByte) :
  formFeed ∉ (step pending byte).1 ∧ ∀ p, (step pending byte).2 = some p → p.Valid
  := by
  cases pending with
  | none => apply lead_spec h
  | some pending =>
      obtain ⟨hmissing, hlower, hleast⟩ := hvalid pending rfl
      simp only [step]
      split
      · rename_i hbyte
        -- the bytes read so far are at least those that were counted on
        have hbits : pending.bits * 0x40 + (pending.lower.toNat - 0x80)
            ≤ pending.bits * 0x40 + (byte.toNat - 0x80) := by
          rw [UInt8.le_iff_toNat_le] at hbyte
          omega
        have hnext := hleast.trans (Nat.mul_le_mul_right (0x40 ^ (pending.missing - 1)) hbits)
        split
        · rename_i hone
          rw [hone, Nat.sub_self, Nat.pow_zero, Nat.mul_one] at hnext
          have hnot := formFeed_not_mem_unitsOf hnext
          simp only
          exact ⟨hnot, by simp⟩
        · rename_i hone
          refine ⟨by simp, ?_⟩
          rintro p heq
          obtain rfl := Option.some.inj heq
          have hpow : pending.missing - 1 = pending.missing - 1 - 1 + 1 := by omega
          constructor
          · simp only
            omega
          · exact Nat.le_refl 0x80
          · rw [hpow, Nat.pow_succ, Nat.mul_comm (0x40 ^ _), ← Nat.mul_assoc] at hnext
            simpa using hnext
      · obtain ⟨hnot, hpending⟩ := lead_spec h
        refine ⟨?_, hpending⟩
        rw [List.mem_cons, not_or]
        exact ⟨by decide, hnot⟩

/-- A form feed ends what is pending. -/
theorem step_formFeed (pending : Option Pending) (hvalid : ∀ p, pending = some p → p.Valid) :
  step pending formFeedByte = (decodeAfter pending [] ++ [formFeed], none)
  := by
  cases pending with
  | none => rfl
  | some pending =>
      have hlower := (hvalid pending rfl).lower
      rw [step, if_neg]
      · rfl
      · rintro ⟨hle, -⟩
        rw [UInt8.le_iff_toNat_le] at hle
        exact absurd (hlower.trans hle) (by decide)

/-- Bytes without a form feed decode to a string without one. -/
theorem formFeed_not_mem_decodeAfter {pending : Option Pending}
    (hvalid : ∀ p, pending = some p → p.Valid) {bytes : Bytes} (h : formFeedByte ∉ bytes) :
  formFeed ∉ decodeAfter pending bytes
  := by
  induction bytes generalizing pending with
  | nil =>
      cases pending with
      | none => simp [decodeAfter]
      | some pending =>
          rw [decodeAfter, List.mem_singleton]
          decide
  | cons byte rest ih =>
      rw [List.mem_cons, not_or] at h
      obtain ⟨hnot, hvalid'⟩ := step_spec hvalid (Ne.symm h.1)
      rw [decodeAfter, List.mem_append, not_or]
      exact ⟨hnot, ih hvalid' h.2⟩

/-- What is before a form feed and what is after it are decoded apart. -/
theorem decodeAfter_append_formFeed {pending : Option Pending}
    (hvalid : ∀ p, pending = some p → p.Valid) {before : Bytes} (h : formFeedByte ∉ before)
    (after : Bytes) :
  decodeAfter pending (before ++ formFeedByte :: after)
    = decodeAfter pending before ++ formFeed :: decode after
  := by
  induction before generalizing pending with
  | nil =>
      rw [List.nil_append, decodeAfter, step_formFeed pending hvalid, decode]
      simp
  | cons byte rest ih =>
      rw [List.mem_cons, not_or] at h
      obtain ⟨-, hvalid'⟩ := step_spec hvalid (Ne.symm h.1)
      rw [List.cons_append, decodeAfter, ih hvalid' h.2, decodeAfter, List.append_assoc]

/-- Decoding and splitting at the form feeds commute. -/
theorem splitOn_decode (bytes : Bytes) :
  (decode bytes).splitOn formFeed = (bytes.splitOn formFeedByte).map decode
  := by
  have hnone : ∀ p, (none : Option Pending) = some p → p.Valid := by simp
  induction hlength : bytes.length using Nat.strong_induction_on generalizing bytes with
  | _ length ih =>
      by_cases hmem : formFeedByte ∈ bytes
      · obtain ⟨before, after, rfl, hbefore⟩ := List.eq_append_cons_of_mem hmem
        have hshort : after.length < length := by
          rw [← hlength, List.length_append, List.length_cons]
          omega
        rw [decode, decodeAfter_append_formFeed hnone hbefore,
          List.splitOn_append_cons_self_of_not_mem (formFeed_not_mem_decodeAfter hnone hbefore),
          List.splitOn_append_cons_self_of_not_mem hbefore, ih _ hshort after rfl, List.map_cons,
          decode]
      · rw [decode, List.splitOn_eq_singleton (formFeed_not_mem_decodeAfter hnone hmem),
          List.splitOn_eq_singleton hmem, List.map_singleton, decode]

/-- Of the pieces of an initial part, each is an initial part of a piece of the whole. -/
theorem splitOn_isPrefix {s t : Bytes} (h : s <+: t) (byte : UInt8) (i : ℕ) :
  (s.splitOn byte)[i]?.getD [] <+: (t.splitOn byte)[i]?.getD []
  := by
  obtain ⟨rest, rfl⟩ := h
  induction s generalizing i with
  | nil =>
      rw [List.splitOn_nil]
      cases i with
      | zero => simp
      | succ i => simp
  | cons u s ih =>
      rw [List.cons_append, List.splitOn_cons_eq_if_modifyHead, List.splitOn_cons_eq_if_modifyHead]
      split
      · cases i with
        | zero => simp
        | succ i => simpa using ih i
      · cases i with
        | zero =>
            have hfirst := ih 0
            obtain ⟨first, others, hs⟩ := List.exists_cons_of_ne_nil (List.splitOn_ne_nil byte s)
            obtain ⟨first', others', ht⟩ :=
              List.exists_cons_of_ne_nil (List.splitOn_ne_nil byte (s ++ rest))
            rw [hs, ht] at hfirst ⊢
            simpa using hfirst
        | succ i => simpa using ih (i + 1)

/-! ### Reading back what was encoded -/

/-- The bytes of a code point. -/
def bytesOf (n : ℕ) : Bytes :=
  (JsString.utf8 n).map UInt8.ofNat

/-- The numbers of the characters: all code points but the surrogates. -/
def IsScalar (n : ℕ) : Prop :=
  n < 0xD800 ∨ (0xE000 ≤ n ∧ n < 0x110000)

/-- The last byte of a pending character. -/
theorem decodeAfter_last {bits b : ℕ} {lower upper : UInt8} (hlower : lower.toNat ≤ b)
    (hupper : b ≤ upper.toNat) (rest : Bytes) :
  decodeAfter (some { bits, missing := 1, lower, upper }) (UInt8.ofNat b :: rest)
    = unitsOf (bits * 0x40 + (b - 0x80)) ++ decodeAfter none rest
  := by
  have hbyte : (UInt8.ofNat b).toNat = b := by
    have hlt := upper.toNat_lt
    rw [UInt8.toNat_ofNat', Nat.mod_eq_of_lt (by omega)]
  have hbetween : lower ≤ UInt8.ofNat b ∧ UInt8.ofNat b ≤ upper := by
    rw [UInt8.le_iff_toNat_le, UInt8.le_iff_toNat_le, hbyte]
    exact ⟨hlower, hupper⟩
  simp only [decodeAfter, step, if_pos hbetween, if_true, hbyte]

/-- A byte of a pending character before its last one. -/
theorem decodeAfter_middle {bits missing b : ℕ} {lower upper : UInt8} (hlower : lower.toNat ≤ b)
    (hupper : b ≤ upper.toNat) (rest : Bytes) :
  decodeAfter (some { bits, missing := missing + 2, lower, upper }) (UInt8.ofNat b :: rest)
    = decodeAfter (some {
        bits := bits * 0x40 + (b - 0x80), missing := missing + 1
        lower := 0x80, upper := 0xBF }) rest
  := by
  have hbyte : (UInt8.ofNat b).toNat = b := by
    have hlt := upper.toNat_lt
    rw [UInt8.toNat_ofNat', Nat.mod_eq_of_lt (by omega)]
  have hbetween : lower ≤ UInt8.ofNat b ∧ UInt8.ofNat b ≤ upper := by
    rw [UInt8.le_iff_toNat_le, UInt8.le_iff_toNat_le, hbyte]
    exact ⟨hlower, hupper⟩
  have hmissing : missing + 2 ≠ 1 := by omega
  simp only [decodeAfter, step, if_pos hbetween, if_neg hmissing, hbyte, List.nil_append]
  rfl

theorem lead_two {n : ℕ} (hge : 0x80 ≤ n) (hlt : n < 0x800) :
  lead (UInt8.ofNat (0xC0 + n / 0x40))
    = ([], some { bits := n / 0x40, missing := 1, lower := 0x80, upper := 0xBF })
  := by
  have hbyte : (UInt8.ofNat (0xC0 + n / 0x40)).toNat = 0xC0 + n / 0x40 := by
    rw [UInt8.toNat_ofNat', Nat.mod_eq_of_lt (by omega)]
  simp only [lead, UInt8.le_iff_toNat_le, hbyte, UInt8.reduceToNat]
  rw [if_neg (by omega), if_pos (by omega)]
  simp

theorem lead_three {n : ℕ} (hge : 0x800 ≤ n) (hlt : n < 0x10000) :
  lead (UInt8.ofNat (0xE0 + n / 0x1000))
    = ([], some {
        bits := n / 0x1000, missing := 2
        lower := if n < 0x1000 then 0xA0 else 0x80
        upper := if 0xD000 ≤ n ∧ n < 0xE000 then 0x9F else 0xBF })
  := by
  have hbyte : (UInt8.ofNat (0xE0 + n / 0x1000)).toNat = 0xE0 + n / 0x1000 := by
    rw [UInt8.toNat_ofNat', Nat.mod_eq_of_lt (by omega)]
  have hfirst : UInt8.ofNat (0xE0 + n / 0x1000) = 0xE0 ↔ n < 0x1000 := by
    rw [← UInt8.toNat_inj, hbyte]
    simp only [UInt8.reduceToNat]
    omega
  have hlast : UInt8.ofNat (0xE0 + n / 0x1000) = 0xED ↔ 0xD000 ≤ n ∧ n < 0xE000 := by
    rw [← UInt8.toNat_inj, hbyte]
    simp only [UInt8.reduceToNat]
    omega
  simp only [lead, UInt8.le_iff_toNat_le, hbyte, hfirst, hlast, UInt8.reduceToNat]
  rw [if_neg (by omega), if_neg (by omega), if_pos (by omega), Nat.add_sub_cancel_left]

theorem lead_four {n : ℕ} (hge : 0x10000 ≤ n) (hlt : n < 0x110000) :
  lead (UInt8.ofNat (0xF0 + n / 0x40000))
    = ([], some {
        bits := n / 0x40000, missing := 3
        lower := if n < 0x40000 then 0x90 else 0x80
        upper := if 0x100000 ≤ n then 0x8F else 0xBF })
  := by
  have hbyte : (UInt8.ofNat (0xF0 + n / 0x40000)).toNat = 0xF0 + n / 0x40000 := by
    rw [UInt8.toNat_ofNat', Nat.mod_eq_of_lt (by omega)]
  have hfirst : UInt8.ofNat (0xF0 + n / 0x40000) = 0xF0 ↔ n < 0x40000 := by
    rw [← UInt8.toNat_inj, hbyte]
    simp only [UInt8.reduceToNat]
    omega
  have hlast : UInt8.ofNat (0xF0 + n / 0x40000) = 0xF4 ↔ 0x100000 ≤ n := by
    rw [← UInt8.toNat_inj, hbyte]
    simp only [UInt8.reduceToNat]
    omega
  simp only [lead, UInt8.le_iff_toNat_le, hbyte, hfirst, hlast, UInt8.reduceToNat]
  rw [if_neg (by omega), if_neg (by omega), if_neg (by omega), if_pos (by omega),
    Nat.add_sub_cancel_left]

/-- The bytes of a character are decoded as its code units, whatever follows. -/
theorem decodeAfter_bytesOf {n : ℕ} (h : IsScalar n) (rest : Bytes) :
  decodeAfter none (bytesOf n ++ rest) = unitsOf n ++ decodeAfter none rest
  := by
  unfold IsScalar at h
  have htail (m : ℕ) : (0x80 : UInt8).toNat ≤ 0x80 + m % 0x40
      ∧ 0x80 + m % 0x40 ≤ (0xBF : UInt8).toNat := by
    simp only [UInt8.reduceToNat]
    omega
  unfold bytesOf JsString.utf8
  split
  · rename_i hone
    have hbyte : (UInt8.ofNat n).toNat = n := by
      rw [UInt8.toNat_ofNat', Nat.mod_eq_of_lt (by omega)]
    have hle : UInt8.ofNat n ≤ 0x7F := by
      rw [UInt8.le_iff_toNat_le, hbyte]
      simp only [UInt8.reduceToNat]
      omega
    simp only [List.map_cons, List.map_nil, List.singleton_append, decodeAfter, step, lead,
      if_pos hle, hbyte]
  · split
    · rename_i hone htwo
      have hn : n / 0x40 * 0x40 + (0x80 + n % 0x40 - 0x80) = n := by omega
      simp only [List.map_cons, List.map_nil, List.cons_append, List.nil_append]
      rw [decodeAfter, step, lead_two (by omega) htwo, List.nil_append,
        decodeAfter_last (htail n).1 (htail n).2, hn]
    · split
      · rename_i htwo hthree
        have hn : (n / 0x1000 * 0x40 + (0x80 + n / 0x40 % 0x40 - 0x80)) * 0x40
            + (0x80 + n % 0x40 - 0x80) = n := by omega
        -- the numbers of the surrogates are left out
        have hlower : (if n < 0x1000 then 0xA0 else 0x80 : UInt8).toNat
            ≤ 0x80 + n / 0x40 % 0x40 := by
          split
          · simp only [UInt8.reduceToNat]
            omega
          · exact (htail _).1
        have hupper : 0x80 + n / 0x40 % 0x40
            ≤ (if 0xD000 ≤ n ∧ n < 0xE000 then 0x9F else 0xBF : UInt8).toNat := by
          split
          · simp only [UInt8.reduceToNat]
            omega
          · exact (htail _).2
        simp only [List.map_cons, List.map_nil, List.cons_append, List.nil_append]
        rw [decodeAfter, step, lead_three (by omega) hthree, List.nil_append,
          decodeAfter_middle hlower hupper, decodeAfter_last (htail n).1 (htail n).2, hn]
      · rename_i hthree
        have hn : ((n / 0x40000 * 0x40 + (0x80 + n / 0x1000 % 0x40 - 0x80)) * 0x40
            + (0x80 + n / 0x40 % 0x40 - 0x80)) * 0x40 + (0x80 + n % 0x40 - 0x80) = n := by omega
        have hlower : (if n < 0x40000 then 0x90 else 0x80 : UInt8).toNat
            ≤ 0x80 + n / 0x1000 % 0x40 := by
          split
          · simp only [UInt8.reduceToNat]
            omega
          · exact (htail _).1
        have hupper : 0x80 + n / 0x1000 % 0x40
            ≤ (if 0x100000 ≤ n then 0x8F else 0xBF : UInt8).toNat := by
          split
          · simp only [UInt8.reduceToNat]
            omega
          · exact (htail _).2
        simp only [List.map_cons, List.map_nil, List.cons_append, List.nil_append]
        rw [decodeAfter, step, lead_four (by omega) (by omega), List.nil_append,
          decodeAfter_middle hlower hupper, decodeAfter_middle (htail _).1 (htail _).2,
          decodeAfter_last (htail n).1 (htail n).2, hn]

end Utf8

import Mathlib.Data.Fintype.Basic

/-!
# Base 64

Bytes as digits to base 64, without padding: every three bytes are four digits, and one or two bytes
at the end are two or three.  `decode` inverts `encode`, and digits that come in fours are those of
exactly one string of bytes.
-/

namespace Base64

/-- The digits of bytes. -/
def encode : List (Fin 256) → List (Fin 64)
  | [] => []
  | [a] => [⟨a / 4, by omega⟩, ⟨a % 4 * 16, by omega⟩]
  | [a, b] => [⟨a / 4, by omega⟩, ⟨a % 4 * 16 + b / 16, by omega⟩, ⟨b % 16 * 4, by omega⟩]
  | a :: b :: c :: bytes =>
      ⟨a / 4, by omega⟩ :: ⟨a % 4 * 16 + b / 16, by omega⟩ :: ⟨b % 16 * 4 + c / 64, by omega⟩
        :: ⟨c % 64, by omega⟩ :: encode bytes

/-- The bytes of digits.  Bits that fill no byte are dropped. -/
def decode : List (Fin 64) → List (Fin 256)
  | [] | [_] => []
  | [w, x] => [⟨w * 4 + x / 16, by omega⟩]
  | [w, x, y] => [⟨w * 4 + x / 16, by omega⟩, ⟨x % 16 * 16 + y / 4, by omega⟩]
  | w :: x :: y :: z :: digits =>
      ⟨w * 4 + x / 16, by omega⟩ :: ⟨x % 16 * 16 + y / 4, by omega⟩ :: ⟨y % 4 * 64 + z, by omega⟩
        :: decode digits

/-- The bytes of the digits of bytes are these bytes. -/
@[simp]
theorem decode_encode (bytes : List (Fin 256)) :
  decode (encode bytes) = bytes
  := by
  induction bytes using encode.induct with
  | case1 => rfl
  | case2 a =>
      simp only [encode, decode, List.cons.injEq, Fin.ext_iff, and_true]
      omega
  | case3 a b =>
      simp only [encode, decode, List.cons.injEq, Fin.ext_iff, and_true]
      omega
  | case4 a b c bytes ih =>
      simp only [encode, decode, List.cons.injEq, Fin.ext_iff, ih, and_true]
      omega

theorem encode_injective :
  Function.Injective encode
  := Function.LeftInverse.injective decode_encode

/-- The digits of the bytes of digits that come in fours are these digits. -/
theorem encode_decode {digits : List (Fin 64)} (h : 4 ∣ digits.length) :
  encode (decode digits) = digits
  := by
  induction digits using decode.induct with
  | case1 => rfl
  | case2 w | case3 w x | case4 w x y =>
      simp only [List.length_cons, List.length_nil] at h
      omega
  | case5 w x y z digits ih =>
      simp only [List.length_cons] at h
      simp only [encode, decode, List.cons.injEq, Fin.ext_iff, ih (by omega), and_true]
      omega

theorem length_encode (bytes : List (Fin 256)) :
  (encode bytes).length = (4 * bytes.length + 2) / 3
  := by
  induction bytes using encode.induct with
  | case1 | case2 a | case3 a b => simp [encode]
  | case4 a b c bytes ih =>
      simp only [encode, List.length_cons, ih]
      omega

theorem length_decode (digits : List (Fin 64)) :
  (decode digits).length = 3 * digits.length / 4
  := by
  induction digits using decode.induct with
  | case1 | case2 w | case3 w x | case4 w x y => simp [decode]
  | case5 w x y z digits ih =>
      simp only [decode, List.length_cons, ih]
      omega

/-- As many digits as four thirds of a number divisible by three are those of exactly one string of
as many bytes. -/
theorem existsUnique_encode_iff {n : ℕ} (digits : List (Fin 64)) :
  digits.length = 4 * n ↔ ∃! bytes, bytes.length = 3 * n ∧ encode bytes = digits
  := by
  constructor
  · intro hlength
    refine ⟨decode digits, ⟨?_, encode_decode ⟨n, hlength⟩⟩, ?_⟩
    · rw [length_decode, hlength]
      omega
    · rintro bytes ⟨-, rfl⟩
      rw [decode_encode]
  · rintro ⟨bytes, ⟨hlength, rfl⟩, -⟩
    rw [length_encode, hlength]
    omega

end Base64

import DocuAI.Library.Base64
import DocuAI.Auth.Tokens
import Mathlib.Data.Set.List

/-!
# Identifiers and random names

The identifiers of users and documents, the random text of refresh tokens, and the object keys made
of both.  A random text stands for exactly one string of random bytes.  An object key is read apart
into the identifiers and the bytes it was built from, and is listed under the prefix of its owner
and under that of its document, and under no other of these prefixes.
-/

namespace DocuAI

open JsString

/-! ### Patterns that name the class of every character -/

/-- `test` of a pattern from `^` to `$` that is a sequence of character classes. -/
def matchesClasses : List (UInt16 → Bool) → JsString → Bool
  | [], [] => true
  | p :: classes, u :: s => p u && matchesClasses classes s
  | _, _ => false

/-- The characters of a literal as classes. -/
def literal (s : String) : List (UInt16 → Bool) :=
  (js s).map fun u v => v == u

theorem matchesClasses_iff {classes : List (UInt16 → Bool)} {s : JsString} :
  matchesClasses classes s = true ↔ List.Forall₂ (fun p u => p u = true) classes s
  := by
  induction classes generalizing s with
  | nil => cases s <;> simp [matchesClasses]
  | cons p classes ih => cases s <;> simp [matchesClasses, ih]

theorem length_of_matchesClasses {classes : List (UInt16 → Bool)} {s : JsString}
    (h : matchesClasses classes s = true) :
  s.length = classes.length
  := (matchesClasses_iff.mp h).length_eq.symm

theorem matchesClasses_append {classes classes' : List (UInt16 → Bool)} {s t : JsString}
    (hs : matchesClasses classes s = true) (ht : matchesClasses classes' t = true) :
  matchesClasses (classes ++ classes') (s ++ t) = true
  := by
  rw [matchesClasses_iff] at *
  apply List.rel_append hs ht

theorem matchesClasses_js (s : String) :
  matchesClasses (literal s) (js s) = true
  := by
  rw [matchesClasses_iff, literal, List.forall₂_map_left_iff, List.forall₂_same]
  simp

/-- A string whose characters are mapped within their classes. -/
theorem all_map_of_matchesClasses {classes : List (UInt16 → Bool)} {s : JsString}
    {f : UInt16 → UInt16} {q : UInt16 → Bool}
    (hf : ∀ p ∈ classes, ∀ u, p u = true → p (f u) = true ∧ q (f u) = true)
    (h : matchesClasses classes s = true) :
  matchesClasses classes (s.map f) = true ∧ (s.map f).all q = true
  := by
  induction classes generalizing s with
  | nil => cases s <;> simp_all [matchesClasses]
  | cons p classes ih =>
      cases s with
      | nil => cases h
      | cons u s =>
          rw [matchesClasses, Bool.and_eq_true] at h
          have hu := hf p (List.mem_cons_self) u h.1
          have hrest := ih (fun p' hp' => hf p' (List.mem_cons_of_mem p hp')) h.2
          simp [matchesClasses, hu.1, hu.2, hrest]

theorem matchesClasses_replicate {p : UInt16 → Bool} {n : ℕ} {s : JsString} :
  matchesClasses (List.replicate n p) s = true ↔ s.length = n ∧ s.all p = true
  := by
  induction s generalizing n with
  | nil => cases n <;> simp [matchesClasses, List.replicate_succ]
  | cons u s ih =>
      cases n with
      | zero => simp [matchesClasses]
      | succ n =>
          simp only [List.replicate_succ, matchesClasses, Bool.and_eq_true, ih, List.length_cons,
            List.all_cons, Nat.add_right_cancel_iff]
          tauto

/-! ### UUIDs -/

/-- `[0-9a-f]`, with letters of either case. -/
def isHexDigit (u : UInt16) : Bool :=
  (0x30 ≤ u && u ≤ 0x39) || (0x41 ≤ u && u ≤ 0x46) || (0x61 ≤ u && u ≤ 0x66)

/-- `[1-8]`, the version of a UUID. -/
def isUuidVersion (u : UInt16) : Bool :=
  0x31 ≤ u && u ≤ 0x38

/-- `[89ab]`, the variant of a UUID, with letters of either case. -/
def isUuidVariant (u : UInt16) : Bool :=
  (0x38 ≤ u && u ≤ 0x39) || (0x41 ≤ u && u ≤ 0x42) || (0x61 ≤ u && u ≤ 0x62)

/-- The pattern of a UUID, with letters of either case. -/
def UUID_PATTERN : List (UInt16 → Bool) :=
  List.replicate 8 isHexDigit ++ literal "-" ++ List.replicate 4 isHexDigit ++ literal "-"
    ++ [isUuidVersion] ++ List.replicate 3 isHexDigit ++ literal "-"
    ++ [isUuidVariant] ++ List.replicate 3 isHexDigit ++ literal "-"
    ++ List.replicate 12 isHexDigit

/-- `UUID_PATTERN.test`. -/
def isUuid (s : JsString) : Bool :=
  matchesClasses UUID_PATTERN s

/-- A UUID route parameter, lower-cased.  `value` is `none` when it is no string, and `data` is the
name of the parameter. -/
def UuidParamPipe.transform (data : Option JsString) (value : Option JsString) :
    Except AppException JsString :=
  match value with
  | some value =>
      if isUuid value then .ok (asciiUnicode.toLowerCase value)
      else .error ⟨.BAD_REQUEST, .VALIDATION_ERROR, data.getD (js "id") ++ js " must be a UUID"⟩
  | none =>
      .error ⟨.BAD_REQUEST, .VALIDATION_ERROR, data.getD (js "id") ++ js " must be a UUID"⟩

/-- The user a verified access token stands for.  `sub` is `none` when the claim is no string. -/
def JwtStrategy.validate (sub : Option JsString) : Option JsString :=
  sub.filter isUuid

/-- `[0-9a-f-]`. -/
def isIdCharacter (u : UInt16) : Bool :=
  (0x30 ≤ u && u ≤ 0x39) || (0x61 ≤ u && u ≤ 0x66) || u == 0x2D

/-- `toLowerCase` of a character in ASCII. -/
def lowerCase (u : UInt16) : UInt16 :=
  if 0x41 ≤ u && u ≤ 0x5A then u + 0x20 else u

theorem toLowerCase_eq_map (s : JsString) :
  asciiUnicode.toLowerCase s = s.map lowerCase
  := rfl

theorem toNat_lowerCase (u : UInt16) :
  (lowerCase u).toNat = if 0x41 ≤ u.toNat ∧ u.toNat ≤ 0x5A then u.toNat + 0x20 else u.toNat
  := by
  simp only [lowerCase, Bool.and_eq_true, decide_eq_true_eq, UInt16.le_iff_toNat_le,
    UInt16.reduceToNat]
  split
  · simp only [UInt16.toNat_add, UInt16.reduceToNat]
    omega
  · rfl

/-- Lower case keeps every class of the pattern, and leaves characters of canonical identifiers. -/
theorem lowerCase_of_mem {p : UInt16 → Bool} (hp : p ∈ UUID_PATTERN) {u : UInt16}
    (hu : p u = true) :
  p (lowerCase u) = true ∧ isIdCharacter (lowerCase u) = true
  := by
  have hlower := toNat_lowerCase u
  have hdash : js "-" = [0x2D] := by decide
  have hclass : p = isHexDigit ∨ p = isUuidVersion ∨ p = isUuidVariant ∨ p = (· == 0x2D) := by
    simp only [UUID_PATTERN, literal, hdash, List.map_cons, List.map_nil, List.mem_append,
      List.mem_replicate, List.mem_singleton] at hp
    tauto
  split_ifs at hlower <;> rcases hclass with rfl | rfl | rfl | rfl <;>
    simp only [isHexDigit, isUuidVersion, isUuidVariant, isIdCharacter, Bool.or_eq_true,
      Bool.and_eq_true, decide_eq_true_eq, beq_iff_eq, UInt16.le_iff_toNat_le,
      ← UInt16.toNat_inj, UInt16.reduceToNat] at hu ⊢ <;>
    omega

/-- A UUID in lower case: 36 characters of canonical identifiers, and a UUID again. -/
theorem toLowerCase_of_isUuid {s : JsString} (h : isUuid s = true) :
  (asciiUnicode.toLowerCase s).length = 36
  ∧ (asciiUnicode.toLowerCase s).all isIdCharacter = true
  ∧ isUuid (asciiUnicode.toLowerCase s) = true
  := by
  have hlength : s.length = 36 := by
    rw [length_of_matchesClasses h]
    simp [UUID_PATTERN, literal, js]
  have hlower := all_map_of_matchesClasses (fun p hp u => lowerCase_of_mem hp) h
  exact ⟨by rw [toLowerCase_eq_map, List.length_map, hlength], hlower.2, hlower.1⟩

/-! ### Random text -/

/-- The characters of base64url, in the order of the digits they stand for. -/
def base64UrlCharacter (digit : Fin 64) : UInt16 :=
  if digit < 26 then 0x41 + UInt16.ofNat digit
  else if digit < 52 then 0x61 + UInt16.ofNat (digit - 26)
  else if digit < 62 then 0x30 + UInt16.ofNat (digit - 52)
  else if digit = 62 then 0x2D
  else 0x5F

/-- `toString('base64url')` of bytes. -/
def base64Url (bytes : List UInt8) : JsString :=
  (Base64.encode (bytes.map UInt8.toFin)).map base64UrlCharacter

/-- Digits and the characters that stand for them. -/
theorem toNat_base64UrlCharacter (digit : Fin 64) :
  (base64UrlCharacter digit).toNat
    = if digit.val < 26 then 0x41 + digit.val
      else if digit.val < 52 then 0x61 + (digit.val - 26)
      else if digit.val < 62 then 0x30 + (digit.val - 52)
      else if digit.val = 62 then 0x2D
      else 0x5F
  := by
  revert digit
  decide

/-- Different digits have different characters. -/
theorem base64UrlCharacter_injective :
  Function.Injective base64UrlCharacter
  := by
  intro digit digit' h
  have heq := congrArg UInt16.toNat h
  rw [toNat_base64UrlCharacter, toNat_base64UrlCharacter] at heq
  have hdigit := digit.isLt
  have hdigit' := digit'.isLt
  apply Fin.ext
  split_ifs at heq <;> omega

theorem isUrlSafe_iff {u : UInt16} :
  isUrlSafe u = true ↔ ∃ digit, base64UrlCharacter digit = u
  := by
  simp only [isUrlSafe, Bool.or_eq_true, Bool.and_eq_true, decide_eq_true_eq, beq_iff_eq,
    UInt16.le_iff_toNat_le, ← UInt16.toNat_inj, UInt16.reduceToNat]
  constructor
  · intro hu
    -- The digit is read off the range the character is in.
    obtain ⟨n, hn, hrange⟩ : ∃ n < 64, (n < 26 ∧ u.toNat = 0x41 + n)
        ∨ (26 ≤ n ∧ n < 52 ∧ u.toNat = 0x61 + (n - 26))
        ∨ (52 ≤ n ∧ n < 62 ∧ u.toNat = 0x30 + (n - 52))
        ∨ (n = 62 ∧ u.toNat = 0x2D) ∨ (n = 63 ∧ u.toNat = 0x5F) := by
      rcases hu with (((hupper | hlower) | hnumber) | hline) | hdash
      · exact ⟨u.toNat - 0x41, by omega, by omega⟩
      · exact ⟨u.toNat - 0x61 + 26, by omega, by omega⟩
      · exact ⟨u.toNat - 0x30 + 52, by omega, by omega⟩
      · exact ⟨63, by omega, by omega⟩
      · exact ⟨62, by omega, by omega⟩
    refine ⟨⟨n, hn⟩, ?_⟩
    simp only [toNat_base64UrlCharacter]
    split_ifs <;> omega
  · rintro ⟨digit, heq⟩
    have hdigit := digit.isLt
    rw [toNat_base64UrlCharacter] at heq
    split_ifs at heq <;> omega

/-- A text of URL-safe characters is that of exactly one list of digits. -/
theorem exists_digits_iff {s : JsString} :
  s.all isUrlSafe = true ↔ ∃ digits : List (Fin 64), digits.map base64UrlCharacter = s
  := by
  have hrange := Set.range_list_map base64UrlCharacter
  simp only [List.all_eq_true, isUrlSafe_iff]
  exact (Set.ext_iff.mp hrange s).symm

theorem base64Url_injective :
  Function.Injective base64Url
  := by
  intro bytes bytes' h
  have hdigits := List.map_injective_iff.mpr base64UrlCharacter_injective h
  have hfin := Base64.encode_injective hdigits
  exact List.map_injective_iff.mpr (fun _ _ => UInt8.toFin_inj.mp) hfin

/-- The text of every three bytes is four URL-safe characters. -/
theorem base64Url_shape {n : ℕ} {bytes : List UInt8} (h : bytes.length = 3 * n) :
  (base64Url bytes).length = 4 * n ∧ (base64Url bytes).all isUrlSafe = true
  := by
  constructor
  · rw [base64Url, List.length_map, Base64.length_encode, List.length_map, h]
    omega
  · apply exists_digits_iff.mpr ⟨_, rfl⟩

/-- Every text of URL-safe characters in fours is that of exactly one string of bytes. -/
theorem existsUnique_base64Url_iff {n : ℕ} {s : JsString} :
  (s.length = 4 * n ∧ s.all isUrlSafe = true)
    ↔ ∃! bytes : List UInt8, bytes.length = 3 * n ∧ base64Url bytes = s
  := by
  constructor
  · rintro ⟨hlength, hsafe⟩
    obtain ⟨digits, rfl⟩ := exists_digits_iff.mp hsafe
    rw [List.length_map] at hlength
    obtain ⟨bytes, ⟨hbytes, hencode⟩, -⟩ := (Base64.existsUnique_encode_iff digits).mp hlength
    have hmap : (bytes.map UInt8.ofFin).map UInt8.toFin = bytes := by simp [Function.comp_def]
    have htext : base64Url (bytes.map UInt8.ofFin) = digits.map base64UrlCharacter := by
      rw [base64Url, hmap, hencode]
    refine ⟨bytes.map UInt8.ofFin, ⟨by simpa using hbytes, htext⟩, ?_⟩
    rintro other ⟨-, hother⟩
    apply base64Url_injective (hother.trans htext.symm)
  · rintro ⟨bytes, ⟨hlength, rfl⟩, -⟩
    apply base64Url_shape hlength

/-! ### Refresh tokens -/

def REFRESH_TOKEN_BYTES : ℕ := 48

/-- The refresh token of random bytes. -/
def generateRefreshToken (randomBytes : List UInt8) : JsString :=
  base64Url randomBytes

/-- Every text of 64 URL-safe characters is the refresh token of exactly one string of 48 bytes, and
no other text is the token of any. -/
theorem isGeneratedRefreshToken_iff (token : JsString) :
  isGeneratedRefreshToken token = true
    ↔ ∃! randomBytes : List UInt8,
        randomBytes.length = REFRESH_TOKEN_BYTES ∧ generateRefreshToken randomBytes = token
  := by
  rw [isGeneratedRefreshToken, Bool.and_eq_true, decide_eq_true_eq]
  exact existsUnique_base64Url_iff (n := 16)

/-! ### Object keys -/

def RANDOM_SEGMENT_BYTES : ℕ := 24

/-- The prefix of the keys of a user. -/
def userPrefix (userId : JsString) : JsString :=
  js "users/" ++ asciiUnicode.toLowerCase userId ++ js "/"

/-- The prefix of the keys of a document. -/
def documentPrefix (userId documentId : JsString) : JsString :=
  userPrefix userId ++ js "documents/" ++ asciiUnicode.toLowerCase documentId ++ js "/"

/-- The object key of a document's file, `none` where an identifier is no UUID and the call
throws. -/
def buildStorageKey (randomBytes : List UInt8) (userId documentId : JsString) : Option JsString :=
  if !isUuid userId || !isUuid documentId then none
  else
    some (js "users/" ++ asciiUnicode.toLowerCase userId ++ js "/documents/"
      ++ asciiUnicode.toLowerCase documentId ++ js "/" ++ base64Url randomBytes)

def STORAGE_KEY_PATTERN : List (UInt16 → Bool) :=
  literal "users/" ++ List.replicate 36 isIdCharacter ++ literal "/documents/"
    ++ List.replicate 36 isIdCharacter ++ literal "/" ++ List.replicate 32 isUrlSafe

/-- `STORAGE_KEY_PATTERN.test`. -/
def isServerGeneratedStorageKey (key : JsString) : Bool :=
  matchesClasses STORAGE_KEY_PATTERN key

/-- A prefix whose first part is as long as that of the string. -/
theorem append_prefix_append_iff {α : Type} {s s' t t' : List α} (h : s.length = s'.length) :
  s ++ t <+: s' ++ t' ↔ s = s' ∧ t <+: t'
  := by
  constructor
  · rintro ⟨rest, hrest⟩
    rw [List.append_assoc] at hrest
    obtain ⟨hs, ht⟩ := List.append_inj hrest h
    exact ⟨hs, rest, ht⟩
  · rintro ⟨rfl, ht⟩
    apply (List.prefix_append_right_inj s).mpr ht

section

variable {randomBytes : List UInt8} {userId documentId key : JsString}

/-- Where the identifiers are UUIDs, the key is the prefix of the document and the text of the
random bytes. -/
theorem buildStorageKey_eq_some_iff :
  buildStorageKey randomBytes userId documentId = some key
    ↔ isUuid userId = true ∧ isUuid documentId = true
      ∧ documentPrefix userId documentId ++ base64Url randomBytes = key
  := by
  have hparts : js "/documents/" = js "/" ++ js "documents/" := by decide
  rw [buildStorageKey, documentPrefix, userPrefix, hparts]
  cases isUuid userId <;> cases isUuid documentId <;> simp

/-- A key has the shape of what the server generates. -/
theorem isServerGeneratedStorageKey_of_built (hrandom : randomBytes.length = RANDOM_SEGMENT_BYTES)
    (hkey : buildStorageKey randomBytes userId documentId = some key) :
  isServerGeneratedStorageKey key = true
  := by
  obtain ⟨huser, hdocument, rfl⟩ := buildStorageKey_eq_some_iff.mp hkey
  have huser' := toLowerCase_of_isUuid huser
  have hdocument' := toLowerCase_of_isUuid hdocument
  have hid {id : JsString} (h : isUuid id = true) :
      matchesClasses (List.replicate 36 isIdCharacter) (asciiUnicode.toLowerCase id) = true := by
    have hlower := toLowerCase_of_isUuid h
    exact matchesClasses_replicate.mpr ⟨hlower.1, hlower.2.1⟩
  have hparts : js "/documents/" = js "/" ++ js "documents/" := by decide
  have hrandom' := matchesClasses_replicate.mpr (base64Url_shape (n := 8) hrandom)
  have hpattern := matchesClasses_append (matchesClasses_append (matchesClasses_append
    (matchesClasses_append (matchesClasses_append (matchesClasses_js "users/") (hid huser))
      (matchesClasses_js "/documents/")) (hid hdocument)) (matchesClasses_js "/")) hrandom'
  rw [hparts, ← List.append_assoc] at hpattern
  exact hpattern

/-- A key at its slashes. -/
theorem split_of_built (hkey : buildStorageKey randomBytes userId documentId = some key) :
  split key 0x2F = [js "users", asciiUnicode.toLowerCase userId, js "documents",
    asciiUnicode.toLowerCase documentId, base64Url randomBytes]
  := by
  obtain ⟨huser, hdocument, rfl⟩ := buildStorageKey_eq_some_iff.mp hkey
  have hid {id : JsString} (h : isUuid id = true) : 0x2F ∉ asciiUnicode.toLowerCase id := by
    intro hmem
    have hcharacter := List.all_eq_true.mp (toLowerCase_of_isUuid h).2.1 _ hmem
    revert hcharacter
    decide
  have hrandom : 0x2F ∉ base64Url randomBytes := by
    intro hmem
    have hcharacter := List.all_eq_true.mp (exists_digits_iff.mpr ⟨_, rfl⟩) _ hmem
    revert hcharacter
    decide
  have husers : js "users/" = js "users" ++ [0x2F] := by decide
  have hdocuments : js "documents/" = js "documents" ++ [0x2F] := by decide
  have hslash : js "/" = [0x2F] := by decide
  have husers' : 0x2F ∉ js "users" := by decide
  have hdocuments' : 0x2F ∉ js "documents" := by decide
  simp only [documentPrefix, userPrefix, husers, hdocuments, hslash, List.append_assoc,
    List.cons_append, List.nil_append, split]
  rw [List.splitOn_append_cons_self_of_not_mem husers',
    List.splitOn_append_cons_self_of_not_mem (hid huser),
    List.splitOn_append_cons_self_of_not_mem hdocuments',
    List.splitOn_append_cons_self_of_not_mem (hid hdocument), List.splitOn_eq_singleton hrandom]

/-- Keys tell apart what they are built from, up to the case of the identifiers. -/
theorem eq_of_built {randomBytes' : List UInt8} {user document : JsString}
    (hkey : buildStorageKey randomBytes userId documentId = some key)
    (hkey' : buildStorageKey randomBytes' user document = some key) :
  randomBytes' = randomBytes
  ∧ asciiUnicode.toLowerCase user = asciiUnicode.toLowerCase userId
  ∧ asciiUnicode.toLowerCase document = asciiUnicode.toLowerCase documentId
  := by
  have hsplit := (split_of_built hkey').symm.trans (split_of_built hkey)
  simp only [List.cons.injEq, and_true, true_and] at hsplit
  exact ⟨base64Url_injective hsplit.2.2, hsplit.1, hsplit.2.1⟩

theorem startsWith_userPrefix_iff {user : JsString} (huser : isUuid user = true)
    (hkey : buildStorageKey randomBytes userId documentId = some key) :
  startsWith key (userPrefix user) = true
    ↔ asciiUnicode.toLowerCase user = asciiUnicode.toLowerCase userId
  := by
  obtain ⟨huserId, -, rfl⟩ := buildStorageKey_eq_some_iff.mp hkey
  have hlength : (asciiUnicode.toLowerCase user).length
      = (asciiUnicode.toLowerCase userId).length := by
    rw [(toLowerCase_of_isUuid huser).1, (toLowerCase_of_isUuid huserId).1]
  rw [startsWith, List.isPrefixOf_iff_prefix]
  simp only [documentPrefix, userPrefix, List.append_assoc]
  rw [List.prefix_append_right_inj, append_prefix_append_iff hlength]
  simp

theorem startsWith_documentPrefix_iff {user document : JsString} (huser : isUuid user = true)
    (hdocument : isUuid document = true)
    (hkey : buildStorageKey randomBytes userId documentId = some key) :
  startsWith key (documentPrefix user document) = true
    ↔ asciiUnicode.toLowerCase user = asciiUnicode.toLowerCase userId
      ∧ asciiUnicode.toLowerCase document = asciiUnicode.toLowerCase documentId
  := by
  obtain ⟨huserId, hdocumentId, rfl⟩ := buildStorageKey_eq_some_iff.mp hkey
  have hlength {id id' : JsString} (h : isUuid id = true) (h' : isUuid id' = true) :
      (asciiUnicode.toLowerCase id).length = (asciiUnicode.toLowerCase id').length := by
    rw [(toLowerCase_of_isUuid h).1, (toLowerCase_of_isUuid h').1]
  rw [startsWith, List.isPrefixOf_iff_prefix]
  simp only [documentPrefix, userPrefix, List.append_assoc]
  rw [List.prefix_append_right_inj, append_prefix_append_iff (hlength huser huserId),
    List.prefix_append_right_inj, List.prefix_append_right_inj,
    append_prefix_append_iff (hlength hdocument hdocumentId)]
  simp

end

/-! ### Keys of requests -/

theorem UuidParamPipe.transform_eq_ok_iff {data value : Option JsString} {id : JsString} :
  transform data value = .ok id
    ↔ ∃ text, value = some text ∧ isUuid text = true ∧ asciiUnicode.toLowerCase text = id
  := by
  cases value with
  | none => simp [transform]
  | some text =>
      rw [transform]
      split <;> simp_all

theorem toLowerCase_toLowerCase (s : JsString) :
  asciiUnicode.toLowerCase (asciiUnicode.toLowerCase s) = asciiUnicode.toLowerCase s
  := by
  rw [toLowerCase_eq_map, toLowerCase_eq_map, List.map_map]
  apply List.map_congr_left
  intro u _
  rw [Function.comp_apply, ← UInt16.toNat_inj, toNat_lowerCase, toNat_lowerCase]
  split_ifs <;> omega

/-- The key of an upload.  For the user of an access token, and the document of a route parameter,
a key is always built; it has the shape of what the server generates, splits at its slashes into
what it was built from, and is no other upload's.  Of all prefixes of users and of documents it
begins with those of its user and its document only. -/
theorem storageKey_of_request {sub data value : Option JsString} {userId documentId : JsString}
    {randomBytes : List UInt8} (huser : JwtStrategy.validate sub = some userId)
    (hdocument : UuidParamPipe.transform data value = .ok documentId)
    (hrandom : randomBytes.length = RANDOM_SEGMENT_BYTES) :
  ∃ key, buildStorageKey randomBytes userId documentId = some key
    ∧ isServerGeneratedStorageKey key = true
    ∧ split key 0x2F = [js "users", asciiUnicode.toLowerCase userId, js "documents", documentId,
        base64Url randomBytes]
    ∧ (∀ randomBytes' user document, buildStorageKey randomBytes' user document = some key →
      randomBytes' = randomBytes
      ∧ asciiUnicode.toLowerCase user = asciiUnicode.toLowerCase userId
      ∧ asciiUnicode.toLowerCase document = documentId)
    ∧ ∀ user, isUuid user = true →
      (startsWith key (userPrefix user) = true
        ↔ asciiUnicode.toLowerCase user = asciiUnicode.toLowerCase userId)
      ∧ ∀ document, isUuid document = true →
        (startsWith key (documentPrefix user document) = true
          ↔ asciiUnicode.toLowerCase user = asciiUnicode.toLowerCase userId
            ∧ asciiUnicode.toLowerCase document = documentId)
  := by
  obtain ⟨-, huserId⟩ := Option.filter_eq_some_iff.mp huser
  obtain ⟨text, -, htext, rfl⟩ := UuidParamPipe.transform_eq_ok_iff.mp hdocument
  have hdocumentId := (toLowerCase_of_isUuid htext).2.2
  obtain ⟨key, hkey⟩ : ∃ key,
      buildStorageKey randomBytes userId (asciiUnicode.toLowerCase text) = some key :=
    ⟨_, buildStorageKey_eq_some_iff.mpr ⟨huserId, hdocumentId, rfl⟩⟩
  have hlower := toLowerCase_toLowerCase text
  refine ⟨key, hkey, isServerGeneratedStorageKey_of_built hrandom hkey, ?_, ?_, ?_⟩
  · rw [split_of_built hkey, hlower]
  · intro randomBytes' user document hkey'
    rw [← hlower]
    apply eq_of_built hkey hkey'
  · intro user huser'
    refine ⟨startsWith_userPrefix_iff huser' hkey, fun document hdocument' => ?_⟩
    rw [startsWith_documentPrefix_iff huser' hdocument' hkey, hlower]

/-- The key of an upload to a document whose identifier was given in upper case. -/
theorem storageKey_of_request_of_upperCase :
  ∃ key, buildStorageKey (List.replicate 24 0) (js "0b8e6f3a-52d1-4c7e-9a44-1f2e3d4c5b6a")
      (js "7c9e6679-7425-40de-944b-e07fc1f90ae7") = some key
    ∧ isServerGeneratedStorageKey key = true
    ∧ startsWith key (js "users/0b8e6f3a-52d1-4c7e-9a44-1f2e3d4c5b6a/") = true
  := by
  have huser : JwtStrategy.validate (some (js "0b8e6f3a-52d1-4c7e-9a44-1f2e3d4c5b6a"))
      = some (js "0b8e6f3a-52d1-4c7e-9a44-1f2e3d4c5b6a") := by decide
  have hdocument : UuidParamPipe.transform (some (js "id"))
      (some (js "7C9E6679-7425-40DE-944B-E07FC1F90AE7"))
      = .ok (js "7c9e6679-7425-40de-944b-e07fc1f90ae7") := by
    rw [UuidParamPipe.transform_eq_ok_iff]
    refine ⟨_, rfl, ?_, ?_⟩ <;> decide
  have hprefix : userPrefix (js "0b8e6f3a-52d1-4c7e-9a44-1f2e3d4c5b6a")
      = js "users/0b8e6f3a-52d1-4c7e-9a44-1f2e3d4c5b6a/" := by decide
  have hrandom : (List.replicate 24 (0 : UInt8)).length = RANDOM_SEGMENT_BYTES := rfl
  obtain ⟨key, hkey, hshape, -, -, hprefixes⟩ :=
    storageKey_of_request huser hdocument hrandom
  refine ⟨key, hkey, hshape, ?_⟩
  rw [← hprefix]
  exact (hprefixes _ (by decide)).1.mpr rfl

end DocuAI

import Mathlib.Data.List.Basic

/-!
# UTF-8

The bytes of a text, the lossy way back, and the byte of a line feed, which no
other character's bytes hold.
-/

namespace XavierDB

abbrev Bytes := List UInt8

def utf8Bytes (s : String) : Bytes := s.toByteArray.data.toList

/-! ## Decoding -/

/-- The bytes of the ill-formed sequence at the head that one replacement character stands for: the
longest part that starts a well-formed one. -/
def illFormed : Bytes → Nat
  | b :: c :: rest =>
    let lo : UInt8 := if b = 0xE0 then 0xA0 else if b = 0xF0 then 0x90 else 0x80
    let hi : UInt8 := if b = 0xED then 0x9F else if b = 0xF4 then 0x8F else 0xBF
    if 0xE0 ≤ b ∧ b ≤ 0xF4 ∧ lo ≤ c ∧ c ≤ hi then
      if 0xF0 ≤ b ∧ rest.head?.any (fun d => 0x80 ≤ d ∧ d ≤ 0xBF) then 3 else 2
    else 1
  | _ => 1

/-- The characters, with replacement characters; the number bounds the steps. -/
def lossyChars : Nat → Bytes → List Char
  | 0, _ | _, [] => []
  | n + 1, bytes =>
    match bytes.toByteArray.utf8DecodeChar? 0 with
    | some c => c :: lossyChars n (bytes.drop c.utf8Size)
    | none => '\uFFFD' :: lossyChars n (bytes.drop (illFormed bytes))

/-- `String::from_utf8_lossy`. -/
def fromUtf8Lossy (bytes : Bytes) : String :=
  if h : bytes.toByteArray.IsValidUTF8 then .ofByteArray bytes.toByteArray h
  else String.ofList (lossyChars bytes.length bytes)

theorem toByteArray_utf8Bytes (s : String) : (utf8Bytes s).toByteArray = s.toByteArray := by
  rw [utf8Bytes]
  ext1
  rw [List.data_toByteArray, Array.toArray_toList]

theorem isValidUTF8_utf8Bytes (s : String) : (utf8Bytes s).toByteArray.IsValidUTF8 := by
  rw [toByteArray_utf8Bytes]
  exact s.isValidUTF8

theorem fromUtf8Lossy_utf8Bytes (s : String) : fromUtf8Lossy (utf8Bytes s) = s := by
  rw [fromUtf8Lossy, dif_pos (isValidUTF8_utf8Bytes s), ← String.toByteArray_inj]
  exact toByteArray_utf8Bytes s

/-- `String::from_utf8`. -/
def fromUtf8 (bytes : Bytes) : Option String :=
  if h : bytes.toByteArray.IsValidUTF8 then some (.ofByteArray bytes.toByteArray h) else none

theorem fromUtf8_utf8Bytes (s : String) : fromUtf8 (utf8Bytes s) = some s := by
  rw [fromUtf8, dif_pos (isValidUTF8_utf8Bytes s)]
  exact congrArg some (String.toByteArray_inj.mp (toByteArray_utf8Bytes s))

/-! ## Encoding -/

theorem length_utf8Bytes (s : String) : (utf8Bytes s).length = s.utf8ByteSize := rfl

theorem utf8Bytes_ofList (l : List Char) :
    utf8Bytes (String.ofList l) = l.flatMap String.utf8EncodeChar := by
  rw [utf8Bytes, String.toByteArray_ofList, List.utf8Encode, List.toList_data_toByteArray]

theorem utf8Bytes_eq (s : String) : utf8Bytes s = s.toList.flatMap String.utf8EncodeChar := by
  rw [← utf8Bytes_ofList, String.ofList_toList]

theorem length_le_utf8ByteSize (s : String) : s.length ≤ s.utf8ByteSize := by
  rw [← length_utf8Bytes, utf8Bytes_eq, ← String.length_toList]
  induction s.toList with
  | nil => exact Nat.le_refl 0
  | cons c l ih =>
    have hpos := Char.utf8Size_pos c
    rw [List.flatMap_cons, List.length_append, String.length_utf8EncodeChar, List.length_cons]
    omega

/-- The byte `b'\n'`. -/
def newline : UInt8 := 10

theorem eq_newline_iff {n : Nat} : newline = UInt8.ofNat n ↔ n % 256 = 10 := by
  rw [← UInt8.toNat_inj, UInt8.toNat_ofNat', eq_comm]
  rfl

/-- The bytes of a longer encoding are at least 128. -/
theorem newline_mem_utf8EncodeChar {c : Char} : newline ∈ String.utf8EncodeChar c ↔ c = '\n' := by
  constructor
  · intro h
    unfold String.utf8EncodeChar at h
    extract_lets v at h
    split at h
    case isTrue hc =>
      rw [List.mem_singleton, eq_newline_iff] at h
      refine Char.toNat_inj.mp ?_
      show c.val.toNat = 10
      omega
    case isFalse =>
      split at h
      case isTrue =>
        simp only [List.mem_cons, List.not_mem_nil, or_false, eq_newline_iff] at h
        omega
      case isFalse =>
        split at h
        all_goals
          simp only [List.mem_cons, List.not_mem_nil, or_false, eq_newline_iff] at h
          omega
  · rintro rfl
    decide

theorem newline_mem_utf8Bytes {s : String} : newline ∈ utf8Bytes s ↔ '\n' ∈ s.toList := by
  rw [utf8Bytes_eq, List.mem_flatMap]
  constructor
  · rintro ⟨c, hc, h⟩
    rwa [newline_mem_utf8EncodeChar.mp h] at hc
  · exact fun h => ⟨'\n', h, newline_mem_utf8EncodeChar.mpr rfl⟩

end XavierDB

import Mathlib
import XavierDB.Bson.Canonical

/-!
# A form in words

A form of BSON values that keeps types apart. It is the canonical extended JSON
on text, on whole numbers and on documents of these; what the crate prints for
other values is not followed.
-/

namespace XavierDB

/-! ## Values in words -/

/-- A double in words: a whole number as it is written, any other as its quotient. -/
def F64.words : F64 → List String
  | nan => ["NaN"]
  | negInf => ["-Infinity"]
  | posInf => ["Infinity"]
  | negZero => ["-0.0"]
  | fin q => if q.den = 1 then [q.num.repr ++ ".0"] else [q.num.repr, q.den.repr]

def Decimal128.words : Decimal128 → List String
  | nan => ["NaN"]
  | inf neg => [if neg then "-Infinity" else "Infinity"]
  | fin neg coeff exp => [if neg then "-" else "+", coeff.repr, exp.repr]

namespace Bson

/-- The operator key of a wrapped value. -/
def tag : Bson → String
  | double _ => "$numberDouble"
  | javaScriptCode _ => "$code"
  | int32 _ => "$numberInt"
  | int64 _ => "$numberLong"
  | timestamp .. => "$timestamp"
  | binary .. => "$binary"
  | objectId _ => "$oid"
  | dateTime _ => "$date"
  | symbol _ => "$symbol"
  | decimal128 _ => "$numberDecimal"
  | undefined => "$undefined"
  | maxKey => "$maxKey"
  | minKey => "$minKey"
  | dbPointer .. => "$dbPointer"
  | _ => "$other"

def byteWords (bytes : List UInt8) : List String := bytes.map fun b => b.toNat.repr

def words : Bson → List String
  | double d => d.words
  | javaScriptCode s | symbol s => [s]
  | int32 i => [i.toInt.repr]
  | int64 i | dateTime i => [i.toInt.repr]
  | timestamp t i => [t.toNat.repr, i.toNat.repr]
  | binary st b => st.toNat.repr :: byteWords b
  | objectId b => byteWords b
  | decimal128 d => d.words
  | dbPointer ns b => ns :: byteWords b
  | _ => []

end Bson

/-! ## The form -/

/-- One word as a string, several as an array. -/
def wordsJson : List String → Json
  | [w] => .string w
  | ws => .array (ws.map .string)

mutual

/-- A form in tagged words. It is the canonical one on text, on whole numbers and on
documents of these. -/
def wordForm : Bson → Json
  | .null => .null
  | .boolean b => .bool b
  | .string s => .string s
  | .array a => .array (wordElems a)
  | .document d => .object (wordFields d)
  | b => .object [(b.tag, wordsJson b.words)]

def wordElems : List Bson → List Json
  | [] => []
  | b :: rest => wordForm b :: wordElems rest

def wordFields : List (String × Bson) → List (String × Json)
  | [] => []
  | (k, b) :: rest => (k, wordForm b) :: wordFields rest

end

theorem wordElems_eq (a : List Bson) : wordElems a = a.map wordForm := by
  induction a with
  | nil => rfl
  | cons b rest ih => rw [wordElems, ih, List.map_cons]

theorem wordFields_eq (d : Document) : wordFields d = d.map fun p => (p.1, wordForm p.2) := by
  induction d with
  | nil => rfl
  | cons p rest ih => rw [wordFields, ih, List.map_cons]

theorem isOperatorKey_tag (b : Bson) : isOperatorKey b.tag = true := by
  cases b <;> simp [isOperatorKey, Bson.tag]

theorem wordForm_wrapped {b : Bson} (h : b.isWrapped) :
    wordForm b = .object [(b.tag, wordsJson b.words)] := by
  cases b <;> first | rfl | cases h

theorem sameElems_strings (ws ws' : List String) :
    Json.sameElems (ws.map .string) (ws'.map .string) = true ↔ ws = ws' := by
  induction ws generalizing ws' with
  | nil => cases ws' <;> simp [Json.sameElems]
  | cons w ws ih => cases ws' <;> simp [Json.sameElems, Json.same, ih]

theorem same_wordsJson (ws ws' : List String) :
    (wordsJson ws).same (wordsJson ws') = true ↔ ws = ws' := by
  unfold wordsJson
  split <;> split
  · simp [Json.same]
  · rename_i h
    refine iff_of_false (by simp [Json.same]) ?_
    rintro rfl
    exact h _ rfl
  · rename_i h _ _
    refine iff_of_false (by simp [Json.same]) ?_
    rintro rfl
    exact h _ rfl
  · rw [Json.same, sameElems_strings]

/-! ## The words say which value it is -/

theorem repr_ne_negZero (n : ℤ) : n.repr ≠ "-0" := by
  intro h
  have hval := Int.toInt?_repr n
  have hminus : "-0" = "-" ++ Nat.repr 0 := by decide
  rw [h, hminus, String.toInt?_minus_append, Nat.toNat?_repr] at hval
  obtain rfl : 0 = n := Option.some.inj hval
  exact absurd h (by decide)

/-- A finite double is not written as the others are. -/
theorem F64.words_fin_ne {d : F64} (hd : ∀ q, d ≠ fin q) (q : ℚ) : (fin q).words ≠ d.words := by
  have hend (s : String) (hs : s.toList.getLast? ≠ some '0') : (fin q).words ≠ [s] := by
    intro h
    rw [words] at h
    split at h
    case isTrue =>
      rw [← (List.cons.inj h).1] at hs
      exact hs (by simp)
    case isFalse => simp at h
  cases d with
  | nan => exact hend _ (by decide)
  | negInf => exact hend _ (by decide)
  | posInf => exact hend _ (by decide)
  | negZero =>
    intro h
    simp only [words] at h
    split at h
    case isTrue =>
      have htext : q.num.repr ++ ".0" = "-0" ++ ".0" := (List.cons.inj h).1
      exact repr_ne_negZero _ ((String.append_left_inj _).mp htext)
    case isFalse => simp at h
  | fin q' => exact absurd rfl (hd q')

theorem F64.words_fin_injective {q q' : ℚ} (h : (fin q).words = (fin q').words) : q = q' := by
  rw [words, words] at h
  split at h <;> split at h
  case isTrue.isTrue hden hden' =>
    have hnum := Int.repr_inj.mp ((String.append_left_inj _).mp (List.cons.inj h).1)
    exact Rat.ext hnum (hden.trans hden'.symm)
  case isTrue.isFalse => simp at h
  case isFalse.isTrue => simp at h
  case isFalse.isFalse =>
    simp only [List.cons.injEq, Int.repr_inj, Nat.repr_inj, and_true] at h
    exact Rat.ext h.1 h.2

theorem F64.words_injective {d d' : F64} (h : d.words = d'.words) : d = d' := by
  cases d with
  | fin q =>
    cases d' with
    | fin q' => rw [words_fin_injective h]
    | _ => exact absurd h (words_fin_ne (by simp) q)
  | _ =>
    cases d' with
    | fin q' => exact absurd h.symm (words_fin_ne (by simp) q')
    | _ => first | rfl | simp [words] at h

theorem Decimal128.words_injective {d d' : Decimal128} (h : d.words = d'.words) : d = d' := by
  cases d with
  | nan => cases d' with
    | nan => rfl
    | inf neg => cases neg <;> simp [words] at h
    | fin => simp [words] at h
  | inf neg => cases d' with
    | nan => cases neg <;> simp [words] at h
    | inf neg' => cases neg <;> cases neg' <;> simp [words] at h ⊢
    | fin => simp [words] at h
  | fin neg c e => cases d' with
    | nan => simp [words] at h
    | inf neg' => simp [words] at h
    | fin neg' c' e' =>
      simp only [words, List.cons.injEq, Nat.repr_inj, Int.repr_inj, and_true] at h
      cases neg <;> cases neg' <;> simp_all

theorem Bson.byteWords_injective {b b' : List UInt8} (h : byteWords b = byteWords b') : b = b' := by
  refine List.map_injective_iff.mpr (fun x y hxy => ?_) h
  exact UInt8.toNat_inj.mp (Nat.repr_inj.mp hxy)

/-- The tag and the words of a wrapped value say which it is. -/
theorem Bson.eq_of_words {a b : Bson} (ha : a.isWrapped) (ht : a.tag = b.tag)
    (hw : a.words = b.words) : a = b := by
  cases a with
  | double d =>
    cases b <;> simp [tag] at ht
    exact congrArg double (F64.words_injective hw)
  | decimal128 d =>
    cases b <;> simp [tag] at ht
    exact congrArg decimal128 (Decimal128.words_injective hw)
  | objectId o =>
    cases b <;> simp [tag] at ht
    exact congrArg objectId (byteWords_injective hw)
  | binary st o =>
    cases b <;> simp [tag] at ht
    obtain ⟨hst, ho⟩ := List.cons.inj hw
    rw [UInt8.toNat_inj.mp (Nat.repr_inj.mp hst), byteWords_injective ho]
  | dbPointer ns o =>
    cases b <;> simp [tag] at ht
    obtain ⟨hns, ho⟩ := List.cons.inj hw
    rw [hns, byteWords_injective ho]
  | timestamp t i =>
    cases b <;> simp [tag] at ht
    simp only [words, List.cons.injEq, Nat.repr_inj, UInt32.toNat_inj, and_true] at hw
    rw [hw.1, hw.2]
  | int32 i =>
    cases b <;> simp [tag] at ht
    simp only [words, List.cons.injEq, Int.repr_inj, Int32.toInt_inj, and_true] at hw
    rw [hw]
  | int64 i | dateTime i =>
    cases b <;> simp [tag] at ht
    simp only [words, List.cons.injEq, Int.repr_inj, Int64.toInt_inj, and_true] at hw
    rw [hw]
  | javaScriptCode s | symbol s =>
    cases b <;> simp [tag] at ht
    rw [List.head_eq_of_cons_eq hw]
  | undefined | maxKey | minKey => cases b <;> simp [tag] at ht; rfl
  | _ => cases ha

/-- **The form keeps types apart.** -/
theorem typeSensitive_wordForm : TypeSensitive wordForm where
  null := rfl
  boolean _ := rfl
  string _ := rfl
  array a := by rw [wordForm, wordElems_eq]
  document d := by rw [wordForm, wordFields_eq]
  wrapped b h := ⟨_, _, wordForm_wrapped h, isOperatorKey_tag b⟩
  same_wrapped a b ha hb := by
    have hsame : (wordForm a).same (wordForm b) = true ↔ a.tag = b.tag ∧ a.words = b.words := by
      rw [wordForm_wrapped ha, wordForm_wrapped hb, ← same_wordsJson]
      simp only [Json.same, Json.sameFields, lookup_single]
      by_cases ht : b.tag = a.tag <;> simp [ht, eq_comm (a := a.tag)]
    rw [hsame]
    exact ⟨fun h => Bson.eq_of_words ha h.1 h.2, by rintro rfl; exact ⟨rfl, rfl⟩⟩

end XavierDB

import Mathlib.Data.Int.Notation
import Mathlib.Data.Nat.Notation

/-!
# Numerals

`from_str_radix` of the integer types and the hexadecimal form of a byte.
-/

namespace XavierDB

def digitVal (radix : ℕ) (c : Char) : Option ℕ :=
  let v := if '0' ≤ c ∧ c ≤ '9' then c.toNat - 48
    else if 'a' ≤ c ∧ c ≤ 'z' then c.toNat - 87
    else if 'A' ≤ c ∧ c ≤ 'Z' then c.toNat - 55
    else radix
  if v < radix then some v else none

/-- The number after `acc` with more digits. -/
def digitsVal (radix : ℕ) : ℕ → List Char → Option ℕ
  | acc, [] => some acc
  | acc, c :: cs =>
    match digitVal radix c with
    | some d => digitsVal radix (acc * radix + d) cs
    | none => none

def numeral (radix : ℕ) : List Char → Option ℕ
  | [] => none
  | cs => digitsVal radix 0 cs

/-- Of an unsigned type with this maximum: a `+` is fine, a `-` is not a digit. -/
def unsignedOfStr (radix max : ℕ) (s : String) : Option ℕ :=
  let digits := match s.toList with
    | '+' :: cs => cs
    | cs => cs
  (numeral radix digits).filter fun n => n ≤ max

/-- Of a signed type from `-max - 1` to `max`. -/
def signedOfStr (radix max : ℕ) (s : String) : Option ℤ :=
  match s.toList with
  | '-' :: cs => ((numeral radix cs).filter fun n => n ≤ max + 1).map fun n => -(n : ℤ)
  | '+' :: cs => ((numeral radix cs).filter fun n => n ≤ max).map fun n => (n : ℤ)
  | cs => ((numeral radix cs).filter fun n => n ≤ max).map fun n => (n : ℤ)

/-- `format!("\x7b:02x\x7d")` of a byte. -/
def hexByte (b : UInt8) : String :=
  String.ofList [Nat.digitChar (b.toNat / 16), Nat.digitChar (b.toNat % 16)]

theorem digitVal_digitChar {d : ℕ} (h : d < 16) : digitVal 16 (Nat.digitChar d) = some d := by
  have hall : ∀ d < 16, digitVal 16 (Nat.digitChar d) = some d := by decide
  exact hall d h

theorem digitChar_ne_plus {d : ℕ} (h : d < 16) : Nat.digitChar d ≠ '+' := by
  have hall : ∀ d < 16, Nat.digitChar d ≠ '+' := by decide
  exact hall d h

theorem unsignedOfStr_hexByte (b : UInt8) : unsignedOfStr 16 255 (hexByte b) = some b.toNat := by
  have hb := b.toNat_lt
  have hhigh : b.toNat / 16 < 16 := by omega
  have hlow : b.toNat % 16 < 16 := by omega
  have hval : numeral 16 [Nat.digitChar (b.toNat / 16), Nat.digitChar (b.toNat % 16)] =
      some b.toNat := by
    simp only [numeral, digitsVal, digitVal_digitChar hhigh, digitVal_digitChar hlow]
    congr 1
    omega
  rw [unsignedOfStr, hexByte, String.toList_ofList]
  split
  case h_1 cs heq => exact absurd (List.cons.inj heq).1 (digitChar_ne_plus hhigh)
  case h_2 => rw [hval, Option.filter_some, if_pos (by simp; omega)]

/-! ## Hexadecimal numbers -/

theorem digitsVal_append (radix acc : ℕ) (cs ds : List Char) :
    digitsVal radix acc (cs ++ ds) =
      (digitsVal radix acc cs).bind fun n => digitsVal radix n ds := by
  induction cs generalizing acc with
  | nil => rfl
  | cons c cs ih =>
    rw [List.cons_append, digitsVal, digitsVal]
    cases digitVal radix c with
    | none => rfl
    | some d => exact ih _

theorem digitsVal_toDigits (n : ℕ) : digitsVal 16 0 (Nat.toDigits 16 n) = some n := by
  induction n using Nat.strongRecOn with
  | ind n ih =>
    rw [Nat.toDigits_eq_if (by decide)]
    split
    case isTrue h => simp [digitsVal, digitVal_digitChar h]
    case isFalse h =>
      rw [digitsVal_append, ih (n / 16) (by omega), Option.bind_some, digitsVal,
        digitVal_digitChar (by omega)]
      simp only [digitsVal, Option.some.injEq]
      omega

theorem toDigits_inj {n m : ℕ} (h : Nat.toDigits 16 n = Nat.toDigits 16 m) : n = m := by
  have hn := digitsVal_toDigits n
  rw [h, digitsVal_toDigits] at hn
  exact (Option.some.inj hn).symm

end XavierDB

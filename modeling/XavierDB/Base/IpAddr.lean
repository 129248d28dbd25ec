import Mathlib.Data.List.Basic
import XavierDB.Base.Numeral

/-!
# Addresses as Rust's standard library reads and writes them
-/

namespace XavierDB

inductive IpAddr where
  | v4 (a b c d : UInt8)
  | v6 (groups : Vector UInt16 8)
  deriving DecidableEq, Repr

namespace IpAddr

/-! ## Reading -/

/-- A number of at most so many digits and its rest. -/
def readNumber (radix maxDigits max : ℕ) (allowZeroPrefix : Bool) (l : List Char) :
    Option (ℕ × List Char) :=
  let digits := l.takeWhile fun c => (digitVal radix c).isSome
  if maxDigits < digits.length then none
  else if !allowZeroPrefix && digits.head? == some '0' && decide (1 < digits.length) then none
  else ((numeral radix digits).filter fun n => n ≤ max).map fun n => (n, l.drop digits.length)

/-- What the separator precedes, except at the first position. -/
def readSeparator {α : Type} (sep : Char) (first : Bool)
    (inner : List Char → Option (α × List Char)) (l : List Char) : Option (α × List Char) :=
  if first then inner l
  else
    match l with
    | c :: rest => if c = sep then inner rest else none
    | [] => none

def readOctet (first : Bool) (l : List Char) : Option (UInt8 × List Char) :=
  (readSeparator '.' first (readNumber 10 3 255 false) l).map fun p => (p.1.toUInt8, p.2)

def readV4 (l : List Char) : Option ((UInt8 × UInt8 × UInt8 × UInt8) × List Char) := do
  let (a, l) ← readOctet true l
  let (b, l) ← readOctet false l
  let (c, l) ← readOctet false l
  let (d, l) ← readOctet false l
  pure ((a, b, c, d), l)

/-- Two octets as a group. -/
def group (hi lo : UInt8) : UInt16 := hi.toUInt16 * 256 + lo.toUInt16

/-- At most so many groups, whether an IPv4 part ended them, and the rest. -/
def readGroups : ℕ → Bool → List Char → List UInt16 × Bool × List Char
  | 0, _, l => ([], false, l)
  | left + 1, first, l =>
    match if 0 < left then readSeparator ':' first readV4 l else none with
    | some ((a, b, c, d), l) => ([group a b, group c d], true, l)
    | none =>
      match readSeparator ':' first (readNumber 16 4 65535 true) l with
      | some (g, l) =>
        let r := readGroups left false l
        (g.toUInt16 :: r.1, r.2)
      | none => ([], false, l)

def ofGroups (groups : List UInt16) : IpAddr := v6 (Vector.ofFn fun i => groups.getD i 0)

def readV6 (l : List Char) : Option (IpAddr × List Char) :=
  let head := readGroups 8 true l
  if head.1.length = 8 then some (ofGroups head.1, head.2.2)
  else if head.2.1 then none
  else
    match head.2.2 with
    | ':' :: ':' :: l =>
      let tail := readGroups (8 - (head.1.length + 1)) true l
      some (ofGroups (head.1 ++ List.replicate (8 - head.1.length - tail.1.length) 0 ++ tail.1),
        tail.2.2)
    | _ => none

def readIp (l : List Char) : Option (IpAddr × List Char) :=
  match readV4 l with
  | some ((a, b, c, d), l) => some (v4 a b c d, l)
  | none => readV6 l

/-- `IpAddr::from_str`: the whole text is the address. -/
def parse (s : String) : Option IpAddr :=
  match readIp s.toList with
  | some (ip, []) => some ip
  | _ => none

/-! ## Writing -/

def octets (a b c d : UInt8) : String :=
  toString a ++ "." ++ toString b ++ "." ++ toString c ++ "." ++ toString d

def hexGroups (groups : List UInt16) : String :=
  ":".intercalate (groups.map fun g => String.ofList (Nat.toDigits 16 g.toNat))

/-- Start and length of the first longest run of zeros. -/
def zeroSpan (groups : List UInt16) : ℕ × ℕ :=
  let run := fun i => ((groups.drop i).takeWhile fun g => g == 0).length
  (List.range groups.length).foldl (fun best i => if best.2 < run i then (i, run i) else best) (0, 0)

/-- `IpAddr::to_string`. -/
def toText : IpAddr → String
  | v4 a b c d => octets a b c d
  | v6 groups =>
    match groups.toList with
    | [0, 0, 0, 0, 0, 0xffff, g, h] =>
      "::ffff:" ++ octets (g >>> 8).toUInt8 g.toUInt8 (h >>> 8).toUInt8 h.toUInt8
    | gs =>
      let (start, len) := zeroSpan gs
      if 1 < len then hexGroups (gs.take start) ++ "::" ++ hexGroups (gs.drop (start + len))
      else hexGroups gs

example : (parse "::ffff:192.0.2.1").map toText = some "::ffff:192.0.2.1" := by decide +kernel

example : (parse "2001:db8:0:0:1:0:0:1").map toText = some "2001:db8::1:0:0:1" := by decide +kernel

example : parse "1.2.3.04" = none := by decide +kernel

end IpAddr

end XavierDB

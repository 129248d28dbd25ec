import XavierDB.Base.Wildcard

/-!
# Anchored regular expressions

The ECMAScript regular expressions `^...$` without flags whose body is made of
characters, escaped syntax characters, `.` and `.*`. They are read and tested
over code units; `.` stands for any unit that is no line terminator.
-/

namespace XavierDB.RegExp

open Wildcard

/-- `SyntaxCharacter`. -/
def syntaxChars : List Nat := "^$\\.*+?()[]\x7b\x7d|".toList.map Char.toNat

/-- `LineTerminator`: LF, CR, LS and PS. -/
def lineTerminators : List Nat := [0x0A, 0x0D, 0x2028, 0x2029]

/-- The body after `^`, up to the `$` at the end; `none` where the source is no
expression of this form. -/
def parse : List Nat → Option (List (Token Nat))
  | [] => none
  | [u] => if u = '$'.toNat then some [] else none
  | u :: v :: rest =>
    if u = '\\'.toNat then
      if v ∈ syntaxChars then (parse rest).map (.lit v :: ·) else none
    else if u = '.'.toNat then
      if v = '*'.toNat then (parse rest).map (.many :: ·)
      else (parse (v :: rest)).map (.one :: ·)
    else if u ∈ syntaxChars then none
    else (parse (v :: rest)).map (.lit u :: ·)

/-- `new RegExp(source)`. -/
def compile : List Nat → Option (List (Token Nat))
  | [] => none
  | u :: rest => if u = '^'.toNat then parse rest else none

def dot (u : Nat) : Bool := !lineTerminators.contains u

/-- `re.test(value)`. -/
def test (re : Option (List (Token Nat))) (value : List Nat) : Bool :=
  match re with
  | none => false
  | some ts => run dot ts value

variable {u v : Nat} {rest : List Nat}

theorem parse_end : parse ['$'.toNat] = some [] := by decide

/-- A unit that is no syntax character is read as itself. -/
theorem parse_lit (hu : u ∉ syntaxChars) (hrest : rest ≠ []) :
    parse (u :: rest) = (parse rest).map (.lit u :: ·) := by
  obtain ⟨v, rest, rfl⟩ := List.exists_cons_of_ne_nil hrest
  have h1 : u ≠ '\\'.toNat := fun h => hu (h ▸ by decide)
  have h2 : u ≠ '.'.toNat := fun h => hu (h ▸ by decide)
  rw [parse, if_neg h1, if_neg h2, if_neg hu]

theorem parse_escape (hu : u ∈ syntaxChars) :
    parse ('\\'.toNat :: u :: rest) = (parse rest).map (.lit u :: ·) := by
  rw [parse, if_pos rfl, if_pos hu]

theorem parse_many :
    parse ('.'.toNat :: '*'.toNat :: rest) = (parse rest).map (.many :: ·) := by
  rw [parse, if_neg (by decide), if_pos rfl, if_pos rfl]

theorem parse_one (hrest : rest ≠ []) (h : rest.head? ≠ some '*'.toNat) :
    parse ('.'.toNat :: rest) = (parse rest).map (.one :: ·) := by
  obtain ⟨v, rest, rfl⟩ := List.exists_cons_of_ne_nil hrest
  rw [parse, if_neg (by decide), if_pos rfl, if_neg fun hv => h (congrArg some hv)]

end XavierDB.RegExp

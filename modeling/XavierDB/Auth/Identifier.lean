import XavierDB.Base.Text

/-!
# Identifiers (`src/auth.rs`)
-/

namespace XavierDB.Auth

def isIdentifierChar (c : Char) : Bool := c.isAlphanum || "-_.:~".toList.contains c

/-- `parse_identifier`: `name@app`. -/
def parseIdentifier (id : String) : Option (String × String) :=
  (rsplitOnce "@" id).bind fun p =>
    if p.1.isEmpty || p.2.isEmpty then none
    else if p.1.utf8ByteSize > 64 || p.2.utf8ByteSize > 64 then none
    else if !p.1.toList.all isIdentifierChar || !p.2.toList.all isIdentifierChar then none
    else some (p.1, p.2)

/-- A name or an app. -/
structure IsIdentifier (s : String) : Prop where
  ne : s ≠ ""
  length : s.length ≤ 64
  char : ∀ c ∈ s.toList, isIdentifierChar c = true

theorem parseIdentifier_some {id name app : String} (h : parseIdentifier id = some (name, app)) :
    id = name ++ "@" ++ app ∧ IsIdentifier name ∧ IsIdentifier app := by
  obtain ⟨p, hp, h⟩ := Option.bind_eq_some_iff.mp h
  split at h
  · cases h
  case isFalse hempty =>
    split at h
    · cases h
    case isFalse hsize =>
      split at h
      · cases h
      case isFalse hchar =>
        obtain ⟨rfl, rfl⟩ := Prod.mk.inj (Option.some.inj h)
        simp only [Bool.or_eq_true, decide_eq_true_eq, Bool.not_eq_true', not_or,
          Bool.not_eq_false, List.all_eq_true, Nat.not_lt, Bool.not_eq_true,
          String.isEmpty_eq_false_iff] at hempty hsize hchar
        have hname := length_le_utf8ByteSize p.1
        have happ := length_le_utf8ByteSize p.2
        exact ⟨eq_of_rsplitOnce hp, ⟨hempty.1, by omega, hchar.1⟩, ⟨hempty.2, by omega, hchar.2⟩⟩

/-- No blank and no `@` is a character of an identifier. -/
theorem IsIdentifier.notMem {s : String} (h : IsIdentifier s) {c : Char}
    (hc : isIdentifierChar c = false) : c ∉ s.toList := by
  intro hmem
  rw [h.char c hmem] at hc
  cases hc

theorem isWhiteSpace_identifierChar {c : Char} (h : isIdentifierChar c = true) :
    isWhiteSpace c = false := by
  rcases Bool.or_eq_true_iff.mp h with h | h
  · have hsplit : c.isAlphanum = (c.isAlpha || c.isDigit) := rfl
    rw [hsplit, Bool.or_eq_true, isAlpha_iff, isDigit_iff] at h
    simp only [isWhiteSpace, Bool.or_eq_false_iff, Bool.and_eq_false_iff, decide_eq_false_iff_not,
      beq_eq_false_iff_ne]
    omega
  · have hmem := List.contains_iff_mem.mp h
    have hall : "-_.:~".toList.all (fun c => !isWhiteSpace c) = true := by decide
    exact Bool.not_eq_eq_eq_not.mp (List.all_eq_true.mp hall c hmem)

end XavierDB.Auth

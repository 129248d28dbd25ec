import Mathlib.Data.List.Basic

/-!
# UTF-16

A text as a sequence of 16-bit code units, as ECMAScript sees a string. A
character above U+FFFF takes two units, none of which is a unit of another
character.
-/

namespace XavierDB

/-- The code units of a character. -/
def utf16Char (c : Char) : List Nat :=
  if c.toNat < 0x10000 then [c.toNat]
  else [0xD800 + (c.toNat - 0x10000) / 0x400, 0xDC00 + (c.toNat - 0x10000) % 0x400]

def utf16 (s : String) : List Nat := s.toList.flatMap utf16Char

variable {c d : Char} {l m : List Char}

theorem toNat_valid (c : Char) :
    c.toNat < 0xD800 ∨ (0xDFFF < c.toNat ∧ c.toNat < 0x110000) := c.valid

theorem utf16Char_of_lt (h : c.toNat < 0x10000) : utf16Char c = [c.toNat] := if_pos h

theorem utf16Char_of_not_lt (h : ¬ c.toNat < 0x10000) : utf16Char c =
    [0xD800 + (c.toNat - 0x10000) / 0x400, 0xDC00 + (c.toNat - 0x10000) % 0x400] := if_neg h

/-- The first unit of a pair is the unit of no character. -/
theorem high_ne_toNat (h : ¬ c.toNat < 0x10000) (d : Char) :
    0xD800 + (c.toNat - 0x10000) / 0x400 ≠ d.toNat := by
  have := toNat_valid c
  have := toNat_valid d
  omega

theorem utf16Char_append_inj {x y : List Nat} (h : utf16Char c ++ x = utf16Char d ++ y) :
    c = d ∧ x = y := by
  by_cases hc : c.toNat < 0x10000 <;> by_cases hd : d.toNat < 0x10000
  · rw [utf16Char_of_lt hc, utf16Char_of_lt hd] at h
    obtain ⟨hcd, hxy⟩ := List.cons.inj h
    exact ⟨Char.toNat_inj.mp hcd, hxy⟩
  · rw [utf16Char_of_lt hc, utf16Char_of_not_lt hd] at h
    exact absurd (List.cons.inj h).1.symm (high_ne_toNat hd c)
  · rw [utf16Char_of_not_lt hc, utf16Char_of_lt hd] at h
    exact absurd (List.cons.inj h).1 (high_ne_toNat hc d)
  · rw [utf16Char_of_not_lt hc, utf16Char_of_not_lt hd] at h
    obtain ⟨hhigh, h⟩ := List.cons.inj h
    obtain ⟨hlow, hxy⟩ := List.cons.inj h
    refine ⟨Char.toNat_inj.mp ?_, hxy⟩
    omega

theorem flatMap_utf16Char_inj (h : l.flatMap utf16Char = m.flatMap utf16Char) : l = m := by
  induction l generalizing m with
  | nil =>
    cases m with
    | nil => rfl
    | cons d m =>
      unfold utf16Char at h
      simp only [List.flatMap_nil, List.flatMap_cons] at h
      split at h <;> cases h
  | cons c l ih =>
    cases m with
    | nil =>
      unfold utf16Char at h
      simp only [List.flatMap_nil, List.flatMap_cons] at h
      split at h <;> cases h
    | cons d m =>
      obtain ⟨rfl, hrest⟩ := utf16Char_append_inj h
      rw [ih hrest]

theorem utf16_inj {s t : String} : utf16 s = utf16 t ↔ s = t :=
  ⟨fun h => String.toList_inj.mp (flatMap_utf16Char_inj h), congrArg utf16⟩

theorem length_utf16Char_pos (c : Char) : 1 ≤ (utf16Char c).length := by
  unfold utf16Char
  split
  · exact Nat.le_refl _
  · exact Nat.le_succ _

theorem length_le_utf16 (l : List Char) : l.length ≤ (l.flatMap utf16Char).length := by
  induction l with
  | nil => exact Nat.le_refl _
  | cons c l ih =>
    rw [List.flatMap_cons, List.length_append, List.length_cons]
    have := length_utf16Char_pos c
    omega

/-- A text with a character above U+FFFF has more units than characters. -/
theorem length_lt_utf16 (hc : c ∈ l) (h : ¬ c.toNat < 0x10000) :
    l.length < (l.flatMap utf16Char).length := by
  obtain ⟨a, b, rfl⟩ := List.append_of_mem hc
  rw [List.flatMap_append, List.flatMap_cons, List.length_append, List.length_append,
    List.length_append, List.length_cons, utf16Char_of_not_lt h]
  have ha := length_le_utf16 a
  have hb := length_le_utf16 b
  simp only [List.length_cons, List.length_nil]
  omega

theorem toNat_mem_utf16 (hc : c ∈ l) (h : c.toNat < 0x10000) : c.toNat ∈ l.flatMap utf16Char :=
  List.mem_flatMap.mpr ⟨c, hc, by rw [utf16Char_of_lt h]; exact List.mem_singleton_self _⟩

end XavierDB

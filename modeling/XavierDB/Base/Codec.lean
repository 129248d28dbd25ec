import XavierDB.Base.SortedMap
import Mathlib.Data.List.Nodup

/-!
# Self-delimiting codecs

A `Codec` writes a value as bytes and reads it back off the front of any byte
list, leaving the rest. That law composes, so codecs of records and lists come
from those of their parts.
-/

namespace XavierDB

structure Codec (α : Type) where
  encode : α → List UInt8
  decode : List UInt8 → Option (α × List UInt8)
  decode_encode : ∀ a rest, decode (encode a ++ rest) = some (a, rest)

namespace Codec

variable {α β : Type}

/-! ## Numbers -/

/-- Seven bits a byte, lowest first; a byte above 127 has a successor. -/
def natBytes : Nat → Nat → List UInt8
  | 0, _ => []
  | fuel + 1, n =>
    if n < 128 then [n.toUInt8] else (n % 128 + 128).toUInt8 :: natBytes fuel (n / 128)

def natOfBytes : List UInt8 → Option (Nat × List UInt8)
  | [] => none
  | b :: rest =>
    if b.toNat < 128 then some (b.toNat, rest)
    else (natOfBytes rest).map fun p => (b.toNat - 128 + 128 * p.1, p.2)

theorem natOfBytes_natBytes (rest : List UInt8) :
    ∀ fuel n, n < fuel → natOfBytes (natBytes fuel n ++ rest) = some (n, rest) := by
  have byte : ∀ m, m < 256 → m.toUInt8.toNat = m := fun m hm => by
    simp [Nat.mod_eq_of_lt hm]
  intro fuel
  induction fuel with
  | zero => intro n h; omega
  | succ fuel ih =>
    intro n h
    rw [natBytes]
    split
    case isTrue hn => simp [natOfBytes, byte n (by omega), hn]
    case isFalse hn =>
      rw [List.cons_append, natOfBytes, byte _ (by omega), if_neg (by omega),
        ih (n / 128) (by omega)]
      simp only [Option.map_some, Nat.add_sub_cancel, Nat.mod_add_div]

def nat : Codec Nat where
  encode n := natBytes (n + 1) n
  decode := natOfBytes
  decode_encode n rest := natOfBytes_natBytes rest (n + 1) n (Nat.lt_succ_self n)

/-! ## Combinators -/

/-- A codec along a map with a section. -/
def imap (c : Codec α) (f : α → β) (g : β → α) (h : ∀ b, f (g b) = b) : Codec β where
  encode b := c.encode (g b)
  decode bytes := (c.decode bytes).map fun p => (f p.1, p.2)
  decode_encode b rest := by rw [c.decode_encode, Option.map_some, h]

def prod (c : Codec α) (d : Codec β) : Codec (α × β) where
  encode p := c.encode p.1 ++ d.encode p.2
  decode bytes := (c.decode bytes).bind fun p => (d.decode p.2).map fun q => ((p.1, q.1), q.2)
  decode_encode p rest := by
    rw [List.append_assoc, c.decode_encode, Option.bind_some, d.decode_encode, Option.map_some]

/-- `n` items in a row. -/
def decodeMany (c : Codec α) : Nat → List UInt8 → Option (List α × List UInt8)
  | 0, bytes => some ([], bytes)
  | n + 1, bytes =>
    (c.decode bytes).bind fun p => (decodeMany c n p.2).map fun q => (p.1 :: q.1, q.2)

theorem decodeMany_flatMap (c : Codec α) (l : List α) (rest : List UInt8) :
    c.decodeMany l.length (l.flatMap c.encode ++ rest) = some (l, rest) := by
  induction l with
  | nil => rfl
  | cons a l ih =>
    rw [List.length_cons, decodeMany, List.flatMap_cons, List.append_assoc, c.decode_encode,
      Option.bind_some, ih, Option.map_some]

/-- The length, then the items. -/
def list (c : Codec α) : Codec (List α) where
  encode l := nat.encode l.length ++ l.flatMap c.encode
  decode bytes := (nat.decode bytes).bind fun p => c.decodeMany p.1 p.2
  decode_encode l rest := by
    rw [List.append_assoc, nat.decode_encode, Option.bind_some, decodeMany_flatMap]

def string : Codec String :=
  (list (nat.imap Char.ofNat Char.toNat Char.ofNat_toNat)).imap String.ofList String.toList
    fun _ => String.ofList_toList

def int : Codec Int :=
  (nat.prod nat).imap (fun p => (p.1 : Int) - p.2) (fun i => (i.toNat, (-i).toNat))
    fun i => by simp only; omega

def option (c : Codec α) : Codec (Option α) :=
  c.list.imap List.head? Option.toList fun o => by cases o <;> rfl

def sortedMap {κ ν : Type} [LinearOrder κ] (c : Codec κ) (d : Codec ν) : Codec (SortedMap κ ν) :=
  (c.prod d).list.imap .ofEntries SortedMap.entries SortedMap.ofEntries_entries

/-! ## Text -/

/-- One character a byte. -/
def text (c : Codec α) (a : α) : String :=
  String.ofList ((c.encode a).map fun b => Char.ofNat b.toNat)

/-- The value of a whole text. -/
def ofText (c : Codec α) (s : String) : Option α :=
  match c.decode (s.toList.map fun x => x.toNat.toUInt8) with
  | some (a, []) => some a
  | _ => none

theorem ofText_text (c : Codec α) (a : α) : c.ofText (c.text a) = some a := by
  have hbyte : ∀ b : UInt8, (Char.ofNat b.toNat).toNat.toUInt8 = b := fun b => by
    have hb : b.toNat.isValidChar := .inl (by have := b.toNat_lt; omega)
    have hval : (Char.ofNat b.toNat).toNat = b.toNat := by
      rw [Char.ofNat, dif_pos hb]; rfl
    rw [hval]
    exact UInt8.ofNat_toNat
  have hbytes : ((c.text a).toList.map fun x => x.toNat.toUInt8) = c.encode a := by
    simp only [text, String.toList_ofList, List.map_map, Function.comp_def, hbyte, List.map_id']
  have hd := c.decode_encode a []
  rw [List.append_nil] at hd
  rw [ofText, hbytes, hd]

/-! ## Tables -/

/-- The text in the table, or the codec's behind a mark that no text of the table has. -/
def tableText [DecidableEq α] (c : Codec α) (mark : Char) (table : List (α × String)) (a : α) :
    String :=
  match table.find? fun p => p.1 = a with
  | some p => p.2
  | none => String.ofList (mark :: (c.text a).toList)

def ofTableText (c : Codec α) (table : List (α × String)) (s : String) : Option α :=
  match table.find? fun p => p.2 = s with
  | some p => some p.1
  | none => c.ofText (String.ofList (s.toList.drop 1))

theorem ofTableText_tableText [DecidableEq α] (c : Codec α) {mark : Char}
    {table : List (α × String)} (hnodup : (table.map Prod.snd).Nodup)
    (hmark : ∀ p ∈ table, ∃ x l, p.2 = String.ofList (x :: l) ∧ x ≠ mark) (a : α) :
    c.ofTableText table (c.tableText mark table a) = some a := by
  unfold tableText
  cases hf : table.find? fun p => p.1 = a with
  | some p =>
    have hp : p ∈ table := List.mem_of_find?_eq_some hf
    have ha : p.1 = a := by simpa using List.find?_some hf
    have hq : table.find? (fun q => q.2 = p.2) = some p := by
      clear hf hmark
      induction table with
      | nil => cases hp
      | cons q table ih =>
        rw [List.map_cons, List.nodup_cons] at hnodup
        rcases List.mem_cons.mp hp with rfl | hp
        · simp
        · have hne : q.2 ≠ p.2 := fun he => hnodup.1 (he ▸ List.mem_map_of_mem hp)
          rw [List.find?_cons_of_neg (by simpa using hne), ih hnodup.2 hp]
    simp only [ofTableText, hq, ha]
  | none =>
    have hq : table.find? (fun q => q.2 = String.ofList (mark :: (c.text a).toList)) = none := by
      rw [List.find?_eq_none]
      intro p hp he
      rw [decide_eq_true_iff] at he
      obtain ⟨x, l, hx, hne⟩ := hmark p hp
      rw [hx, String.ofList_inj, List.cons.injEq] at he
      exact hne he.1
    simp only [ofTableText, hq, String.toList_ofList, List.drop_one, List.tail_cons,
      String.ofList_toList, ofText_text]

end Codec

end XavierDB

import XavierDB.Base.Binary64
import XavierDB.Base.Codec
import XavierDB.Base.Utf8

/-!
# The bincode format, standard configuration

Integers are variable-length, a text is its length and its UTF-8 bytes, a
sequence its length and its items, a record its fields.
-/

namespace XavierDB

/-! ## Little-endian bytes -/

def leBytes : Nat → Nat → List UInt8
  | 0, _ => []
  | k + 1, n => n.toUInt8 :: leBytes k (n / 256)

def ofLeBytes : List UInt8 → Nat
  | [] => 0
  | b :: bytes => b.toNat + 256 * ofLeBytes bytes

theorem length_leBytes (k n : Nat) : (leBytes k n).length = k := by
  induction k generalizing n with
  | zero => rfl
  | succ k ih => rw [leBytes, List.length_cons, ih]

theorem ofLeBytes_leBytes {k n : Nat} (h : n < 256 ^ k) : ofLeBytes (leBytes k n) = n := by
  induction k generalizing n with
  | zero => exact (Nat.lt_one_iff.mp h).symm
  | succ k ih =>
    have hn : n / 256 < 256 ^ k := Nat.div_lt_of_lt_mul (by rwa [Nat.pow_succ'] at h)
    have hb : n.toUInt8.toNat = n % 256 := by simp
    rw [leBytes, ofLeBytes, ih hn, hb]
    exact Nat.mod_add_div n 256

namespace Codec

variable {α : Type}

/-- `k` bytes, lowest first, behind a tag byte. -/
def taken (k : Nat) (bytes : List UInt8) : Option (Nat × List UInt8) :=
  if bytes.length < k then none else some (ofLeBytes (bytes.take k), bytes.drop k)

theorem taken_leBytes {k n : Nat} (h : n < 256 ^ k) (rest : List UInt8) :
    taken k (leBytes k n ++ rest) = some (n, rest) := by
  have hlen := length_leBytes k n
  unfold taken
  rw [if_neg (by rw [List.length_append, hlen]; omega), List.take_left' hlen,
    List.drop_left' hlen, ofLeBytes_leBytes h]

/-! ## Numbers -/

def varintBytes (n : Nat) : List UInt8 :=
  if n < 251 then [n.toUInt8]
  else if n < 256 ^ 2 then 251 :: leBytes 2 n
  else if n < 256 ^ 4 then 252 :: leBytes 4 n
  else if n < 256 ^ 8 then 253 :: leBytes 8 n
  else 254 :: natBytes (n + 1) n

def varintOfBytes : List UInt8 → Option (Nat × List UInt8)
  | [] => none
  | b :: rest =>
    if b.toNat < 251 then some (b.toNat, rest)
    else if b = 251 then taken 2 rest
    else if b = 252 then taken 4 rest
    else if b = 253 then taken 8 rest
    else natOfBytes rest

/-- Numbers from `2 ^ 64` on, which no type of the format holds, follow in base 128. -/
def varint : Codec Nat where
  encode := varintBytes
  decode := varintOfBytes
  decode_encode n rest := by
    unfold varintBytes
    split
    case isTrue h =>
      have hb : n.toUInt8.toNat = n := by simp; omega
      rw [List.singleton_append, varintOfBytes, hb, if_pos h]
    case isFalse =>
      split
      case isTrue h => exact taken_leBytes h rest
      case isFalse =>
        split
        case isTrue h => exact taken_leBytes h rest
        case isFalse =>
          split
          case isTrue h => exact taken_leBytes h rest
          case isFalse => exact natOfBytes_natBytes rest (n + 1) n (Nat.lt_succ_self n)

def u32 : Codec UInt32 := varint.imap UInt32.ofNat UInt32.toNat fun _ => UInt32.ofNat_toNat

def u64 : Codec UInt64 := varint.imap UInt64.ofNat UInt64.toNat fun _ => UInt64.ofNat_toNat

/-- Zigzag: even numbers for the non-negative, odd ones for the negative. -/
def zigzag (i : Int) : Nat := if 0 ≤ i then 2 * i.toNat else 2 * (-i - 1).toNat + 1

def ofZigzag (n : Nat) : Int := if n % 2 = 0 then (n / 2 : Nat) else -(n / 2 : Nat) - 1

theorem ofZigzag_zigzag (i : Int) : ofZigzag (zigzag i) = i := by
  unfold zigzag ofZigzag
  split <;> split <;> omega

def i64 : Codec Int64 :=
  varint.imap (fun n => Int64.ofInt (ofZigzag n)) (fun i => zigzag i.toInt) fun i => by
    rw [ofZigzag_zigzag, Int64.ofInt_toInt]

def f64 : Codec Binary64 where
  encode x := leBytes 8 x.toBits
  decode bytes := (taken 8 bytes).map fun p => (Binary64.ofBits p.1, p.2)
  decode_encode x rest := by
    rw [taken_leBytes x.toBits_lt, Option.map_some, Binary64.ofBits_toBits]

def u8 : Codec UInt8 where
  encode b := [b]
  decode
    | [] => none
    | b :: rest => some (b, rest)
  decode_encode _ _ := rfl

/-! ## Sequences -/

def seq (c : Codec α) : Codec (List α) where
  encode l := varint.encode l.length ++ l.flatMap c.encode
  decode bytes := (varint.decode bytes).bind fun p => c.decodeMany p.1 p.2
  decode_encode l rest := by
    rw [List.append_assoc, varint.decode_encode, Option.bind_some, decodeMany_flatMap]

/-- A text by its UTF-8 bytes. -/
def utf8 : Codec String :=
  u8.seq.imap
    (fun l => if h : (⟨l.toArray⟩ : ByteArray).IsValidUTF8 then .ofByteArray ⟨l.toArray⟩ h else "")
    (fun s => s.toByteArray.data.toList) fun s => by
      rw [dif_pos (by exact s.isValidUTF8)]

def map {κ ν : Type} [LinearOrder κ] (c : Codec κ) (d : Codec ν) : Codec (SortedMap κ ν) :=
  (c.prod d).seq.imap .ofEntries SortedMap.entries SortedMap.ofEntries_entries

end Codec

end XavierDB

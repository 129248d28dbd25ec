import Mathlib.Algebra.Order.Floor.Ring
import Mathlib.Data.Rat.Floor
import XavierDB.Base.Binary64

/-!
# Number types of a computation

The operations that code on `f64` uses, as a class, so that one definition runs
on doubles and on exact rationals. The rational ones are monotone.
-/

namespace XavierDB

class Arith (F : Type) extends Add F, Sub F, Mul F, Div F, Max F where
  ofU32 : UInt32 → F
  /-- a decimal literal `num / den` -/
  lit : Nat → Nat → F
  /-- `clamp` with its bounds first -/
  clamp : F → F → F → F
  ge : F → F → Bool
  round : F → F
  /-- `as u32`, saturating -/
  toU32 : F → UInt32

instance : Arith Binary64 where
  add := .add
  sub := .sub
  mul := .mul
  div := .div
  max := .max
  ofU32 n := .lit n.toNat 1
  lit := .lit
  clamp := .clamp
  ge x y := Binary64.le y x
  round := .round
  toU32 := Binary64.toU32

namespace Exact

def clamp (lo hi x : ℚ) : ℚ := if x < lo then lo else if hi < x then hi else x

/-- The nearest integer, halves away from zero. -/
def round (x : ℚ) : ℚ := if 0 ≤ x then ⌊x + 1 / 2⌋ else -⌊-x + 1 / 2⌋

def toU32 (x : ℚ) : UInt32 := UInt32.ofNat (Nat.min ⌊x⌋.toNat (2 ^ 32 - 1))

end Exact

instance : Arith ℚ where
  ofU32 n := (n.toNat : ℚ)
  lit num den := (num : ℚ) / den
  clamp := Exact.clamp
  ge x y := decide (y ≤ x)
  round := Exact.round
  toU32 := Exact.toU32

namespace Exact

theorem clamp_mono {lo hi x y : ℚ} (hb : lo ≤ hi) (h : x ≤ y) : clamp lo hi x ≤ clamp lo hi y := by
  unfold clamp
  split_ifs <;> linarith

theorem clamp_mem {lo hi : ℚ} (hb : lo ≤ hi) (x : ℚ) : lo ≤ clamp lo hi x ∧ clamp lo hi x ≤ hi := by
  unfold clamp
  split_ifs <;> constructor <;> linarith

theorem clamp_of_le {lo hi x : ℚ} (hb : lo ≤ hi) (h : x ≤ lo) : clamp lo hi x = lo := by
  unfold clamp
  split_ifs <;> linarith

theorem round_mono {x y : ℚ} (h : x ≤ y) : round x ≤ round y := by
  unfold round
  split_ifs with hx hy hy
  · exact_mod_cast Int.floor_le_floor (by linarith)
  · exact absurd (hx.trans h) hy
  · have h1 : (0 : ℤ) ≤ ⌊-x + 1 / 2⌋ := Int.floor_nonneg.mpr (by linarith)
    have h2 : (0 : ℤ) ≤ ⌊y + 1 / 2⌋ := Int.floor_nonneg.mpr (by linarith)
    have h3 : -⌊-x + 1 / 2⌋ ≤ ⌊y + 1 / 2⌋ := by omega
    exact_mod_cast h3
  · have := Int.floor_le_floor (show -y + 1 / 2 ≤ -x + 1 / 2 by linarith)
    exact_mod_cast neg_le_neg this

theorem toNat_toU32 (x : ℚ) : (toU32 x).toNat = min ⌊x⌋.toNat (2 ^ 32 - 1) :=
  UInt32.toNat_ofNat_of_lt' (lt_of_le_of_lt (Nat.min_le_right _ _) (by decide))

theorem toU32_mono {x y : ℚ} (h : x ≤ y) : toU32 x ≤ toU32 y := by
  rw [UInt32.le_iff_toNat_le, toNat_toU32, toNat_toU32]
  exact min_le_min_right _ (Int.toNat_le_toNat (Int.floor_le_floor h))

end Exact

end XavierDB

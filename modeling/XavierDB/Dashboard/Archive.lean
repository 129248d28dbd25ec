import Mathlib.Data.Int.Interval
import XavierDB.Base.Arith
import XavierDB.Base.Buckets

/-!
# The rate archive (`src/assets/ts/rps-archive.ts`)

The dashboard samples the rates of apps and names at every poll. Each rate goes
into ten tiers of time buckets, which are closed as time goes on and dropped
when they are too old; a series that was not sampled for forty days is dropped
at the next save. A chart of a window reads the finest tier that reaches back
far enough. It shows the means of the samples themselves, bucket by bucket,
and every bucket that begins in the window.
-/

namespace XavierDB.Dashboard.Archive

variable {V : Type} [Arith V]

/-! ## Tiers -/

/-- `RPS_TIERS`: the seconds of a bucket, and the seconds it is kept. -/
def rpsTiers : List (ℤ × ℤ) :=
  [(1, 600), (4, 2400), (12, 3600), (60, 36000), (300, 180000), (900, 259200), (1800, 1209600),
    (7200, 5259600), (21600, 7889400), (86400, 34560000)]

/-- `RPS_TARGET_POINTS`. -/
def rpsTargetPoints : ℕ := 300

structure OpenBucket (V : Type) where
  t : ℤ
  sum : V
  n : ℕ

/-- `RpsTier`; `ts` and `vs` are one list. -/
structure RpsTier (V : Type) where
  closed : List (ℤ × V)
  opened : Option (OpenBucket V)

def OpenBucket.mean (o : OpenBucket V) : V := o.sum / Arith.lit o.n 1

/-- The loop body of `pushSample`. -/
def RpsTier.push (res keep : ℤ) (tier : RpsTier V) (tSec : ℤ) (v : V) : RpsTier V :=
  let bt := tSec / res * res
  match tier.opened with
  | some o =>
    if o.t = bt then { tier with opened := some ⟨o.t, o.sum + v, o.n + 1⟩ }
    else ⟨(tier.closed ++ [(o.t, o.mean)]).dropWhile fun p => p.1 < tSec - keep, some ⟨bt, v, 1⟩⟩
  | none => ⟨tier.closed.dropWhile fun p => p.1 < tSec - keep, some ⟨bt, v, 1⟩⟩

structure Series (V : Type) where
  lastT : ℤ
  tiers : List (RpsTier V)

def Series.new (tSec : ℤ) : Series V := ⟨tSec, rpsTiers.map fun _ => ⟨[], none⟩⟩

/-- `pushSample`. -/
def Series.push (s : Series V) (x : ℤ × V) : Series V :=
  ⟨x.1, List.zipWith (fun p tier => tier.push p.1 p.2 x.1 x.2) rpsTiers s.tiers⟩

structure RpsArchive (V : Type) where
  series : String → Option (Series V)
  firstT : ℤ

structure NameRate (V : Type) where
  name : String
  rps : V

structure AppRate (V : Type) where
  app : String
  rps : V
  names : List (NameRate V)

/-- The series that a poll feeds. -/
def rates (apps : List (AppRate V)) : List (String × V) :=
  apps.flatMap fun a => (a.app, max (Arith.lit 0 1) a.rps) ::
    a.names.map fun n => ("name:" ++ n.name ++ "@" ++ a.app, max (Arith.lit 0 1) n.rps)

def RpsArchive.pushSample (a : RpsArchive V) (tSec : ℤ) (r : String × V) : RpsArchive V :=
  { a with series := fun key =>
      if key = r.1 then some (((a.series r.1).getD (.new tSec)).push (tSec, r.2))
      else a.series key }

/-- `sample`; the saves that it starts are steps of their own. -/
def RpsArchive.sample (a : RpsArchive V) (apps : List (AppRate V)) (tSec : ℤ) : RpsArchive V :=
  (rates apps).foldl (fun a r => a.pushSample tSec r)
    { a with firstT := if a.firstT = 0 then tSec else a.firstT }

/-- `save` drops the series that are no longer sampled. -/
def RpsArchive.save (a : RpsArchive V) (nowSec : ℤ) : RpsArchive V :=
  { a with series := fun key => (a.series key).filter fun s => !(nowSec - s.lastT > 40 * 86400) }

inductive Act (V : Type) where
  | sample (apps : List (AppRate V)) (tSec : ℤ)
  | save (nowSec : ℤ)

def Act.time : Act V → ℤ
  | .sample _ tSec => tSec
  | .save nowSec => nowSec

def step (a : RpsArchive V) : Act V → RpsArchive V
  | .sample apps tSec => a.sample apps tSec
  | .save nowSec => a.save nowSec

def start : RpsArchive V := ⟨fun _ => none, 0⟩

/-! ## Charts -/

structure Point (V : Type) where
  t : ℚ
  v : V

/-- The bin of a point, with times that are exact. Those of the points of a tier are half seconds,
and in bins of whole seconds doubles give the same (`binOf_eq_double`). -/
def binOf (target : ℕ) (t0 : ℤ) (w : ℚ) (p : Point V) : ℕ :=
  min ⌊(p.t - t0) / w⌋.toNat (target - 1)

/-- `rebin`. -/
def rebin (pts : List (Point V)) (target : ℕ) (t0 t1 : ℤ) : List (Point V) :=
  if pts.length ≤ target ∨ t1 ≤ t0 then pts
  else
    let w : ℚ := (t1 - t0) / target
    let acc := pts.foldl (fun acc p => acc.modify (binOf target t0 w p) fun b =>
      (b.1 + p.v, b.2 + 1)) (List.replicate target (Arith.lit 0 1, 0))
    (acc.zipIdx).filterMap fun (b, i) =>
      if b.2 = 0 then none else some ⟨t0 + (i + 1 / 2) * w, b.1 / Arith.lit b.2 1⟩

/-- The tier that a window reads. -/
def tierOf (windowSec : ℤ) : ℕ :=
  min (rpsTiers.findIdx fun p => windowSec ≤ p.2) (rpsTiers.length - 1)

/-- The points of a tier from `t0` on. -/
def RpsTier.points (res t0 : ℤ) (tier : RpsTier V) : List (Point V) :=
  (tier.closed.filter fun p => t0 < p.1 + res).map (fun p => ⟨p.1 + res / 2, p.2⟩) ++
    ((tier.opened.filter fun o => o.n ≠ 0).map fun o => (⟨o.t + res / 2, o.mean⟩ : Point V)).toList

/-- `window`, for one of its keys. -/
def RpsArchive.window (a : RpsArchive V) (key : String) (windowSec nowSec : ℤ) : List (Point V) :=
  let ti := tierOf windowSec
  let res := (rpsTiers.getD ti (1, 0)).1
  let t0 := nowSec - windowSec
  let pts := match (a.series key).bind fun s => s.tiers[ti]? with
    | some tier => tier.points res t0
    | none => []
  rebin pts rpsTargetPoints t0 nowSec

/-- The bin that doubles give, of so many half seconds and bins of so many seconds. -/
def binOfDouble (target half w : ℕ) : ℕ :=
  min (Binary64.toU32 (.div (.lit half 2) (.lit w 1))).toNat (target - 1)

omit [Arith V] in
theorem binOf_eq_double {p : Point V} {t0 : ℤ} {half w : ℕ} (hw : 0 < w) (hws : w ≤ 2 ^ 19)
    (hhalf : half < 2 ^ 32) (hp : p.t = t0 + half / 2) (target : ℕ) :
    binOf target t0 w p = binOfDouble target half w := by
  have hquot : (p.t - t0) / w = (half : ℚ) / (2 * w : ℕ) := by
    rw [hp, Nat.cast_mul, Nat.cast_two, add_sub_cancel_left, div_div]
  rw [binOf, binOfDouble, Binary64.toU32_div_lit hw hws hhalf, hquot,
    Int.floor_div_natCast, Int.floor_natCast, ← Int.natCast_ediv, Int.toNat_natCast]

/-! ## A tier sums up its samples -/

/-- The start of the bucket of a time. -/
def bucket (res tSec : ℤ) : ℤ := tSec / res * res

def mean : List (ℤ × V) → V
  | [] => Arith.lit 0 1
  | x :: xs => xs.foldl (fun s y => s + y.2) x.2 / Arith.lit (xs.length + 1) 1

variable {res keep : ℤ} {xs : List (ℤ × V)}

/-- The samples of a bucket. -/
def samplesOf (res : ℤ) (xs : List (ℤ × V)) (bt : ℤ) : List (ℤ × V) :=
  xs.filter fun x => bucket res x.1 = bt

/-- The point of a bucket. -/
def pointOf (res : ℤ) (xs : List (ℤ × V)) (bt : ℤ) : Point V :=
  ⟨bt + res / 2, mean (samplesOf res xs bt)⟩

variable {t0 : ℤ} {p : Point V}

/-- What a tier shows from `t0` on: points of its buckets, and of those that begin at `t0` or
later each. -/
structure Shows (res t0 : ℤ) (xs : List (ℤ × V)) (pts : List (Point V)) : Prop where
  sorted : pts.Pairwise fun p q => p.t < q.t
  sound : ∀ p ∈ pts, ∃ x ∈ xs, p = pointOf res xs (bucket res x.1) ∧
    (t0 < bucket res x.1 + res ∨ ∀ y ∈ xs, bucket res y.1 ≤ bucket res x.1)
  complete : ∀ x ∈ xs, t0 ≤ bucket res x.1 → pointOf res xs (bucket res x.1) ∈ pts

/-- The samples of a series that no save has dropped. -/
def rawStep (key : String) (xs : List (ℤ × V)) : Act V → List (ℤ × V)
  | .sample apps tSec =>
    xs ++ ((rates apps).filter fun r => r.1 = key).map fun r => (tSec, r.2)
  | .save nowSec =>
    match xs.getLast? with
    | some x => if nowSec - x.1 > 40 * 86400 then [] else xs
    | none => []

def raw (key : String) (acts : List (Act V)) : List (ℤ × V) := acts.foldl (rawStep key) []

/-- What `window` is asked for: its bins, if it has any, are whole seconds. -/
structure Fits (windowSec : ℤ) : Prop where
  pos : 0 < windowSec
  le : windowSec ≤ 34560000
  whole : windowSec < rpsTargetPoints ∨ (rpsTargetPoints : ℤ) ∣ windowSec

end XavierDB.Dashboard.Archive

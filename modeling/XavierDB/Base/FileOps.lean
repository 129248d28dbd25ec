import Mathlib.Logic.Function.Basic
import XavierDB.Base.Utf8

/-!
# File operations that may fail

A program is a list of operations on named files, each of which is done, fails,
or is the last thing the process does. A rename or a removal that is not done
leaves the directory as it was; a copy or a write that is not done leaves
anything in its target. A program does not touch the files its operations do
not target (`run_of_not_mem`).
-/

namespace XavierDB.FileOps

variable {ν : Type} [DecidableEq ν]

abbrev Dir (ν : Type) := ν → Option Bytes

inductive Op (ν : Type) where
  | remove (p : ν)
  /-- of a file that is there -/
  | rename (p q : ν)
  /-- of a file that is there -/
  | copy (p q : ν)
  /-- an empty file, in place of what was there -/
  | create (p : ν)
  | write (p : ν) (bytes : Bytes)
  | sync (p : ν)

/-- The files an operation may change. -/
def Op.targets : Op ν → List ν
  | remove p | create p | write p _ | sync p => [p]
  | rename p q => [p, q]
  | copy _ q => [q]

/-- The operation is done. -/
def Op.apply (d : Dir ν) : Op ν → Dir ν
  | remove p => Function.update d p none
  | rename p q =>
    if (d p).isSome then Function.update (Function.update d p none) q (d p) else d
  | copy p q => if (d p).isSome then Function.update d q (d p) else d
  | create p => Function.update d p (some [])
  | write p bytes => Function.update d p ((d p).map (· ++ bytes))
  | sync _ => d

/-- The operation is not done; `left` is what is in the file it was writing. -/
def Op.torn (d : Dir ν) (left : Option Bytes) : Op ν → Dir ν
  | remove _ | rename _ _ => d
  | copy _ q => Function.update d q left
  | create p | write p _ | sync p => Function.update d p left

inductive Outcome where
  | done
  | failed (left : Option Bytes) (e : String)

/-- An operation with the beginning of the error it returns; without one a
failure is ignored. -/
structure Cmd (ν : Type) where
  op : Op ν
  error : Option String

inductive Progress where
  /-- to the end, with the outcomes that are left -/
  | through (rest : List Outcome)
  /-- the process has stopped -/
  | stopped
  | failed (e : String)

/-- A program under the outcomes of its operations; the process stops when they
are used up. -/
def run : List (Cmd ν) → List Outcome → Dir ν → Dir ν × Progress
  | [], os, d => (d, .through os)
  | _ :: _, [], d => (d, .stopped)
  | c :: cs, .done :: os, d => run cs os (c.op.apply d)
  | c :: cs, .failed left e :: os, d =>
    match c.error with
    | none => run cs os (c.op.torn d left)
    | some msg => (c.op.torn d left, .failed (msg ++ e))

variable {cs cs' : List (Cmd ν)} {os : List Outcome} {d : Dir ν} {p : ν}

/-! ## What is left alone -/

theorem Op.apply_of_not_mem {op : Op ν} (h : p ∉ op.targets) : op.apply d p = d p := by
  cases op with
  | remove q => exact Function.update_of_ne (by simpa [targets] using h) _ _
  | rename q r =>
    simp only [targets, List.mem_cons, List.not_mem_nil, or_false, not_or] at h
    rw [apply]
    split
    · rw [Function.update_of_ne h.2, Function.update_of_ne h.1]
    · rfl
  | copy q r =>
    rw [apply]
    split
    · exact Function.update_of_ne (by simpa [targets] using h) _ _
    · rfl
  | create q => exact Function.update_of_ne (by simpa [targets] using h) _ _
  | write q bytes => exact Function.update_of_ne (by simpa [targets] using h) _ _
  | sync q => rfl

theorem Op.torn_of_not_mem {op : Op ν} {left : Option Bytes} (h : p ∉ op.targets) :
    op.torn d left p = d p := by
  cases op with
  | remove q => rfl
  | rename q r => rfl
  | copy q r => exact Function.update_of_ne (by simpa [targets] using h) _ _
  | create q => exact Function.update_of_ne (by simpa [targets] using h) _ _
  | write q bytes => exact Function.update_of_ne (by simpa [targets] using h) _ _
  | sync q => exact Function.update_of_ne (by simpa [targets] using h) _ _

/-- The frame rule. -/
theorem run_of_not_mem (h : ∀ c ∈ cs, p ∉ c.op.targets) : (run cs os d).1 p = d p := by
  induction cs generalizing os d with
  | nil => rfl
  | cons c cs ih =>
    rw [List.forall_mem_cons] at h
    cases os with
    | nil => rfl
    | cons o os =>
      cases o with
      | done =>
        rw [run, ih h.2]
        exact Op.apply_of_not_mem h.1
      | failed left e =>
        rw [run]
        cases c.error with
        | none =>
          dsimp only
          rw [ih h.2]
          exact Op.torn_of_not_mem h.1
        | some msg => exact Op.torn_of_not_mem h.1

/-! ## Two programs in a row -/

theorem run_append (cs cs' : List (Cmd ν)) (os : List Outcome) (d : Dir ν) :
    run (cs ++ cs') os d =
      match (run cs os d).2 with
      | .through rest => run cs' rest (run cs os d).1
      | r => ((run cs os d).1, r) := by
  induction cs generalizing os d with
  | nil => rfl
  | cons c cs ih =>
    cases os with
    | nil => rfl
    | cons o os =>
      cases o with
      | done => rw [List.cons_append, run, run, ih]
      | failed left e =>
        rw [List.cons_append, run, run]
        cases c.error with
        | none => exact ih _ _
        | some msg => rfl

/-! ## Operations that are done -/

/-- The directory after operations that are all done. -/
def applyAll (ops : List (Op ν)) (d : Dir ν) : Dir ν := ops.foldl Op.apply d

theorem applyAll_append (ops ops' : List (Op ν)) (d : Dir ν) :
    applyAll (ops ++ ops') d = applyAll ops' (applyAll ops d) := List.foldl_append

theorem apply_rename_of_none {q : ν} (h : d q = none) :
    (Op.rename p q).apply d = Function.update (Function.update d p none) q (d p) := by
  rw [Op.apply]
  cases hp : d p with
  | some b => rfl
  | none =>
    rw [Option.isSome_none, if_neg Bool.false_ne_true, ← hp, Function.update_eq_self, hp, ← h,
      Function.update_eq_self]

theorem apply_copy_of_none {q : ν} (h : d q = none) :
    (Op.copy p q).apply d = Function.update d q (d p) := by
  rw [Op.apply]
  cases hp : d p with
  | some b => rfl
  | none => rw [Option.isSome_none, if_neg Bool.false_ne_true, ← h, Function.update_eq_self]

theorem run_done (cs : List (Cmd ν)) (d : Dir ν) :
    run cs (List.replicate cs.length .done) d = (applyAll (cs.map Cmd.op) d, .through []) := by
  induction cs generalizing d with
  | nil => rfl
  | cons c cs ih =>
    rw [List.length_cons, List.replicate_succ, run, ih]
    rfl

/-- A program that returns every failure gets to its end only by all its
operations. -/
theorem run_checked {rest : List Outcome} (hcs : ∀ c ∈ cs, c.error ≠ none)
    (h : (run cs os d).2 = .through rest) : (run cs os d).1 = applyAll (cs.map Cmd.op) d := by
  induction cs generalizing os d with
  | nil => rfl
  | cons c cs ih =>
    rw [List.forall_mem_cons] at hcs
    cases os with
    | nil => cases h
    | cons o os =>
      cases o with
      | done => exact ih hcs.2 h
      | failed left e =>
        obtain ⟨msg, hmsg⟩ := Option.ne_none_iff_exists'.mp hcs.1
        rw [run, hmsg] at h
        cases h

end XavierDB.FileOps

import Mathlib.Algebra.Ring.Nat
import Mathlib.Data.List.Basic
import Mathlib.Logic.Function.Basic
import XavierDB.Error

/-!
# The login throttles (`src/auth.rs`)

An entry is the minute of its last attempt and the count of the attempts in
that minute, a `u32` that wraps. A sweep drops the entries of minutes gone by.
-/

namespace XavierDB.Auth

/-- The entries by address. -/
abbrev ThrottleMap := String → Option (Nat × UInt32)

def tooManyRequests : ApiError :=
  ⟨.tooManyRequests, "too many authentication attempts, slow down"⟩

/-- `throttle_check`; `now` is in milliseconds since the epoch. -/
def throttleCheck (map : ThrottleMap) (now : Nat) (ip : String) (max : UInt32) :
    ThrottleMap × Except ApiError Unit :=
  let window := now / 60000
  let entry := (map ip).getD (window, 0)
  if entry.1 ≠ window then (Function.update map ip (some (window, 1)), .ok ())
  else
    let count := entry.2 + 1
    (Function.update map ip (some (window, count)),
      if max < count then .error tooManyRequests else .ok ())

/-- `throttle_sweep`, on one of the maps. -/
def throttleSweep (map : ThrottleMap) (now : Nat) : ThrottleMap := fun ip =>
  let window := now / 60000
  (map ip).filter fun e => e.1 = window ∨ window ≤ e.1 + 2

/-! ## Runs -/

inductive Event where
  | attempt (now : Nat) (ip : String)
  | sweep (now : Nat)

def Event.now : Event → Nat
  | attempt now _ | sweep now => now

def Event.minute (e : Event) : Nat := e.now / 60000

/-- An attempt of the address in the minute. -/
def Event.IsAttempt (ip : String) (minute : Nat) : Event → Prop
  | attempt now ip' => ip' = ip ∧ now / 60000 = minute
  | sweep _ => False

instance (ip : String) (minute : Nat) : DecidablePred (Event.IsAttempt ip minute)
  | .attempt _ _ => inferInstanceAs (Decidable (_ ∧ _))
  | .sweep _ => inferInstanceAs (Decidable False)

def attempts (ip : String) (minute : Nat) (es : List Event) : Nat :=
  es.countP (Event.IsAttempt ip minute)

/-- The answers to the attempts of the address in the minute, in order. -/
def answers (max : UInt32) (ip : String) (minute : Nat) :
    ThrottleMap → List Event → List (Except ApiError Unit)
  | _, [] => []
  | map, .sweep now :: es => answers max ip minute (throttleSweep map now) es
  | map, .attempt now ip' :: es =>
    let r := throttleCheck map now ip' max
    if ip' = ip ∧ now / 60000 = minute then r.2 :: answers max ip minute r.1 es
    else answers max ip minute r.1 es

/-- The first `max` attempts of an address in a minute are accepted, the others
refused. -/
def AdmitsAllowance (max : UInt32) (es : List Event) : Prop :=
  ∀ ip minute, answers max ip minute (fun _ => none) es =
    List.replicate (min (attempts ip minute es) max.toNat) (.ok ()) ++
      List.replicate (attempts ip minute es - max.toNat) (.error tooManyRequests)

/-! ## One call -/

/-- The count that stands for the address in the minute. -/
def counted (map : ThrottleMap) (ip : String) (minute : Nat) : UInt32 :=
  match map ip with
  | some (window, count) => if window = minute then count else 0
  | none => 0

/-- The answer to an attempt that has this number in its minute. -/
def verdict (max : UInt32) (number : Nat) : Except ApiError Unit :=
  if max < UInt32.ofNat number then .error tooManyRequests else .ok ()

variable {map : ThrottleMap} {max : UInt32} {now : Nat} {ip : String}

theorem throttleCheck_eq (hmax : 1 ≤ max) :
    throttleCheck map now ip max =
      (Function.update map ip (some (now / 60000, counted map ip (now / 60000) + 1)),
        if max < counted map ip (now / 60000) + 1 then .error tooManyRequests else .ok ()) := by
  unfold throttleCheck counted
  cases map ip with
  | none => simp
  | some e =>
    obtain ⟨window, count⟩ := e
    by_cases hw : window = now / 60000
    · simp [hw]
    · have hnot : ¬ max < 1 := UInt32.not_lt.mpr hmax
      simp [hw, hnot]

theorem counted_update_self (window minute : Nat) (count : UInt32) :
    counted (Function.update map ip (some (window, count))) ip minute =
      if window = minute then count else 0 := by
  rw [counted, Function.update_self]

theorem counted_update_of_ne {ip' : String} (h : ip' ≠ ip) (e : Option (Nat × UInt32))
    (minute : Nat) : counted (Function.update map ip e) ip' minute = counted map ip' minute := by
  rw [counted, Function.update_of_ne h]
  rfl

/-- A sweep keeps the counts from its own minute on. -/
theorem counted_throttleSweep {minute : Nat} (h : now / 60000 ≤ minute) :
    counted (throttleSweep map now) ip minute = counted map ip minute := by
  unfold counted throttleSweep
  cases map ip with
  | none => rfl
  | some e =>
    obtain ⟨window, count⟩ := e
    dsimp only
    rw [Option.filter_some]
    by_cases hw : window = minute
    · rw [if_pos (decide_eq_true (by omega : window = now / 60000 ∨ now / 60000 ≤ window + 2))]
    · have hzero : ∀ w c, (w, c) = (window, count) → (if w = minute then c else 0) = 0 := by
        rintro w c ⟨⟩
        exact if_neg hw
      rw [if_neg hw]
      split
      case h_1 w c heq =>
        exact hzero w c (Option.some.inj (Option.ite_none_right_eq_some.mp heq).2).symm
      case h_2 => rfl

/-! ## A run -/

/-- From the minute `start` on the map counts `seen`, and nothing is seen of later minutes. -/
structure Counts (map : ThrottleMap) (seen : String → Nat → Nat) (start : Nat) : Prop where
  since : ∀ ip minute, start ≤ minute → counted map ip minute = UInt32.ofNat (seen ip minute)
  later : ∀ ip minute, start < minute → seen ip minute = 0

variable {seen : String → Nat → Nat} {start : Nat}

theorem Counts.mono (h : Counts map seen start) {start' : Nat} (hle : start ≤ start') :
    Counts map seen start' where
  since ip minute hm := h.since ip minute (by omega)
  later ip minute hm := h.later ip minute (by omega)

theorem Counts.sweep (h : Counts map seen (now / 60000)) :
    Counts (throttleSweep map now) seen (now / 60000) where
  since ip minute hm := (counted_throttleSweep hm).trans (h.since ip minute hm)
  later := h.later

/-- What is seen after one more attempt. -/
def bump (seen : String → Nat → Nat) (ip : String) (minute : Nat) : String → Nat → Nat :=
  fun ip' minute' => seen ip' minute' + if ip = ip' ∧ minute = minute' then 1 else 0

theorem Counts.attempt (h : Counts map seen (now / 60000)) (hmax : 1 ≤ max) (ip : String) :
    Counts (throttleCheck map now ip max).1 (bump seen ip (now / 60000)) (now / 60000) ∧
      (throttleCheck map now ip max).2 = verdict max (seen ip (now / 60000) + 1) := by
  have hnext : counted map ip (now / 60000) + 1 = UInt32.ofNat (seen ip (now / 60000) + 1) := by
    rw [h.since ip _ (Nat.le_refl _), UInt32.ofNat_add]
    rfl
  rw [throttleCheck_eq hmax, hnext]
  refine ⟨⟨fun ip' minute hm => ?_, fun ip' minute hm => ?_⟩, rfl⟩
  · by_cases hip : ip' = ip
    · rw [hip, counted_update_self]
      unfold bump
      by_cases hminute : now / 60000 = minute
      · rw [if_pos hminute, if_pos ⟨rfl, hminute⟩, hminute]
      · have hseen := h.later ip minute (by omega)
        rw [if_neg hminute, if_neg fun hc => hminute hc.2, hseen]
        rfl
    · rw [counted_update_of_ne hip, h.since ip' minute hm, bump,
        if_neg fun hc => hip hc.1.symm, Nat.add_zero]
  · rw [bump, h.later ip' minute hm, if_neg (by omega)]

theorem attempts_attempt (ip ip' : String) (minute now : Nat) (es : List Event) :
    attempts ip minute (.attempt now ip' :: es) =
      attempts ip minute es + if ip' = ip ∧ now / 60000 = minute then 1 else 0 := by
  rw [attempts, List.countP_cons]
  exact congrArg _ (if_congr decide_eq_true_iff rfl rfl)

theorem attempts_sweep (ip : String) (minute now : Nat) (es : List Event) :
    attempts ip minute (.sweep now :: es) = attempts ip minute es :=
  List.countP_cons_of_neg (mt of_decide_eq_true id)

/-- The answers to the attempts that follow are the verdicts on their numbers. -/
theorem answers_eq (hmax : 1 ≤ max) {es : List Event} (h : Counts map seen start)
    (hclock : es.Pairwise fun a b => a.now ≤ b.now) (hstart : ∀ e ∈ es, start ≤ e.minute)
    (ip : String) (minute : Nat) :
    answers max ip minute map es =
      (List.range' (seen ip minute + 1) (attempts ip minute es)).map (verdict max) := by
  induction es generalizing map seen start with
  | nil => rfl
  | cons e es ih =>
    obtain ⟨hnext, hrest⟩ := List.pairwise_cons.mp hclock
    have hfrom : ∀ e' ∈ es, e.minute ≤ e'.minute := fun e' he' =>
      Nat.div_le_div_right (hnext e' he')
    cases e with
    | sweep now =>
      have hmono : Counts map seen (now / 60000) := h.mono (hstart _ List.mem_cons_self)
      rw [attempts_sweep, answers]
      exact ih hmono.sweep hrest hfrom
    | attempt now ip' =>
      have hmono : Counts map seen (now / 60000) := h.mono (hstart _ List.mem_cons_self)
      obtain ⟨hcounts, hreply⟩ := hmono.attempt hmax ip'
      rw [answers, ih hcounts hrest hfrom, attempts_attempt, hreply, bump]
      split
      case isTrue hmine =>
        obtain ⟨rfl, rfl⟩ := hmine
        rw [List.range'_succ, List.map_cons]
      case isFalse => rfl

theorem answers_start (hmax : 1 ≤ max) {es : List Event}
    (hclock : es.Pairwise fun a b => a.now ≤ b.now) (ip : String) (minute : Nat) :
    answers max ip minute (fun _ => none) es =
      (List.range' 1 (attempts ip minute es)).map (verdict max) := by
  have hstart : Counts (fun _ => none) (fun _ _ => 0) 0 := ⟨fun _ _ _ => rfl, fun _ _ _ => rfl⟩
  rw [answers_eq hmax hstart hclock fun _ _ => Nat.zero_le _]

/-! ## The count wraps -/

theorem verdict_of_lt {number : Nat} (h : number < 2 ^ 32) :
    verdict max number = if max.toNat < number then .error tooManyRequests else .ok () := by
  have hval : (UInt32.ofNat number).toNat = number := UInt32.toNat_ofNat_of_lt' h
  exact if_congr (by rw [UInt32.lt_iff_toNat_lt, hval]) rfl rfl

/-- Numbers from 1 that stay below the wrap: the first `max` are accepted. -/
theorem map_verdict_range {n : Nat} (h : n < 2 ^ 32) :
    (List.range' 1 n).map (verdict max) =
      List.replicate (min n max.toNat) (.ok ()) ++
        List.replicate (n - max.toNat) (.error tooManyRequests) := by
  refine List.ext_getElem (by simp; omega) fun i hi _ => ?_
  rw [List.length_map, List.length_range'] at hi
  have hverdict : verdict max (1 + 1 * i) = _ := verdict_of_lt (by omega)
  rw [List.getElem_map, List.getElem_range', hverdict, List.getElem_append]
  by_cases hle : i < min n max.toNat
  · rw [if_neg (by omega), dif_pos (by simpa using hle), List.getElem_replicate]
  · rw [if_pos (by omega), dif_neg (by simpa using hle), List.getElem_replicate]

/-- The attempt with the number `2 ^ 32` is counted as the number 0. -/
theorem map_verdict_range_ne {n : Nat} (h : 2 ^ 32 ≤ n) :
    (List.range' 1 n).map (verdict max) ≠
      List.replicate (min n max.toNat) (.ok ()) ++
        List.replicate (n - max.toNat) (.error tooManyRequests) := by
  intro heq
  have hmax := max.toNat_lt
  have hget := congrArg (fun l => l[2 ^ 32 - 1]?) heq
  have hwrap : verdict max (1 + 1 * (2 ^ 32 - 1)) = .ok () := by
    have hzero : UInt32.ofNat (1 + 1 * (2 ^ 32 - 1)) = 0 := by decide
    rw [verdict, hzero, if_neg (by simp)]
  rw [List.getElem?_map, List.getElem?_range' (by omega), Option.map_some, hwrap,
    List.getElem?_append_right (by simp; omega), List.getElem?_replicate,
    if_pos (by simp; omega)] at hget
  cases hget

/-- **The throttle** admits exactly the allowance as long as no address makes
`2 ^ 32` attempts in one minute. -/
theorem admitsAllowance_iff (hmax : 1 ≤ max) {es : List Event}
    (hclock : es.Pairwise fun a b => a.now ≤ b.now) :
    AdmitsAllowance max es ↔ ∀ ip minute, attempts ip minute es < 2 ^ 32 := by
  refine forall₂_congr fun ip minute => ?_
  rw [answers_start hmax hclock]
  constructor
  · intro h
    by_contra hge
    exact map_verdict_range_ne (by omega) h
  · exact map_verdict_range

theorem admitsAllowance_sample :
    AdmitsAllowance 1 [.attempt 0 "a", .attempt 59999 "a", .sweep 60000, .attempt 60000 "a"] := by
  refine (admitsAllowance_iff (by decide) (by decide)).mpr fun ip minute => ?_
  exact Nat.lt_of_le_of_lt List.countP_le_length (by decide)

/-- One address, `2 ^ 32` attempts in the first minute, one allowed: the last is accepted. -/
theorem admitsAllowance_wrapped :
    ¬ AdmitsAllowance 1 (List.replicate (2 ^ 32) (.attempt 0 "10.0.0.1")) := by
  intro h
  have hcount :
      attempts "10.0.0.1" 0 (List.replicate (2 ^ 32) (.attempt 0 "10.0.0.1")) = 2 ^ 32 := by
    rw [attempts, List.countP_replicate, if_pos (decide_eq_true ⟨rfl, rfl⟩)]
  have hanswers := h "10.0.0.1" 0
  rw [answers_start (by decide) (List.pairwise_replicate.mpr (.inr (Nat.le_refl _))), hcount]
    at hanswers
  exact map_verdict_range_ne (Nat.le_refl _) hanswers

end XavierDB.Auth

import Mathlib.Logic.Function.Basic
import XavierDB.Base.Run
import XavierDB.Metrics.Limit

/-!
# The document cap (`src/metrics.rs`, `src/routes_q.rs`)

Requests read the cap that the last tick stored for their app, whatever the
configuration says since. A tick reads the bounds at its start and visits one
client after the other, while requests and configuration changes go on.
-/

namespace XavierDB.Metrics

open Run

/-- A tick under way. -/
structure Tick where
  params : Params Binary64
  pressure : Binary64
  /-- the client keys still to be visited -/
  clientKeys : List String

structure State where
  rateLimit : Config.RateLimitCfg
  clients : List String
  limits : String → Option (LimitState Binary64)
  tick : Option Tick

/-- The server starts with the sanitized configuration of the disk. -/
def start (r : Config.RateLimitCfg) : State := ⟨r.sanitize, [], fun _ => none, none⟩

/-- `enforced_limit`. -/
def enforcedLimit (s : State) (app : String) : UInt32 :=
  match s.limits app with
  | some l => l.enforced
  | none => s.rateLimit.maxLimit

/-! ## The operations -/

def addClient (clients : List String) (key : String) : List String :=
  if key ∈ clients then clients else clients ++ [key]

/-- The keys of `record_request`. -/
def recordRequest (s : State) (sub app : String) : State :=
  { s with clients := addClient (addClient s.clients s!"name:{sub}@{app}") s!"app:{app}" }

/-- The app of a client key, if it is one. -/
def appOf (key : String) : Option String :=
  match key.toList with
  | 'a' :: 'p' :: 'p' :: ':' :: app => some (String.ofList app)
  | _ => none

/-- The head of a tick; the map yields the clients in any order. -/
def beginTick (s : State) (cpuPct memPct : Binary64) (order : List String) : State :=
  match s.tick with
  | some _ => s
  | none =>
    if order.isPerm s.clients then
      { s with tick := some ⟨.ofRateLimit s.rateLimit, pressure cpuPct memPct, order⟩ }
    else s

def State.weight (s : State) (app : String) : Binary64 :=
  (s.rateLimit.weights.get? app).getD (.lit 1 1)

/-- A tick's work on its next client, or its end. -/
def visit (s : State) (r : Reading Binary64) : State :=
  match s.tick with
  | none => s
  | some ⟨_, _, []⟩ => { s with tick := none }
  | some ⟨P, pressure, key :: rest⟩ =>
    match appOf key with
    | none => { s with tick := some ⟨P, pressure, rest⟩ }
    | some app =>
      { s with
        limits := Function.update s.limits app
          (some (updateLimit P (s.weight app) pressure r (s.limits app)))
        tick := some ⟨P, pressure, rest⟩ }

inductive Act where
  | request (sub app : String)
  | beginTick (cpuPct memPct : Binary64) (order : List String)
  | visit (r : Reading Binary64)
  | config (r : Config.RateLimitCfg)

def act (s : State) : Act → State
  | .request sub app => recordRequest s sub app
  | .beginTick cpuPct memPct order => beginTick s cpuPct memPct order
  | .visit r => visit s r
  | .config r => { s with rateLimit := r.sanitize }

/-! ## What a step can do -/

def Act.isConfig : Act → Bool
  | .config _ => true
  | _ => false

theorem beginTick_eq (s : State) (c m : Binary64) (order : List String) :
    beginTick s c m order = s ∨
      beginTick s c m order =
        { s with tick := some ⟨.ofRateLimit s.rateLimit, pressure c m, order⟩ } := by
  unfold beginTick
  split
  case h_1 => exact .inl rfl
  case h_2 =>
    split
    case isTrue => exact .inr rfl
    case isFalse => exact .inl rfl

theorem visit_eq (s : State) (r : Reading Binary64) :
    visit s r = s ∨ visit s r = { s with tick := none } ∨
      ∃ P pressure key rest, s.tick = some ⟨P, pressure, key :: rest⟩ ∧
        (visit s r = { s with tick := some ⟨P, pressure, rest⟩ } ∨
          ∃ app, appOf key = some app ∧
            visit s r =
              { s with
                limits := Function.update s.limits app
                  (some (updateLimit P (s.weight app) pressure r (s.limits app)))
                tick := some ⟨P, pressure, rest⟩ }) := by
  unfold visit
  split
  case h_1 => exact .inl rfl
  case h_2 => exact .inr (.inl rfl)
  case h_3 P pressure key rest htick =>
    refine .inr (.inr ⟨P, pressure, key, rest, htick, ?_⟩)
    split
    case h_1 => exact .inl rfl
    case h_2 app happ => exact .inr ⟨app, happ, rfl⟩

/-- A tick after a step began in it or was under way. -/
theorem params_of_tick_act {s : State} {a : Act} {t : Tick} (h : (act s a).tick = some t) :
    t.params = .ofRateLimit s.rateLimit ∨ ∃ t', s.tick = some t' ∧ t.params = t'.params := by
  cases a with
  | request sub app => exact .inr ⟨t, h, rfl⟩
  | config r => exact .inr ⟨t, h, rfl⟩
  | beginTick c m order =>
    rw [act] at h
    obtain heq | heq := beginTick_eq s c m order <;> rw [heq] at h
    · exact .inr ⟨t, h, rfl⟩
    · obtain rfl := Option.some.inj h
      exact .inl rfl
  | visit r =>
    rw [act] at h
    obtain heq | heq | ⟨P, pressure, key, rest, htick, heq | ⟨app, -, heq⟩⟩ := visit_eq s r <;>
      rw [heq] at h
    · exact .inr ⟨t, h, rfl⟩
    · cases h
    · obtain rfl := Option.some.inj h
      exact .inr ⟨_, htick, rfl⟩
    · obtain rfl := Option.some.inj h
      exact .inr ⟨_, htick, rfl⟩

/-! ## The cap and the bounds in force -/

/-- The cap of every app is within the bounds in force. -/
def InBounds (s : State) : Prop :=
  ∀ app, s.rateLimit.minLimit ≤ enforcedLimit s app ∧ enforcedLimit s app ≤ s.rateLimit.maxLimit

/-- A configuration change leaves the stored caps in bounds, and a tick that
visits an app started with bounds within those in force. -/
def Safe (s : State) : Act → Prop
  | .config r => ∀ app l, s.limits app = some l →
      r.sanitize.minLimit ≤ l.enforced ∧ l.enforced ≤ r.sanitize.maxLimit
  | .visit _ => ∀ t key app, s.tick = some t → t.clientKeys.head? = some key →
      appOf key = some app →
      s.rateLimit.minLimit ≤ t.params.minLimit ∧ t.params.maxLimit ≤ s.rateLimit.maxLimit
  | _ => True

/-- The bounds in force and those of a tick under way are in order. -/
structure Inv (s : State) : Prop where
  inBounds : InBounds s
  rateLimit : s.rateLimit.minLimit ≤ s.rateLimit.maxLimit
  tick : ∀ t, s.tick = some t → t.params.minLimit ≤ t.params.maxLimit

theorem limits_ordered (r : Config.RateLimitCfg) : r.sanitize.minLimit ≤ r.sanitize.maxLimit :=
  (Params.ofRateLimit r).limits_sanitize.2.1

theorem inBounds_of_stored {s : State} (hr : s.rateLimit.minLimit ≤ s.rateLimit.maxLimit)
    (h : ∀ app l, s.limits app = some l →
      s.rateLimit.minLimit ≤ l.enforced ∧ l.enforced ≤ s.rateLimit.maxLimit) : InBounds s := by
  intro app
  unfold enforcedLimit
  split
  case h_1 l hl => exact h app l hl
  case h_2 => exact ⟨hr, UInt32.le_refl _⟩

theorem InBounds.stored {s : State} (h : InBounds s) {app : String} {l : LimitState Binary64}
    (hl : s.limits app = some l) :
    s.rateLimit.minLimit ≤ l.enforced ∧ l.enforced ≤ s.rateLimit.maxLimit := by
  have happ := h app
  rwa [enforcedLimit, hl] at happ

theorem inv_start (r : Config.RateLimitCfg) : Inv (start r) where
  inBounds := inBounds_of_stored (limits_ordered r) (by simp [start])
  rateLimit := limits_ordered r
  tick := by simp [start]

theorem enforced_updateLimit_mem {P : Params Binary64} (h : P.minLimit ≤ P.maxLimit)
    (w p : Binary64) (r : Reading Binary64) (old : Option (LimitState Binary64)) :
    P.minLimit ≤ (updateLimit P w p r old).enforced ∧
      (updateLimit P w p r old).enforced ≤ P.maxLimit :=
  enforced_mem h _ _

theorem new_or_stored {limits : String → Option (LimitState Binary64)} {app app' : String}
    {new l : LimitState Binary64} (h : Function.update limits app (some new) app' = some l) :
    l = new ∨ limits app' = some l := by
  by_cases heq : app' = app
  · subst heq
    rw [Function.update_self] at h
    exact .inl (Option.some.inj h).symm
  · rw [Function.update_of_ne heq] at h
    exact .inr h

/-- A safe visit stores a cap within the bounds in force. -/
theorem inBounds_visit {s : State} (h : Inv s) {r : Reading Binary64}
    (hsafe : Safe s (.visit r)) : InBounds (visit s r) := by
  obtain heq | heq | ⟨P, pressure, key, rest, htick, heq | ⟨app, happ, heq⟩⟩ := visit_eq s r <;>
    rw [heq]
  · exact h.inBounds
  · exact h.inBounds
  · exact h.inBounds
  · have hP : P.minLimit ≤ P.maxLimit := h.tick _ htick
    obtain ⟨hmin, hmax⟩ := hsafe _ key app htick rfl happ
    refine inBounds_of_stored h.rateLimit fun app' l hl => ?_
    obtain rfl | hold := new_or_stored hl
    · obtain ⟨hlo, hhi⟩ := enforced_updateLimit_mem hP (s.weight app) pressure r (s.limits app)
      exact ⟨UInt32.le_trans hmin hlo, UInt32.le_trans hhi hmax⟩
    · exact h.inBounds.stored hold

theorem rateLimit_act {s : State} {a : Act} (ha : a.isConfig = false) :
    (act s a).rateLimit = s.rateLimit := by
  cases a with
  | request sub app => rfl
  | beginTick c m order =>
    rw [act]
    obtain heq | heq := beginTick_eq s c m order <;> rw [heq]
  | visit r =>
    rw [act]
    obtain heq | heq | ⟨P, pressure, key, rest, -, heq | ⟨app, -, heq⟩⟩ := visit_eq s r <;>
      rw [heq]
  | config r => cases ha

theorem inBounds_act {s : State} (h : Inv s) {a : Act} (hsafe : Safe s a) : InBounds (act s a) := by
  cases a with
  | request sub app => exact h.inBounds
  | beginTick c m order =>
    rw [act]
    obtain heq | heq := beginTick_eq s c m order <;> rw [heq] <;> exact h.inBounds
  | visit r => exact inBounds_visit h hsafe
  | config r => exact inBounds_of_stored (limits_ordered r) hsafe

theorem ordered_act {s : State} (h : s.rateLimit.minLimit ≤ s.rateLimit.maxLimit) (a : Act) :
    (act s a).rateLimit.minLimit ≤ (act s a).rateLimit.maxLimit := by
  cases ha : a.isConfig with
  | false => rwa [rateLimit_act ha]
  | true =>
    cases a with
    | config r => exact limits_ordered r
    | request sub app => cases ha
    | beginTick c m order => cases ha
    | visit r => cases ha

theorem inv_act {s : State} (h : Inv s) {a : Act} (hsafe : Safe s a) : Inv (act s a) where
  inBounds := inBounds_act h hsafe
  rateLimit := ordered_act h.rateLimit a
  tick t ht := by
    obtain heq | ⟨t', ht', heq⟩ := params_of_tick_act ht <;> rw [heq]
    · exact h.rateLimit
    · exact h.tick t' ht'

theorem inv_of_along {s : State} {acts : List Act} (h : Inv s) (halong : Along act Safe s acts) :
    Inv (acts.foldl act s) :=
  foldl_inv (I := Inv) (fun _ _ h hsafe => inv_act h hsafe) h halong

/-- In every run whose steps are all safe, every state has every cap within the
bounds in force. -/
theorem cap_inBounds (r : Config.RateLimitCfg) {acts : List Act}
    (h : Along act Safe (start r) acts) (before : List Act) (hpre : before <+: acts) :
    InBounds (before.foldl act (start r)) := by
  obtain ⟨rest, rfl⟩ := hpre
  exact (inv_of_along (inv_start r) (along_append.mp h).1).inBounds

/-! ## Safe steps -/

/-- Wider bounds are safe. -/
theorem Inv.safe_config {s : State} (h : Inv s) {r : Config.RateLimitCfg}
    (hmin : r.sanitize.minLimit ≤ s.rateLimit.minLimit)
    (hmax : s.rateLimit.maxLimit ≤ r.sanitize.maxLimit) : Safe s (.config r) := by
  intro app l hl
  obtain ⟨hlo, hhi⟩ := h.inBounds.stored hl
  exact ⟨UInt32.le_trans hmin hlo, UInt32.le_trans hhi hmax⟩

/-- A configuration change only widens the bounds. -/
def Widens (s : State) : Act → Prop
  | .config r => r.sanitize.minLimit ≤ s.rateLimit.minLimit ∧
      s.rateLimit.maxLimit ≤ r.sanitize.maxLimit
  | _ => True

/-- A tick under way has bounds within those in force. -/
def TickWithin (s : State) : Prop := ∀ t, s.tick = some t →
  s.rateLimit.minLimit ≤ t.params.minLimit ∧ t.params.maxLimit ≤ s.rateLimit.maxLimit

theorem tickWithin_start (r : Config.RateLimitCfg) : TickWithin (start r) := by
  simp [TickWithin, start]

theorem Widens.safe {s : State} (h : Inv s) (ht : TickWithin s) {a : Act} (ha : Widens s a) :
    Safe s a := by
  cases a with
  | request sub app => trivial
  | beginTick c m order => trivial
  | visit r => exact fun t _ _ htick _ _ => ht t htick
  | config r => exact h.safe_config ha.1 ha.2

theorem Widens.tickWithin {s : State} (h : TickWithin s) {a : Act} (ha : Widens s a) :
    TickWithin (act s a) := by
  intro t htick
  cases hconfig : a.isConfig with
  | false =>
    rw [rateLimit_act hconfig]
    obtain heq | ⟨t', ht', heq⟩ := params_of_tick_act htick <;> rw [heq]
    · exact ⟨UInt32.le_refl _, UInt32.le_refl _⟩
    · exact h t' ht'
  | true =>
    cases a with
    | config r =>
      obtain ⟨hmin, hmax⟩ := h t htick
      exact ⟨UInt32.le_trans ha.1 hmin, UInt32.le_trans hmax ha.2⟩
    | request sub app => cases hconfig
    | beginTick c m order => cases hconfig
    | visit r => cases hconfig

/-- While the configuration stays as it is or its bounds are widened, every step is safe, also
those of a tick that began before. -/
theorem along_of_widens {s : State} {acts : List Act} (h : Inv s) (ht : TickWithin s)
    (hacts : Along act Widens s acts) : Along act Safe s acts := by
  induction acts generalizing s with
  | nil => trivial
  | cons a acts ih =>
    have hsafe := hacts.1.safe h ht
    exact ⟨hsafe, ih (inv_act h hsafe) (hacts.1.tickWithin ht) hacts.2⟩

/-- Bounds that are only widened are those of every cap. -/
theorem inBounds_of_widens (r : Config.RateLimitCfg) {acts : List Act}
    (h : Along act Widens (start r) acts) : InBounds (acts.foldl act (start r)) :=
  (inv_of_along (inv_start r) (along_of_widens (inv_start r) (tickWithin_start r) h)).inBounds

/-- A request and the start of the tick after it, up to the app's visit. -/
def shopTick : List Act :=
  [.request "till" "shop",
    .beginTick (.lit 20 1) (.lit 30 1) ["app:shop", "name:till@shop"],
    .visit ⟨.lit 10 1, .lit 20 1, .lit 30 1, .lit 1 1, 0⟩]

def withMaxLimit (n : UInt32) : Act := .config { Config.RateLimitCfg.default with maxLimit := n }

theorem raised_safe :
    Along act Safe (start .default) (shopTick ++ [withMaxLimit 500]) := by
  refine along_of_widens (inv_start _) (tickWithin_start _) ?_
  exact ⟨trivial, trivial, trivial, ⟨by decide +kernel, by decide +kernel⟩, trivial⟩

theorem cap_inBounds_raised :
    InBounds ((shopTick ++ [withMaxLimit 500]).foldl act (start .default)) :=
  cap_inBounds .default raised_safe _ List.prefix_rfl

/-- The maximum is lowered after the tick. -/
def lowered : List Act := shopTick ++ [withMaxLimit 100]

theorem lowered_not_inBounds : ¬ InBounds (lowered.foldl act (start .default)) := by
  intro h
  exact absurd (h "shop").2 (by decide +kernel)

theorem cap_above_ceiling :
    ¬ ∀ (r : Config.RateLimitCfg) (acts : List Act), InBounds (acts.foldl act (start r)) :=
  fun h => lowered_not_inBounds (h .default lowered)

end XavierDB.Metrics

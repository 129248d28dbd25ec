import Mathlib.Algebra.BigOperators.Group.Finset.Piecewise
import XavierDB.Auth.Identifier
import XavierDB.Base.Publish
import XavierDB.Metrics.Cap

/-!
# The clients' accounts (`src/routes_q.rs`, `src/metrics.rs`)

A request that is done is recorded in steps: with the server, then with its name,
then with its app. The metrics task visits the clients meanwhile and takes the
work that each has done since the last visit. No work is lost or counted twice.
-/

namespace XavierDB.Metrics.Clients

open Publish

/-- `ClientStats`. -/
structure ClientStats where
  name : String
  app : String
  total : UInt64
  /-- `total` at the last visit -/
  lastTotal : UInt64
  lastSeen : Int
  rate : Binary64
  lat : List Binary64
  history : List Binary64

def ClientStats.new (name app : String) (now : Int) : ClientStats :=
  ⟨name, app, 0, 0, now, .lit 0 1, [], []⟩

/-- The keys still to be visited in a tick. -/
structure Visit where
  tickSeconds : UInt64
  clientKeys : List String

/-- What requests and the metrics task share. -/
structure Monitor where
  clients : SortedMap String ClientStats
  totalRequests : UInt64
  latencies : List Binary64
  latP50Hist : List Binary64
  qps : Binary64
  prevTotalRequests : UInt64
  visit : Option Visit

def Monitor.start : Monitor := ⟨.empty, 0, [], [], .lit 0 1, 0, none⟩

/-! ## Requests -/

/-- What a request leaves for its record. -/
structure Work where
  sub : String
  app : String
  weight : UInt32
  elapsedMs : Binary64
  now : Int

def nameKey (sub app : String) : String := "name:" ++ sub ++ "@" ++ app

def appKey (app : String) : String := "app:" ++ app

/-- A ring of `n` samples. -/
def push (n : ℕ) (ring : List Binary64) (x : Binary64) : List Binary64 :=
  if (ring ++ [x]).length > n then (ring ++ [x]).tail else ring ++ [x]

/-- A request is recorded with one of its keys. -/
def Monitor.record (m : Monitor) (w : Work) (key : String) : Monitor :=
  let entry := (m.clients.get? key).getD
    (if (appOf key).isSome then .new "" w.app w.now else .new w.sub w.app w.now)
  { m with
    clients := m.clients.insert key
      { entry with
        total := entry.total + w.weight.toUInt64
        lastSeen := w.now
        lat := push 256 entry.lat w.elapsedMs } }

/-- How far `record_request` has come. -/
inductive Recording where
  | idle
  | counted (w : Work)
  | timed (w : Work)
  | named (w : Work)
  | done (w : Work)

/-! ## The metrics task -/

/-- `median`. -/
def median (v : List Binary64) : Binary64 :=
  let v := v.mergeSort fun a b => Binary64.le a b
  if v = [] then .lit 0 1
  else if v.length % 2 = 1 then v.getD (v.length / 2) (.lit 0 1)
  else (v.getD (v.length / 2 - 1) (.lit 0 1)).add (v.getD (v.length / 2) (.lit 0 1))
    |>.div (.lit 2 1)

def perSecond (n tickSeconds : UInt64) : Binary64 :=
  (Binary64.lit n.toNat 1).div (.lit (max tickSeconds 1).toNat 1)

/-- The work since the last visit. -/
def ClientStats.delta (st : ClientStats) : UInt64 := st.total - st.lastTotal

variable (single : Binary64 → Binary64)

/-- A visit: the rate is an average of the rates seen; its history is in `f32`. -/
def ClientStats.sample (tickSeconds : UInt64) (emaAlpha : Binary64) (st : ClientStats) :
    ClientStats :=
  let alpha := Binary64.clamp (.lit 1 100) (.lit 9 10) emaAlpha
  let ema := (alpha.mul (perSecond st.delta tickSeconds)).add
    (((Binary64.lit 1 1).sub alpha).mul st.rate)
  { st with lastTotal := st.total, rate := ema, history := push 120 st.history (single ema) }

/-- The head of a tick; the map yields its keys in any order. -/
def Monitor.beginTick (m : Monitor) (tickSeconds : UInt64) (order : List String) : Monitor :=
  if m.visit.isNone && order.isPerm (m.clients.entries.map Prod.fst) then
    { m with visit := some ⟨tickSeconds, order⟩ }
  else m

/-- The client that the task visits next. -/
def Monitor.next (m : Monitor) : Option String := m.visit.bind fun v => v.clientKeys.head?

/-- The task visits its next client, or ends the tick. -/
def Monitor.advance (m : Monitor) (emaAlpha : Binary64) : Monitor :=
  match m.visit with
  | none => m
  | some ⟨secs, []⟩ =>
    { m with
      qps := perSecond (if m.prevTotalRequests ≤ m.totalRequests then
        m.totalRequests - m.prevTotalRequests else 0) secs
      prevTotalRequests := m.totalRequests
      latP50Hist := push 64 m.latP50Hist (median m.latencies)
      visit := none }
  | some ⟨secs, key :: rest⟩ =>
    match m.clients.get? key with
    | none => { m with visit := some ⟨secs, rest⟩ }
    | some st =>
      { m with
        clients := m.clients.insert key (st.sample single secs emaAlpha)
        visit := some ⟨secs, rest⟩ }

inductive Act where
  | record (w : Work)
  | next
  | beginTick (tickSeconds : UInt64) (order : List String)
  | visit (emaAlpha : Binary64)

def advance (a : Act) (m : Monitor) (r : Recording) : Monitor × Recording :=
  match a, r with
  | .record w, .idle => ({ m with totalRequests := m.totalRequests + 1 }, .counted w)
  | .next, .counted w => ({ m with latencies := push 2048 m.latencies w.elapsedMs }, .timed w)
  | .next, .timed w => (m.record w (nameKey w.sub w.app), .named w)
  | .next, .named w => (m.record w (appKey w.app), .done w)
  | .beginTick secs order, r => (m.beginTick secs order, r)
  | .visit emaAlpha, r => (m.advance single emaAlpha, r)
  | _, r => (m, r)

variable {ι : Type} [DecidableEq ι]

def step (s : Publish.State ι Monitor Recording) (a : ι × Act) :
    Publish.State ι Monitor Recording :=
  Publish.step (fun _ => advance single) s a

def start : Publish.State ι Monitor Recording := ⟨.start, fun _ => .idle⟩

/-! ## Keys -/

/-- The name and the app of a client key, if it is one of a name. -/
def nameOf (key : String) : Option (String × String) :=
  (stripPrefix "name:" key).bind (rsplitOnce "@")

theorem nameOf_nameKey {sub app : String} (h : Auth.IsIdentifier app) :
    nameOf (nameKey sub app) = some (sub, app) := by
  have hat : '@' ∉ app.toList := h.notMem (by decide)
  rw [nameOf, nameKey, String.append_assoc, String.append_assoc, stripPrefix_append,
    Option.bind_some, ← String.append_assoc]
  exact rsplitOnce_append rfl hat sub

theorem nameOf_appKey (app : String) : nameOf (appKey app) = none := by
  simp [nameOf, appKey, stripPrefix]

theorem appOf_appKey (app : String) : appOf (appKey app) = some app := by
  simp [appOf, appKey]

theorem appOf_nameKey (sub app : String) : appOf (nameKey sub app) = none := by
  simp [appOf, nameKey]

/-- The key of an identity is that of no other name, in whatever form. -/
theorem nameKey_inj {sub app sub' app' : String} (hsub : Auth.IsIdentifier sub)
    (happ : Auth.IsIdentifier app) :
    nameKey sub app = nameKey sub' app' ↔ sub = sub' ∧ app = app' := by
  refine ⟨fun heq => ?_, fun ⟨hsub, happ⟩ => by rw [hsub, happ]⟩
  have hat : ∀ {id : String}, Auth.IsIdentifier id → '@' ∉ id.toList := fun h => h.notMem (by decide)
  have hlist := congrArg String.toList heq
  simp only [nameKey, String.toList_append, List.append_assoc, List.append_cancel_left_eq] at hlist
  obtain ⟨h, -, h'⟩ := (List.append_cons_inj_of_notMem (hat hsub) (hat happ)).mp hlist
  exact ⟨String.toList_inj.mp h, String.toList_inj.mp h'⟩

theorem appKey_inj {app app' : String} : appKey app = appKey app' ↔ app = app' := by
  refine ⟨fun heq => ?_, congrArg appKey⟩
  have hsome := appOf_appKey app
  rw [heq, appOf_appKey] at hsome
  exact (Option.some.inj hsome).symm

theorem nameKey_ne_appKey (sub app app' : String) : nameKey sub app ≠ appKey app' := by
  intro heq
  have hsome := appOf_appKey app'
  rw [← heq, appOf_nameKey] at hsome
  cases hsome

/-! ## What a step does to the accounts -/

/-- The keys a request is recorded with. -/
def Recording.keys : Recording → List String
  | .named w => [nameKey w.sub w.app]
  | .done w => [nameKey w.sub w.app, appKey w.app]
  | _ => []

def Recording.work : Recording → Option Work
  | .idle => none
  | .counted w | .timed w | .named w | .done w => some w

/-- What a request counts for with a key. -/
def Recording.weightAt (key : String) (r : Recording) : ℕ :=
  if key ∈ r.keys then r.work.elim 0 fun w => w.weight.toNat else 0

/-- What a request counts for with the server. -/
def Recording.countAt (r : Recording) : ℕ := r.work.elim 0 fun _ => 1

def Monitor.totalAt (m : Monitor) (key : String) : ℕ :=
  (m.clients.get? key).elim 0 fun st => st.total.toNat

variable {single} {m : Monitor} {w : Work} {key k : String}

theorem totalAt_lt (m : Monitor) (key : String) : m.totalAt key < 2 ^ 64 := by
  rw [Monitor.totalAt]
  cases m.clients.get? key with
  | none => simp
  | some st => exact st.total.toNat_lt

theorem totalAt_record : (m.record w key).totalAt k =
    if k = key then (m.totalAt key + w.weight.toNat) % 2 ^ 64 else m.totalAt k := by
  have hget : (m.record w key).clients.get? k = if k = key then _ else m.clients.get? k :=
    SortedMap.get?_insert ..
  rw [Monitor.totalAt, hget]
  split
  case isFalse => rfl
  case isTrue =>
    rw [Monitor.totalAt]
    cases m.clients.get? key with
    | some st => simp
    | none =>
      simp only [Option.getD_none, Option.elim_some, Option.elim_none]
      split <;> simp [ClientStats.new]

theorem isSome_record : ((m.record w key).clients.get? k).isSome = true ↔
    k = key ∨ (m.clients.get? k).isSome = true := by
  have hget : (m.record w key).clients.get? k = if k = key then _ else m.clients.get? k :=
    SortedMap.get?_insert ..
  rw [hget]
  split
  case isTrue h => simp [h]
  case isFalse h => simp [h]

/-- What the metrics task leaves of a client. -/
theorem get?_advance (m : Monitor) (emaAlpha : Binary64) (k : String) :
    (m.advance single emaAlpha).clients.get? k = m.clients.get? k ∨
      ∃ secs st, m.next = some k ∧ m.clients.get? k = some st ∧
        (m.advance single emaAlpha).clients.get? k = some (st.sample single secs emaAlpha) := by
  unfold Monitor.advance Monitor.next
  split
  case h_1 => exact .inl rfl
  case h_2 => exact .inl rfl
  case h_3 secs key rest hvisit =>
    split
    case h_1 => exact .inl rfl
    case h_2 st hst =>
      have hget := SortedMap.get?_insert m.clients key k (st.sample single secs emaAlpha)
      by_cases hk : k = key
      · subst hk
        rw [if_pos rfl] at hget
        exact .inr ⟨secs, st, by simp [hvisit], hst, hget⟩
      · rw [if_neg hk] at hget
        exact .inl hget

theorem totalRequests_advance (m : Monitor) (emaAlpha : Binary64) :
    (m.advance single emaAlpha).totalRequests = m.totalRequests := by
  unfold Monitor.advance
  split
  · rfl
  · rfl
  · split <;> rfl

theorem totalAt_advance (m : Monitor) (emaAlpha : Binary64) (k : String) :
    (m.advance single emaAlpha).totalAt k = m.totalAt k := by
  rw [Monitor.totalAt, Monitor.totalAt]
  rcases get?_advance m emaAlpha k with h | ⟨secs, st, -, hst, h⟩
  · rw [h]
  · rw [h, hst]
    rfl

theorem isSome_advance (m : Monitor) (emaAlpha : Binary64) (k : String) :
    ((m.advance single emaAlpha).clients.get? k).isSome = (m.clients.get? k).isSome := by
  rcases get?_advance m emaAlpha k with h | ⟨secs, st, -, hst, h⟩
  · rw [h]
  · rw [h, hst]
    rfl

theorem beginTick_eq (m : Monitor) (secs : UInt64) (order : List String) :
    ∃ v, m.beginTick secs order = { m with visit := v } := by
  unfold Monitor.beginTick
  split
  · exact ⟨_, rfl⟩
  · exact ⟨m.visit, rfl⟩

/-! ## The accounts balance -/

variable {s : Publish.State ι Monitor Recording} {i : ι} {r : Recording} {sh : Monitor}

/-- What is under a key is what the requests recorded with it count for. -/
structure Balanced (s : Publish.State ι Monitor Recording) : Prop where
  total : ∀ is : Finset ι, (∀ i, i ∉ is → s.phase i = .idle) → ∀ key,
    s.shared.totalAt key = (∑ i ∈ is, (s.phase i).weightAt key) % 2 ^ 64
  requests : ∀ is : Finset ι, (∀ i, i ∉ is → s.phase i = .idle) →
    s.shared.totalRequests.toNat = (∑ i ∈ is, (s.phase i).countAt) % 2 ^ 64
  present : ∀ key, (s.shared.clients.get? key).isSome = true ↔ ∃ i, key ∈ (s.phase i).keys

omit [DecidableEq ι] in
theorem balanced_start : Balanced (start : Publish.State ι Monitor Recording) where
  total is _ key := by simp [start, Monitor.start, Monitor.totalAt, Recording.weightAt,
    Recording.keys, SortedMap.get?, SortedMap.empty, SortedMap.lookup]
  requests is _ := by simp [start, Monitor.start, Recording.countAt, Recording.work]
  present key := by simp [start, Monitor.start, Recording.keys, SortedMap.get?, SortedMap.empty,
    SortedMap.lookup]

/-- The metrics task changes no account. -/
theorem Balanced.shared (h : Balanced s) (htotal : ∀ key, sh.totalAt key = s.shared.totalAt key)
    (hrequests : sh.totalRequests = s.shared.totalRequests)
    (hpresent : ∀ key, (sh.clients.get? key).isSome = (s.shared.clients.get? key).isSome) :
    Balanced (s.put i sh (s.phase i)) := by
  have hphase : (s.put i sh (s.phase i)).phase = s.phase :=
    funext (State.forall_put (fun j r => r = s.phase j) rfl fun _ _ => rfl)
  constructor
  · rw [hphase]
    exact fun is his key => (htotal key).trans (h.total is his key)
  · rw [hphase]
    exact fun is his => (congrArg UInt64.toNat hrequests).trans (h.requests is his)
  · rw [hphase]
    intro key
    rw [← h.present, State.put_shared, hpresent]

/-- A request moves on, and with it the accounts. -/
theorem Balanced.move (h : Balanced s) (hr : r ≠ .idle)
    (htotal : ∀ key, ∃ n, r.weightAt key = (s.phase i).weightAt key + n ∧
      sh.totalAt key = (s.shared.totalAt key + n) % 2 ^ 64)
    (hrequests : ∃ n, r.countAt = (s.phase i).countAt + n ∧
      sh.totalRequests.toNat = (s.shared.totalRequests.toNat + n) % 2 ^ 64)
    (hpresent : ∀ key, (sh.clients.get? key).isSome = true ↔
      (s.shared.clients.get? key).isSome = true ∨ key ∈ r.keys)
    (hkeys : (s.phase i).keys ⊆ r.keys) : Balanced (s.put i sh r) := by
  have hcover : ∀ is : Finset ι, (∀ j, j ∉ is → (s.put i sh r).phase j = .idle) →
      i ∈ is ∧ ∀ j, j ∉ is → s.phase j = .idle := by
    intro is his
    have hi : i ∈ is := by
      by_contra hi
      exact hr (State.put_self.symm.trans (his i hi))
    refine ⟨hi, fun j hj => ?_⟩
    rw [← his j hj, State.put_of_ne]
    rintro rfl
    exact hj hi
  constructor
  · intro is his key
    obtain ⟨hi, his⟩ := hcover is his
    obtain ⟨n, hn, heq⟩ := htotal key
    have hsum := @State.sum_put _ _ _ _ s i sh r (Recording.weightAt key) is hi
    have hold := h.total is his key
    rw [State.put_shared, heq, hold, Nat.mod_add_mod]
    congr 1
    omega
  · intro is his
    obtain ⟨hi, his⟩ := hcover is his
    obtain ⟨n, hn, heq⟩ := hrequests
    have hsum := @State.sum_put _ _ _ _ s i sh r Recording.countAt is hi
    have hold := h.requests is his
    rw [State.put_shared, heq, hold, Nat.mod_add_mod]
    congr 1
    omega
  · intro key
    rw [State.put_shared, hpresent, h.present]
    constructor
    · rintro (⟨j, hj⟩ | hkey)
      · by_cases hji : j = i
        · exact ⟨i, by rw [State.put_self]; exact hkeys (hji ▸ hj)⟩
        · exact ⟨j, by rwa [State.put_of_ne hji]⟩
      · exact ⟨i, by rwa [State.put_self]⟩
    · rintro ⟨j, hj⟩
      by_cases hji : j = i
      · rw [hji, State.put_self] at hj
        exact .inr hj
      · rw [State.put_of_ne hji] at hj
        exact .inl ⟨j, hj⟩

/-- A request is recorded with one key more. -/
theorem Balanced.record (h : Balanced s) (hwork : (s.phase i).work = some w) (hr : r.work = some w)
    (hkeys : r.keys = (s.phase i).keys ++ [key]) (hnew : key ∉ (s.phase i).keys) :
    Balanced (s.put i (s.shared.record w key) r) := by
  refine h.move (by rintro rfl; cases hr) (fun k => ?_) ⟨0, ?_, ?_⟩ (fun k => ?_) ?_
  · rw [totalAt_record]
    by_cases hk : k = key
    · subst hk
      refine ⟨w.weight.toNat, ?_, by rw [if_pos rfl]⟩
      simp [Recording.weightAt, hkeys, hnew, hr]
    · refine ⟨0, ?_, ?_⟩
      · simp [Recording.weightAt, hkeys, hk, hr, hwork]
      · rw [if_neg hk, Nat.add_zero, Nat.mod_eq_of_lt (totalAt_lt _ _)]
  · simp [Recording.countAt, hr, hwork]
  · show s.shared.totalRequests.toNat = _
    rw [Nat.add_zero, Nat.mod_eq_of_lt s.shared.totalRequests.toNat_lt]
  · rw [isSome_record, hkeys, List.mem_append, List.mem_singleton]
    have hold : k ∈ (s.phase i).keys → (s.shared.clients.get? k).isSome = true := fun hk =>
      (h.present k).mpr ⟨i, hk⟩
    tauto
  · rw [hkeys]
    exact List.subset_append_left ..

theorem balanced_step (h : Balanced s) (a : ι × Act) : Balanced (step single s a) := by
  obtain ⟨i, a⟩ := a
  have hstep : ∀ r p, s.phase i = r → advance single a s.shared r = p →
      Balanced (s.put i p.1 p.2) := by
    intro r p hi hp
    unfold advance at hp
    split at hp
    case h_1 w =>
      subst hp
      refine h.move nofun (fun key => ⟨0, ?_, ?_⟩) ⟨1, ?_, ?_⟩ (fun key => ?_) ?_
      · rw [hi]
        rfl
      · exact (Nat.mod_eq_of_lt (totalAt_lt s.shared key)).symm
      · rw [hi]
        rfl
      · simp
      · simp [Recording.keys]
      · rw [hi]
        exact List.nil_subset _
    case h_2 w =>
      subst hp
      refine h.move nofun (fun key => ⟨0, ?_, ?_⟩) ⟨0, ?_, ?_⟩ (fun key => ?_) ?_
      · rw [hi]
        rfl
      · exact (Nat.mod_eq_of_lt (totalAt_lt s.shared key)).symm
      · rw [hi]
        rfl
      · exact (Nat.mod_eq_of_lt s.shared.totalRequests.toNat_lt).symm
      · simp [Recording.keys]
      · rw [hi]
        exact List.nil_subset _
    case h_3 w =>
      subst hp
      exact h.record (by rw [hi]; rfl) rfl (by rw [hi]; rfl) (by rw [hi]; exact List.not_mem_nil)
    case h_4 w =>
      subst hp
      refine h.record (by rw [hi]; rfl) rfl (by rw [hi]; rfl) ?_
      rw [hi]
      simpa [Recording.keys] using (nameKey_ne_appKey w.sub w.app w.app).symm
    case h_5 secs order =>
      subst hp hi
      obtain ⟨v, hv⟩ := beginTick_eq s.shared secs order
      rw [hv]
      exact h.shared (fun _ => rfl) rfl fun _ => rfl
    case h_6 emaAlpha =>
      subst hp hi
      exact h.shared (totalAt_advance _ _) (totalRequests_advance _ _) (isSome_advance _ _)
    case h_7 =>
      subst hp hi
      exact h.shared (fun _ => rfl) rfl fun _ => rfl
  exact hstep _ _ rfl rfl

theorem balanced_run (acts : List (ι × Act)) : Balanced (acts.foldl (step single) start) :=
  List.foldlRecOn acts _ balanced_start fun _ h a _ => balanced_step h a

/-! ## What the metrics task takes -/

def Monitor.deltaAt (m : Monitor) (key : String) : UInt64 :=
  (m.clients.get? key).elim 0 ClientStats.delta

def Monitor.lastAt (m : Monitor) (key : String) : UInt64 :=
  (m.clients.get? key).elim 0 ClientStats.lastTotal

/-- What a step takes of the work under a key. -/
def takes (m : Monitor) (a : Act) (key : String) : UInt64 :=
  match a with
  | .visit _ => if m.next = some key then m.deltaAt key else 0
  | _ => 0

variable (single) in
/-- What the steps of a run take. -/
def taken (s : Publish.State ι Monitor Recording) : List (ι × Act) → String → UInt64
  | [], _ => 0
  | a :: as, key => takes s.shared a.2 key + taken (step single s a) as key

theorem lastAt_record : (m.record w key).lastAt k = m.lastAt k := by
  have hget : (m.record w key).clients.get? k = if k = key then _ else m.clients.get? k :=
    SortedMap.get?_insert ..
  rw [Monitor.lastAt, hget]
  split
  case isFalse => rfl
  case isTrue hk =>
    subst hk
    rw [Monitor.lastAt]
    cases m.clients.get? k with
    | some st => rfl
    | none =>
      simp only [Option.getD_none, Option.elim_some, Option.elim_none]
      split <;> rfl

theorem lastAt_advance (m : Monitor) (emaAlpha : Binary64) (key : String) :
    (m.advance single emaAlpha).lastAt key = takes m (.visit emaAlpha) key + m.lastAt key := by
  unfold Monitor.advance takes Monitor.next
  split
  case h_1 hvisit => simp [hvisit]
  case h_2 hvisit => simp [hvisit, Monitor.lastAt]
  case h_3 secs k rest hvisit =>
    simp only [hvisit, Option.bind_some, List.head?_cons, Option.some.injEq]
    split
    case h_1 hnone =>
      split
      case isTrue hk => simp [Monitor.lastAt, Monitor.deltaAt, ← hk, hnone]
      case isFalse => simp [Monitor.lastAt]
    case h_2 st hst =>
      have hget := SortedMap.get?_insert m.clients k key (st.sample single secs emaAlpha)
      split
      case isTrue hk =>
        subst hk
        rw [if_pos rfl] at hget
        rw [Monitor.lastAt, hget, Monitor.lastAt, Monitor.deltaAt, hst]
        exact (UInt64.sub_add_cancel _ _).symm
      case isFalse hk =>
        rw [if_neg (Ne.symm hk)] at hget
        rw [Monitor.lastAt, hget, UInt64.zero_add, Monitor.lastAt]

theorem lastAt_step (s : Publish.State ι Monitor Recording) (a : ι × Act) (key : String) :
    (step single s a).shared.lastAt key = takes s.shared a.2 key + s.shared.lastAt key := by
  obtain ⟨i, a⟩ := a
  show (advance single a s.shared (s.phase i)).1.lastAt key = _
  unfold advance
  split
  case h_1 => exact (UInt64.zero_add _).symm
  case h_2 => exact (UInt64.zero_add _).symm
  case h_3 => exact lastAt_record.trans (UInt64.zero_add _).symm
  case h_4 => exact lastAt_record.trans (UInt64.zero_add _).symm
  case h_5 secs order =>
    obtain ⟨v, hv⟩ := beginTick_eq s.shared secs order
    rw [hv]
    exact (UInt64.zero_add _).symm
  case h_6 => exact lastAt_advance ..
  case h_7 hvisit _ _ _ _ =>
    unfold takes
    split
    case h_1 emaAlpha hact => exact (hvisit emaAlpha hact).elim
    case h_2 => exact (UInt64.zero_add _).symm

theorem lastAt_run (s : Publish.State ι Monitor Recording) (acts : List (ι × Act)) (key : String) :
    (acts.foldl (step single) s).shared.lastAt key =
      taken single s acts key + s.shared.lastAt key := by
  induction acts generalizing s with
  | nil => exact (UInt64.zero_add _).symm
  | cons a acts ih =>
    rw [List.foldl_cons, ih, lastAt_step, taken, ← UInt64.add_assoc,
      UInt64.add_comm (taken _ _ _ _)]

/-- What is under a key is what was taken, and what is still to be. -/
theorem total_eq_taken (acts : List (ι × Act)) (key : String) :
    (acts.foldl (step single) start).shared.totalAt key =
      (taken single start acts key +
        (acts.foldl (step single) start).shared.deltaAt key).toNat := by
  have hlast := @lastAt_run single ι _ start acts key
  have hzero : (start : Publish.State ι Monitor Recording).shared.lastAt key = 0 := rfl
  rw [hzero, UInt64.add_zero] at hlast
  rw [← hlast, Monitor.totalAt, Monitor.lastAt, Monitor.deltaAt]
  cases (acts.foldl (step single) start).shared.clients.get? key with
  | none => rfl
  | some st =>
    show st.total.toNat = (st.lastTotal + (st.total - st.lastTotal)).toNat
    rw [UInt64.add_comm, UInt64.sub_add_cancel]

/-! ## Names and apps -/

/-- What a request counts for with its name. -/
def Recording.forName (sub app : String) : Recording → ℕ
  | .named w | .done w => if w.sub = sub ∧ w.app = app then w.weight.toNat else 0
  | _ => 0

/-- What a request counts for with its app. -/
def Recording.forApp (app : String) : Recording → ℕ
  | .done w => if w.app = app then w.weight.toNat else 0
  | _ => 0

/-- What a request counts for with its name and not yet with its app. -/
def Recording.onItsWay (app : String) : Recording → ℕ
  | .named w => if w.app = app then w.weight.toNat else 0
  | _ => 0

/-- Tokens are for identities of this form. -/
def Act.Identified : Act → Prop
  | .record w => Auth.IsIdentifier w.sub ∧ Auth.IsIdentifier w.app
  | _ => True

def Recording.Identified (r : Recording) : Prop :=
  ∀ w ∈ r.work, Auth.IsIdentifier w.sub ∧ Auth.IsIdentifier w.app

omit [DecidableEq ι] in
theorem identified_start (i : ι) :
    ((start : Publish.State ι Monitor Recording).phase i).Identified := fun _ => nofun

theorem identified_step {a : ι × Act} (h : ∀ i, (s.phase i).Identified) (ha : a.2.Identified)
    (i : ι) : ((step single s a).phase i).Identified := by
  obtain ⟨j, a⟩ := a
  refine State.forall_put (fun _ r => Recording.Identified r) ?_ (fun j _ => h j) i
  have hj := h j
  generalize s.phase j = r at hj
  show (advance single a s.shared r).2.Identified
  unfold advance
  split
  case h_1 =>
    rintro w ⟨⟩
    exact ha
  all_goals exact hj

theorem identified_run {acts : List (ι × Act)} (hacts : ∀ a ∈ acts, a.2.Identified) (i : ι) :
    ((acts.foldl (step single) start).phase i).Identified :=
  List.foldlRecOn
    (motive := fun s : Publish.State ι Monitor Recording => ∀ i, (s.phase i).Identified)
    acts _ identified_start (fun _ h a ha => identified_step h (hacts a ha)) i

theorem forName_eq (sub app : String) (h : r.Identified) :
    r.weightAt (nameKey sub app) = r.forName sub app := by
  have hkey : ∀ w : Work, Auth.IsIdentifier w.sub ∧ Auth.IsIdentifier w.app →
      (nameKey sub app = nameKey w.sub w.app ↔ w.sub = sub ∧ w.app = app) := fun w hw => by
    rw [eq_comm, nameKey_inj hw.1 hw.2]
  cases r with
  | idle | counted | timed => rfl
  | named w =>
    simp only [Recording.weightAt, Recording.keys, List.mem_singleton, hkey w (h w rfl)]
    rfl
  | done w =>
    simp only [Recording.weightAt, Recording.keys, List.mem_cons, List.not_mem_nil, or_false,
      hkey w (h w rfl), nameKey_ne_appKey]
    rfl

theorem forApp_eq (app : String) (r : Recording) : r.weightAt (appKey app) = r.forApp app := by
  have hname : ∀ w : Work, appKey app ≠ nameKey w.sub w.app := fun w =>
    (nameKey_ne_appKey w.sub w.app app).symm
  cases r with
  | idle | counted | timed => rfl
  | named w => simp [Recording.weightAt, Recording.keys, hname, Recording.forApp]
  | done w =>
    simp only [Recording.weightAt, Recording.keys, List.mem_cons, hname, List.not_mem_nil,
      or_false, false_or, appKey_inj, @eq_comm _ app]
    rfl

/-- The names of an app have what the app has, and what is on its way. -/
theorem sum_forName {subs : Finset String} {app : String}
    (h : ∀ w ∈ r.work, w.app = app → w.sub ∈ subs) :
    ∑ sub ∈ subs, r.forName sub app = r.forApp app + r.onItsWay app := by
  have hone : ∀ w : Work, (w.app = app → w.sub ∈ subs) →
      ∑ sub ∈ subs, (if w.sub = sub ∧ w.app = app then w.weight.toNat else 0) =
        if w.app = app then w.weight.toNat else 0 := by
    intro w hw
    by_cases happ : w.app = app
    · simp only [happ, and_true, if_true]
      rw [Finset.sum_ite_eq, if_pos (hw happ)]
    · simp [happ]
  cases r with
  | idle | counted | timed => simp [Recording.forName, Recording.forApp, Recording.onItsWay]
  | named w | done w =>
    simpa [Recording.forName, Recording.forApp, Recording.onItsWay] using hone w (h w rfl)

/-- **No work is lost or counted twice**, whatever the order of steps: modulo `2 ^ 64` a
name has the work of its requests that came to it, the names of an app together what the app
has and what is on its way from name to app, and the server one for each request; and under
each key the work is what the metrics task took so far and what it takes next. -/
theorem work_accounted {acts : List (ι × Act)} (hacts : ∀ a ∈ acts, a.2.Identified)
    {s : Publish.State ι Monitor Recording} (hs : s = acts.foldl (step single) start)
    {is : Finset ι} (his : ∀ i, i ∉ is → s.phase i = .idle) :
    s.shared.totalRequests.toNat = (∑ i ∈ is, (s.phase i).countAt) % 2 ^ 64 ∧
      (∀ sub app, s.shared.totalAt (nameKey sub app) =
        (∑ i ∈ is, (s.phase i).forName sub app) % 2 ^ 64) ∧
      (∀ app (subs : Finset String),
        (∀ i, ∀ w ∈ (s.phase i).work, w.app = app → w.sub ∈ subs) →
        (∑ sub ∈ subs, s.shared.totalAt (nameKey sub app)) % 2 ^ 64 =
          (s.shared.totalAt (appKey app) + ∑ i ∈ is, (s.phase i).onItsWay app) % 2 ^ 64) ∧
      ∀ key, s.shared.totalAt key = (taken single start acts key + s.shared.deltaAt key).toNat := by
  have hbalanced : Balanced s := hs ▸ balanced_run acts
  have hidentified : ∀ i, (s.phase i).Identified := hs ▸ identified_run hacts
  have hname : ∀ sub app, s.shared.totalAt (nameKey sub app) =
      (∑ i ∈ is, (s.phase i).forName sub app) % 2 ^ 64 := by
    intro sub app
    rw [hbalanced.total is his]
    congr 1
    exact Finset.sum_congr rfl fun i _ => forName_eq sub app (hidentified i)
  refine ⟨hbalanced.requests is his, hname, fun app subs hsubs => ?_, fun key => ?_⟩
  · have happs : s.shared.totalAt (appKey app) = (∑ i ∈ is, (s.phase i).forApp app) % 2 ^ 64 := by
      rw [hbalanced.total is his]
      congr 1
      exact Finset.sum_congr rfl fun i _ => forApp_eq app _
    calc (∑ sub ∈ subs, s.shared.totalAt (nameKey sub app)) % 2 ^ 64
        = (∑ sub ∈ subs, (∑ i ∈ is, (s.phase i).forName sub app) % 2 ^ 64) % 2 ^ 64 := by
          rw [Finset.sum_congr rfl fun sub _ => hname sub app]
      _ = (∑ i ∈ is, ∑ sub ∈ subs, (s.phase i).forName sub app) % 2 ^ 64 := by
          rw [← Finset.sum_nat_mod, Finset.sum_comm]
      _ = ((∑ i ∈ is, (s.phase i).forApp app) + ∑ i ∈ is, (s.phase i).onItsWay app) % 2 ^ 64 := by
          rw [Finset.sum_congr rfl fun i _ => sum_forName (hsubs i), Finset.sum_add_distrib]
      _ = (s.shared.totalAt (appKey app) + ∑ i ∈ is, (s.phase i).onItsWay app) % 2 ^ 64 := by
          rw [happs, Nat.mod_add_mod]
  · rw [hs]
    exact total_eq_taken acts key

/-- Two requests of a clerk: one is done, one is still to be counted with its app. -/
theorem work_accounted_sample :
    let w : Work := ⟨"clerk", "shop", 3, .lit 5 1, 0⟩
    let acts : List (ℕ × Act) :=
      [(0, .record w), (0, .next), (1, .record w), (0, .next),
        (2, .beginTick 2 ["name:clerk@shop"]), (1, .next), (0, .next), (2, .visit (.lit 1 5)),
        (1, .next)]
    let s := acts.foldl (step id) start
    s.shared.totalRequests.toNat = 2 ∧ s.shared.totalAt (nameKey "clerk" "shop") = 6 ∧
      (∑ sub ∈ {"clerk"}, s.shared.totalAt (nameKey sub "shop")) % 2 ^ 64 =
        (s.shared.totalAt (appKey "shop") + 3) % 2 ^ 64 := by
  intro w acts s
  have hacts : ∀ a ∈ acts, a.2.Identified := by
    have hw : Auth.IsIdentifier w.sub ∧ Auth.IsIdentifier w.app :=
      ⟨⟨by decide, by decide, List.all_eq_true.mp (by decide)⟩,
        ⟨by decide, by decide, List.all_eq_true.mp (by decide)⟩⟩
    simp [acts, Act.Identified, hw]
  have hphase : ∀ i, s.phase i = if i = 0 then .done w else if i = 1 then .named w else .idle := by
    intro i
    by_cases h0 : i = 0
    · subst h0
      rfl
    · by_cases h1 : i = 1
      · subst h1
        rfl
      · by_cases h2 : i = 2
        · subst h2
          rfl
        · rw [if_neg h0, if_neg h1]
          show (Publish.run (fun _ => advance id) start acts).phase i = start.phase i
          refine Publish.phase_run_of_ne fun a ha => ?_
          simp only [acts, List.mem_cons, List.not_mem_nil, or_false] at ha
          rcases ha with rfl | rfl | rfl | rfl | rfl | rfl | rfl | rfl | rfl <;> simp <;> omega
  have hwork := @work_accounted id ℕ _ acts hacts s rfl {0, 1} fun i hi => by
    simp only [Finset.mem_insert, Finset.mem_singleton, not_or] at hi
    rw [hphase, if_neg hi.1, if_neg hi.2]
  obtain ⟨hrequests, hname, happ, -⟩ := hwork
  refine ⟨?_, ?_, ?_⟩
  · rw [hrequests]
    simp [hphase, Recording.countAt, Recording.work]
  · rw [hname]
    simp [hphase, Recording.forName, w]
  · rw [happ "shop" {"clerk"}]
    · simp [hphase, Recording.onItsWay, w]
    · intro i w' hw'
      have hw' : w' = w := by
        rw [hphase] at hw'
        split at hw'
        · exact (Option.some.inj hw').symm
        · split at hw'
          · exact (Option.some.inj hw').symm
          · cases hw'
      simp [hw', w]

end XavierDB.Metrics.Clients

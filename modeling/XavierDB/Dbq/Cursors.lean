import XavierDB.Base.Numeral
import XavierDB.Base.Publish
import XavierDB.Base.SortedMap
import XavierDB.Dbq.Page

/-!
# The cursor registry (`src/dbq.rs`, `src/routes_q.rs`)

Requests enter the cursors they give out: first they draw a number, then they
insert. The metrics task sweeps: it looks at all cursors, and if they are too
many it removes the least recently used, one after the other, while requests
go on. A sweep spares the thousand cursors used last and whatever is entered
after its look.
-/

namespace XavierDB.Dbq.Cursors

open Publish

structure CursorInfo where
  id : String
  db : String
  coll : String
  createdMs : Int
  lastUsedMs : Int
  uses : UInt64

structure Registry where
  cursors : SortedMap String CursorInfo
  cursorSeq : UInt64
  /-- the ids that a sweep has still to remove -/
  sweep : Option (List String)

def Registry.start : Registry := ⟨.empty, 0, none⟩

def cursorId (seq : ℕ) : String := "c" ++ String.ofList (Nat.toDigits 16 seq)

/-- The end of `make_next_cursor` and of `make_list_cursor`. -/
def Registry.enter (r : Registry) (seq : UInt64) (db coll : String) (now : Int) : Registry :=
  let id := cursorId seq.toNat
  { r with cursors := r.cursors.insert id ⟨id, db, coll, now, now, 0⟩ }

/-- `touch_cursor`. -/
def Registry.touch (r : Registry) (id : String) (now : Int) : Registry :=
  match r.cursors.get? id with
  | none => r
  | some c =>
    { r with cursors := r.cursors.insert id { c with lastUsedMs := now, uses := c.uses + 1 } }

/-- What a sweep removes of what it saw. -/
def stale (seen : List (String × Int)) : List String :=
  ((seen.mergeSort fun a b => a.2 ≤ b.2).take (seen.length - 1000)).map Prod.fst

def Registry.seen (r : Registry) : List (String × Int) :=
  r.cursors.entries.map fun p => (p.2.id, p.2.lastUsedMs)

/-- The look of `cursor_sweep`; the map yields its entries in any order. It reads each
cursor once, under the lock of its shard, so that what it sees is what one look sees. -/
def Registry.beginSweep (r : Registry) (seen : List (String × Int)) : Registry :=
  if r.sweep.isNone && seen.isPerm r.seen then
    if r.cursors.entries.length ≤ 2000 then r else { r with sweep := some (stale seen) }
  else r

def Registry.remove (r : Registry) : Registry :=
  match r.sweep with
  | none => r
  | some [] => { r with sweep := none }
  | some (id :: ids) => { r with cursors := r.cursors.remove id, sweep := some ids }

/-- A request on its way to enter a cursor. -/
inductive Entering where
  | idle
  | numbered (seq : UInt64) (db coll : String)
  | entered (seq : UInt64) (db coll : String)

inductive Act where
  | number (db coll : String)
  | enter (now : Int)
  | touch (id : String) (now : Int)
  | beginSweep (seen : List (String × Int))
  | remove

def advance (a : Act) (r : Registry) (e : Entering) : Registry × Entering :=
  match a, e with
  | .number db coll, .idle =>
    ({ r with cursorSeq := r.cursorSeq + 1 }, .numbered r.cursorSeq db coll)
  | .enter now, .numbered seq db coll => (r.enter seq db coll now, .entered seq db coll)
  | .touch id now, e => (r.touch id now, e)
  | .beginSweep seen, e => (r.beginSweep seen, e)
  | .remove, e => (r.remove, e)
  | _, e => (r, e)

variable {ι : Type} [DecidableEq ι]

def step (s : State ι Registry Entering) (a : ι × Act) : State ι Registry Entering :=
  Publish.step (fun _ => advance) s a

def start : State ι Registry Entering := ⟨.start, fun _ => .idle⟩

/-! ## Ids -/

/-- The cursor that a request gives out has the id of its number. -/
theorem id_makeNextCursor {X : ExtJson} {seq : ℕ} {db coll : String} {sort : SortKeys}
    {last : Document} {c : Cursor} (h : makeNextCursor X seq db coll sort last = .ok c) :
    c.id = cursorId seq ∧ c.db = db ∧ c.coll = coll := by
  obtain ⟨values, -, h⟩ := bind_ok h
  obtain rfl := Except.ok.inj h
  exact ⟨rfl, rfl, rfl⟩

theorem cursorId_inj {n m : ℕ} (h : cursorId n = cursorId m) : n = m := by
  rw [cursorId, cursorId, String.append_right_inj] at h
  exact toDigits_inj (String.ofList_injective h)

/-- The number a request has drawn. -/
def Entering.drawn : Entering → Option UInt64
  | .idle => none
  | .numbered seq _ _ | .entered seq _ _ => some seq

/-! ## What a step does to the cursors -/

variable {r sh : Registry} {id k db coll : String} {seq : UInt64} {now : Int}

theorem get?_enter : (r.enter seq db coll now).cursors.get? k =
    if k = cursorId seq.toNat then some ⟨cursorId seq.toNat, db, coll, now, now, 0⟩
    else r.cursors.get? k := SortedMap.get?_insert ..

/-- What a step counts as a use of a cursor. -/
def hit (r : Registry) (a : Act) (id : String) : UInt64 :=
  match a with
  | .touch k _ => if k = id ∧ (r.cursors.get? id).isSome = true then 1 else 0
  | _ => 0

theorem get?_touch {c : CursorInfo} (h : (r.touch id now).cursors.get? k = some c) :
    ∃ c', r.cursors.get? k = some c' ∧ c.id = c'.id ∧ c.db = c'.db ∧ c.coll = c'.coll ∧
      c.uses = c'.uses + hit r (.touch id now) k := by
  unfold Registry.touch at h
  split at h
  case h_1 hnone =>
    refine ⟨c, h, rfl, rfl, rfl, ?_⟩
    rw [hit, if_neg fun ⟨hid, hsome⟩ => by rw [← hid, hnone] at hsome; cases hsome]
    exact (UInt64.add_zero _).symm
  case h_2 c₀ hc₀ =>
    have hget := SortedMap.get?_insert r.cursors id k
      { c₀ with lastUsedMs := now, uses := c₀.uses + 1 }
    rw [hget] at h
    split at h
    case isTrue hk =>
      subst hk
      obtain rfl := Option.some.inj h
      exact ⟨c₀, hc₀, rfl, rfl, rfl, by rw [hit, if_pos ⟨rfl, by rw [hc₀]; rfl⟩]⟩
    case isFalse hk =>
      refine ⟨c, h, rfl, rfl, rfl, ?_⟩
      rw [hit, if_neg fun ⟨hid, _⟩ => hk hid.symm]
      exact (UInt64.add_zero _).symm

theorem isSome_touch : ((r.touch id now).cursors.get? k).isSome = (r.cursors.get? k).isSome := by
  unfold Registry.touch
  split
  case h_1 => rfl
  case h_2 c hc =>
    have hget := SortedMap.get?_insert r.cursors id k
      { c with lastUsedMs := now, uses := c.uses + 1 }
    rw [hget]
    split
    case isTrue hk => rw [hk, hc]; rfl
    case isFalse => rfl

theorem touch_eq (r : Registry) (id : String) (now : Int) : ∃ cs, r.touch id now =
    { r with cursors := cs } ∧ cs.entries.length = r.cursors.entries.length := by
  unfold Registry.touch
  split
  case h_1 => exact ⟨r.cursors, rfl, rfl⟩
  case h_2 c hc => exact ⟨_, rfl, SortedMap.length_insert_of_some (by rw [hc]; rfl) _⟩

theorem beginSweep_eq (r : Registry) (seen : List (String × Int)) :
    ∃ w, r.beginSweep seen = { r with sweep := w } := by
  unfold Registry.beginSweep
  split
  · split
    · exact ⟨r.sweep, rfl⟩
    · exact ⟨_, rfl⟩
  · exact ⟨r.sweep, rfl⟩

/-- A cursor that is there after a removal was there before. -/
theorem get?_of_remove {c : CursorInfo} (h : r.remove.cursors.get? k = some c) :
    r.cursors.get? k = some c := by
  unfold Registry.remove at h
  split at h
  case h_1 => exact h
  case h_2 => exact h
  case h_3 id ids hsweep =>
    have hget := SortedMap.get?_remove r.cursors id k
    rw [hget] at h
    split at h
    · cases h
    · exact h

theorem cursorSeq_remove (r : Registry) : r.remove.cursorSeq = r.cursorSeq := by
  unfold Registry.remove
  split <;> rfl

/-! ## Every cursor is of one request -/

variable {s : State ι Registry Entering} {i j : ι} {count d : String → UInt64}

structure Accounted (s : State ι Registry Entering) (count : String → UInt64) : Prop where
  drawn : ∀ i seq, (s.phase i).drawn = some seq → seq.toNat < s.shared.cursorSeq.toNat
  unique : ∀ i j seq, (s.phase i).drawn = some seq → (s.phase j).drawn = some seq → i = j
  entry : ∀ id c, s.shared.cursors.get? id = some c → c.id = id ∧ c.uses = count id ∧
    ∃ i seq, s.phase i = .entered seq c.db c.coll ∧ id = cursorId seq.toNat
  unused : ∀ id, (∀ i seq db coll, s.phase i = .entered seq db coll → id ≠ cursorId seq.toNat) →
    count id = 0

omit [DecidableEq ι] in
theorem accounted_start : Accounted (start : State ι Registry Entering) fun _ => 0 where
  drawn _ _ h := nomatch h
  unique _ _ _ h := nomatch h
  entry _ _ h := nomatch h
  unused _ _ := rfl

/-- The cursors change, and no request moves on. -/
theorem Accounted.shared (h : Accounted s count) (hseq : sh.cursorSeq = s.shared.cursorSeq)
    (hentry : ∀ k c, sh.cursors.get? k = some c → ∃ c', s.shared.cursors.get? k = some c' ∧
      c.id = c'.id ∧ c.db = c'.db ∧ c.coll = c'.coll ∧ c.uses = c'.uses + d k)
    (hd : ∀ k, s.shared.cursors.get? k = none → d k = 0) :
    Accounted (s.put i sh (s.phase i)) fun k => count k + d k := by
  have hphase : (s.put i sh (s.phase i)).phase = s.phase :=
    funext (State.forall_put (fun j e => e = s.phase j) rfl fun _ _ => rfl)
  constructor
  · rw [hphase, State.put_shared, hseq]
    exact h.drawn
  · rw [hphase]
    exact h.unique
  · rw [hphase]
    intro k c hc
    obtain ⟨c', hc', hid, hdb, hcoll, huses⟩ := hentry k c hc
    obtain ⟨hid', huses', i, seq, hi, hk⟩ := h.entry k c' hc'
    exact ⟨hid.trans hid', by rw [huses, huses'], i, seq, by rw [hdb, hcoll]; exact hi, hk⟩
  · rw [hphase]
    intro k hk
    rw [h.unused k hk, hd k, UInt64.add_zero]
    cases hget : s.shared.cursors.get? k with
    | none => rfl
    | some c =>
      obtain ⟨-, -, i, seq, hi, hkey⟩ := h.entry k c hget
      exact absurd hkey (hk i seq _ _ hi)

/-- The same for a step that uses no cursor. -/
theorem Accounted.fewer (h : Accounted s count) (hseq : sh.cursorSeq = s.shared.cursorSeq)
    (hentry : ∀ k c, sh.cursors.get? k = some c → s.shared.cursors.get? k = some c)
    (hd : ∀ k, d k = 0) : Accounted (s.put i sh (s.phase i)) fun k => count k + d k :=
  h.shared hseq (fun k c hc => ⟨c, hentry k c hc, rfl, rfl, rfl, by rw [hd, UInt64.add_zero]⟩)
    fun k _ => hd k

omit [DecidableEq ι] in
theorem Accounted.unhit (h : Accounted s count) (hd : ∀ k, d k = 0) :
    Accounted s fun k => count k + d k := by
  simpa only [hd, UInt64.add_zero] using h

/-- A request draws a number. -/
theorem Accounted.number (h : Accounted s count) (hi : s.phase i = .idle)
    (hseq : s.shared.cursorSeq.toNat + 1 < 2 ^ 64) :
    Accounted (s.put i { s.shared with cursorSeq := s.shared.cursorSeq + 1 }
      (.numbered s.shared.cursorSeq db coll)) count := by
  have hnext : (s.shared.cursorSeq + 1).toNat = s.shared.cursorSeq.toNat + 1 := by
    rw [UInt64.toNat_add]
    exact Nat.mod_eq_of_lt hseq
  have hnone : ∀ j, (s.phase j).drawn ≠ some s.shared.cursorSeq := fun j hj =>
    (h.drawn j _ hj).false
  have hentered : ∀ j seq db' coll', s.phase j = .entered seq db' coll' → j ≠ i := by
    rintro j seq db' coll' hj rfl
    rw [hi] at hj
    cases hj
  constructor
  · rw [State.put_shared, hnext]
    refine State.forall_put (fun _ e => ∀ seq, Entering.drawn e = some seq →
      seq.toNat < s.shared.cursorSeq.toNat + 1) ?_ fun j _ seq hj => ?_
    · rintro seq ⟨⟩
      exact Nat.lt_succ_self _
    · exact Nat.lt_succ_of_lt (h.drawn j seq hj)
  · intro j j' seq
    by_cases hj : j = i
    · by_cases hj' : j' = i
      · exact fun _ _ => hj.trans hj'.symm
      · rw [hj, State.put_self, State.put_of_ne hj']
        rintro ⟨⟩ hseq
        exact absurd hseq (hnone j')
    · by_cases hj' : j' = i
      · rw [hj', State.put_self, State.put_of_ne hj]
        rintro hseq ⟨⟩
        exact absurd hseq (hnone j)
      · rw [State.put_of_ne hj, State.put_of_ne hj']
        exact h.unique j j' seq
  · intro k c hc
    obtain ⟨hid, huses, j, seq, hj, hk⟩ := h.entry k c hc
    exact ⟨hid, huses, j, seq, by rw [State.put_of_ne (hentered j _ _ _ hj)]; exact hj, hk⟩
  · intro k hk
    refine h.unused k fun j seq db' coll' hj => ?_
    exact hk j seq db' coll' (by rw [State.put_of_ne (hentered j _ _ _ hj)]; exact hj)

/-- A request enters its cursor. -/
theorem Accounted.enter (h : Accounted s count) (hi : s.phase i = .numbered seq db coll) :
    Accounted (s.put i (s.shared.enter seq db coll now) (.entered seq db coll)) count := by
  have hdrawn : ∀ j, ((s.put i (s.shared.enter seq db coll now) (.entered seq db coll)).phase
      j).drawn = (s.phase j).drawn :=
    State.forall_put (fun j e => Entering.drawn e = (s.phase j).drawn) (by rw [hi]; rfl)
      fun _ _ => rfl
  have hentered : ∀ j seq' db' coll', s.phase j = .entered seq' db' coll' → j ≠ i := by
    rintro j seq' db' coll' hj rfl
    rw [hi] at hj
    cases hj
  constructor
  · intro j
    rw [hdrawn]
    exact h.drawn j
  · intro j j'
    rw [hdrawn, hdrawn]
    exact h.unique j j'
  · intro k c hc
    rw [State.put_shared, get?_enter] at hc
    split at hc
    case isTrue hk =>
      obtain rfl := Option.some.inj hc
      refine ⟨hk.symm, (h.unused k fun j seq' db' coll' hj heq => ?_).symm, i, seq,
        State.put_self, hk⟩
      -- the number is this request's alone
      have hseq : seq' = seq := UInt64.toNat_inj.mp (cursorId_inj (heq.symm.trans hk))
      exact hentered j _ _ _ hj
        (h.unique j i seq (by rw [hj, ← hseq]; rfl) (by rw [hi]; rfl))
    case isFalse =>
      obtain ⟨hid, huses, j, seq', hj, hk⟩ := h.entry k c hc
      exact ⟨hid, huses, j, seq', by rw [State.put_of_ne (hentered j _ _ _ hj)]; exact hj, hk⟩
  · intro k hk
    refine h.unused k fun j seq' db' coll' hj => ?_
    exact hk j seq' db' coll' (by rw [State.put_of_ne (hentered j _ _ _ hj)]; exact hj)

theorem accounted_step (h : Accounted s count) (hseq : s.shared.cursorSeq.toNat + 1 < 2 ^ 64)
    (a : ι × Act) : Accounted (step s a) fun k => count k + hit s.shared a.2 k := by
  obtain ⟨i, a⟩ := a
  have hstep : ∀ e p, s.phase i = e → advance a s.shared e = p →
      Accounted (s.put i p.1 p.2) fun k => count k + hit s.shared a k := by
    intro e p hi hp
    unfold advance at hp
    split at hp
    case h_1 db coll =>
      subst hp
      exact (h.number hi hseq).unhit fun _ => rfl
    case h_2 now seq db coll =>
      subst hp
      exact (h.enter hi).unhit fun _ => rfl
    case h_3 id now =>
      subst hp hi
      obtain ⟨cs, hcs, -⟩ := touch_eq s.shared id now
      refine h.shared (by rw [hcs]) (fun k c => get?_touch) fun k hk => ?_
      rw [hit, if_neg fun ⟨_, hsome⟩ => by rw [hk] at hsome; cases hsome]
    case h_4 seen =>
      subst hp hi
      obtain ⟨w, hw⟩ := beginSweep_eq s.shared seen
      rw [hw]
      exact h.fewer rfl (fun _ _ hc => hc) fun _ => rfl
    case h_5 =>
      subst hp hi
      exact h.fewer (cursorSeq_remove _) (fun _ _ => get?_of_remove) fun _ => rfl
    case h_6 htouch _ _ _ _ =>
      subst hp hi
      refine h.fewer rfl (fun _ _ hc => hc) fun k => ?_
      unfold hit
      split
      case h_1 => exact (htouch _ _ rfl).elim
      case h_2 => rfl
  exact hstep _ _ rfl rfl

theorem cursorSeq_step (s : State ι Registry Entering) (a : ι × Act) :
    (step s a).shared.cursorSeq = s.shared.cursorSeq ∨
      (step s a).shared.cursorSeq = s.shared.cursorSeq + 1 := by
  obtain ⟨i, a⟩ := a
  show (advance a s.shared (s.phase i)).1.cursorSeq = s.shared.cursorSeq ∨
    (advance a s.shared (s.phase i)).1.cursorSeq = s.shared.cursorSeq + 1
  unfold advance
  split
  case h_1 => exact .inr rfl
  case h_3 id now =>
    obtain ⟨cs, hcs, -⟩ := touch_eq s.shared id now
    exact .inl (by rw [hcs])
  case h_4 seen =>
    obtain ⟨w, hw⟩ := beginSweep_eq s.shared seen
    exact .inl (by rw [hw])
  case h_5 => exact .inl (cursorSeq_remove _)
  all_goals exact .inl rfl

/-- The uses of a cursor in a run. -/
def hits (s : State ι Registry Entering) : List (ι × Act) → String → UInt64
  | [], _ => 0
  | a :: as, id => hit s.shared a.2 id + hits (step s a) as id

theorem hits_concat (s : State ι Registry Entering) (as : List (ι × Act)) (a : ι × Act)
    (id : String) : hits s (as ++ [a]) id = hits s as id + hit (as.foldl step s).shared a.2 id := by
  induction as generalizing s with
  | nil => exact UInt64.add_comm _ _
  | cons b as ih => rw [List.cons_append, hits, ih, ← UInt64.add_assoc, hits, List.foldl_cons]

theorem accounted_run {acts : List (ι × Act)} (h : acts.length < 2 ^ 64) :
    Accounted (acts.foldl step start) (hits start acts) ∧
      (acts.foldl step (start : State ι Registry Entering)).shared.cursorSeq.toNat ≤
        acts.length := by
  induction acts using List.reverseRecOn with
  | nil => exact ⟨accounted_start, Nat.zero_le _⟩
  | append_singleton acts a ih =>
    rw [List.length_append, List.length_singleton] at h ⊢
    obtain ⟨hacc, hle⟩ := ih (by omega)
    rw [List.foldl_append, List.foldl_cons, List.foldl_nil]
    refine ⟨?_, ?_⟩
    · rw [show hits start (acts ++ [a]) = _ from funext (hits_concat start acts a)]
      exact accounted_step hacc (by omega) a
    · rcases cursorSeq_step (acts.foldl step start) a with hseq | hseq
      · rw [hseq]
        omega
      · rw [hseq, UInt64.toNat_add]
        exact (Nat.mod_le _ _).trans (Nat.add_le_add_right hle 1)

/-- **A cursor is of one request**, whatever the order of steps: the registry has it under its
own id, that of the number which one request drew for this collection, and has counted each
use since. -/
theorem cursors_accounted {acts : List (ι × Act)} (h : acts.length < 2 ^ 64)
    {s : State ι Registry Entering} (hs : s = acts.foldl step start) :
    (∀ i j seq, (s.phase i).drawn = some seq → (s.phase j).drawn = some seq → i = j) ∧
      ∀ id c, s.shared.cursors.get? id = some c → c.id = id ∧ c.uses = hits start acts id ∧
        ∃ i seq, s.phase i = .entered seq c.db c.coll ∧ id = cursorId seq.toNat := by
  subst hs
  exact ⟨(accounted_run h).1.unique, (accounted_run h).1.entry⟩

/-- A clerk pages through two collections and comes back to the first. -/
theorem cursors_accounted_sample :
    let acts : List (ℕ × Act) := [(0, .number "shop" "orders"), (1, .number "shop" "bills"),
      (1, .enter 5), (0, .enter 6), (2, .touch "c0" 8), (2, .touch "c7" 9)]
    ∀ c, (acts.foldl step start).shared.cursors.get? "c0" = some c → c.id = "c0" ∧ c.uses = 1 := by
  intro acts c hc
  obtain ⟨hid, huses, -⟩ := (@cursors_accounted ℕ _ acts (by decide) _ rfl).2 "c0" c hc
  exact ⟨hid, huses.trans rfl⟩

/-! ## The registry is bounded -/

/-- The entries are under their ids. -/
def Keyed (r : Registry) : Prop := ∀ k c, r.cursors.get? k = some c → c.id = k

theorem keyed_step (h : Keyed s.shared) (a : ι × Act) : Keyed (step s a).shared := by
  obtain ⟨i, a⟩ := a
  show Keyed (advance a s.shared (s.phase i)).1
  unfold advance
  split
  case h_1 => exact h
  case h_2 now seq db coll _ =>
    intro k c hc
    rw [get?_enter] at hc
    split at hc
    case isTrue hk =>
      obtain rfl := Option.some.inj hc
      exact hk.symm
    case isFalse => exact h k c hc
  case h_3 id now =>
    intro k c hc
    obtain ⟨c', hc', hid, -⟩ := get?_touch hc
    exact hid.trans (h k c' hc')
  case h_4 seen =>
    obtain ⟨w, hw⟩ := beginSweep_eq s.shared seen
    rw [hw]
    exact h
  case h_5 => exact fun k c hc => h k c (get?_of_remove hc)
  case h_6 => exact h

/-- No more cursors than a sweep leaves and `n`. -/
structure Sized (r : Registry) (n : ℕ) : Prop where
  idle : r.sweep = none → r.cursors.entries.length ≤ 2000 + n
  sweeping : ∀ ids, r.sweep = some ids → ids.Nodup ∧
    (∀ id ∈ ids, (r.cursors.get? id).isSome = true) ∧
    r.cursors.entries.length ≤ 1000 + ids.length + n

variable {n m : ℕ} {seen : List (String × Int)}

theorem Sized.cursors (h : Sized r n) (hsweep : sh.sweep = r.sweep)
    (hlen : sh.cursors.entries.length + n ≤ r.cursors.entries.length + m)
    (hsome : ∀ k, (r.cursors.get? k).isSome = true → (sh.cursors.get? k).isSome = true) :
    Sized sh m where
  idle hno := by
    have := h.idle (hsweep ▸ hno)
    omega
  sweeping ids hids := by
    obtain ⟨hnodup, hpresent, hle⟩ := h.sweeping ids (hsweep ▸ hids)
    exact ⟨hnodup, fun id hid => hsome id (hpresent id hid), by omega⟩

theorem Sized.remove (h : Sized r n) : Sized r.remove n := by
  unfold Registry.remove
  split
  case h_1 => exact h
  case h_2 hsweep =>
    have hle := (h.sweeping _ hsweep).2.2
    rw [List.length_nil] at hle
    exact ⟨fun _ => show r.cursors.entries.length ≤ 2000 + n by omega, fun _ hids => nomatch hids⟩
  case h_3 id ids hsweep =>
    obtain ⟨hnodup, hpresent, hle⟩ := h.sweeping _ hsweep
    rw [List.nodup_cons] at hnodup
    rw [List.forall_mem_cons] at hpresent
    rw [List.length_cons] at hle
    refine ⟨fun hno => (Option.some_ne_none _ hno).elim, fun ids' hids => ?_⟩
    obtain rfl := Option.some.inj hids
    refine ⟨hnodup.2, fun k hk => ?_, ?_⟩
    · have hget := SortedMap.get?_remove r.cursors id k
      have hne : k ≠ id := fun heq => hnodup.1 (heq ▸ hk)
      rw [hget, if_neg hne]
      exact hpresent.2 k hk
    · have hlt := SortedMap.length_remove_lt hpresent.1
      show (r.cursors.remove id).entries.length ≤ _
      omega

theorem seen_fst (h : Keyed r) : r.seen.map Prod.fst = r.cursors.entries.map Prod.fst := by
  rw [Registry.seen, List.map_map]
  exact List.map_congr_left fun p hp => h p.1 p.2 (SortedMap.get?_of_mem hp)

theorem perm_stale (seen : List (String × Int)) : ∃ kept,
    (stale seen ++ kept).Perm (seen.map Prod.fst) ∧ (stale seen).length = seen.length - 1000 := by
  refine ⟨((seen.mergeSort fun a b => a.2 ≤ b.2).drop (seen.length - 1000)).map Prod.fst, ?_, ?_⟩
  · rw [stale, ← List.map_append, List.take_append_drop]
    exact (List.mergeSort_perm _ _).map _
  · rw [stale, List.length_map, List.length_take, List.length_mergeSort]
    omega

theorem sized_look (hkeyed : Keyed r) (hsweep : r.sweep = none)
    (hseen : seen.Perm r.seen) : Sized (r.beginSweep seen) 0 := by
  rw [Registry.beginSweep, if_pos (by simp [hsweep, List.isPerm_iff.mpr hseen])]
  split
  case isTrue hle => exact ⟨fun _ => hle, fun ids hids => nomatch hsweep.symm.trans hids⟩
  case isFalse hgt =>
    obtain ⟨kept, hperm, hlen⟩ := perm_stale seen
    have hkeys : (stale seen ++ kept).Perm (r.cursors.entries.map Prod.fst) :=
      seen_fst hkeyed ▸ hperm.trans (hseen.map _)
    have hseenlen : seen.length = r.cursors.entries.length := by
      rw [hseen.length_eq, Registry.seen, List.length_map]
    have hnodup : (r.cursors.entries.map Prod.fst).Nodup :=
      (List.pairwise_map.mpr r.cursors.sorted).imp ne_of_lt
    refine ⟨fun hno => (Option.some_ne_none _ hno).elim, fun ids hids => ?_⟩
    obtain rfl := Option.some.inj hids
    refine ⟨(List.nodup_append.mp (hkeys.nodup_iff.mpr hnodup)).1, fun id hid => ?_, ?_⟩
    · obtain ⟨⟨k, c⟩, hmem, rfl⟩ := List.mem_map.mp (hkeys.mem_iff.mp (List.mem_append_left _ hid))
      rw [SortedMap.get?_of_mem hmem]
      rfl
    · show r.cursors.entries.length ≤ _
      omega

/-- The cursors entered since a sweep last looked. -/
def sinceLook (n : ℕ) (a : Act) (r : Registry) (e : Entering) : ℕ :=
  match a, e with
  | .enter _, .numbered .. => n + 1
  | .beginSweep seen, _ => if r.sweep.isNone && seen.isPerm r.seen then 0 else n
  | _, _ => n

/-- The same after a run. -/
def since (s : State ι Registry Entering) (n : ℕ) : List (ι × Act) → ℕ
  | [] => n
  | a :: as => since (step s a) (sinceLook n a.2 s.shared (s.phase a.1)) as

theorem sized_step (h : Sized s.shared n) (hkeyed : Keyed s.shared) (a : ι × Act) :
    Sized (step s a).shared (sinceLook n a.2 s.shared (s.phase a.1)) := by
  obtain ⟨i, a⟩ := a
  show Sized (advance a s.shared (s.phase i)).1 (sinceLook n a s.shared (s.phase i))
  unfold advance
  split
  case h_1 => exact h.cursors rfl le_rfl fun _ hk => hk
  case h_2 now seq db coll hi =>
    rw [hi]
    refine Sized.cursors (m := n + 1) h rfl ?_ fun k hk => ?_
    · have hle := SortedMap.length_insert_le s.shared.cursors (cursorId seq.toNat)
        ⟨cursorId seq.toNat, db, coll, now, now, 0⟩
      exact Nat.add_le_add_right hle n |>.trans (by omega)
    · rw [get?_enter]
      split
      · rfl
      · exact hk
  case h_3 id now =>
    obtain ⟨cs, hcs, hlen⟩ := touch_eq s.shared id now
    exact h.cursors (by rw [hcs]) (by rw [hcs]; exact (Nat.add_right_cancel_iff.mpr hlen).le)
      fun k hk => by rw [isSome_touch]; exact hk
  case h_4 seen =>
    show Sized (s.shared.beginSweep seen)
      (if s.shared.sweep.isNone && seen.isPerm s.shared.seen then 0 else n)
    split
    case isTrue hlook =>
      rw [Bool.and_eq_true, Option.isNone_iff_eq_none, List.isPerm_iff] at hlook
      exact sized_look hkeyed hlook.1 hlook.2
    case isFalse hlook =>
      rw [Registry.beginSweep, if_neg hlook]
      exact h
  case h_5 => exact h.remove
  case h_6 hlook _ _ hnumbered =>
    unfold sinceLook
    split
    case h_1 hi _ _ _ => exact (hnumbered _ _ _ _ rfl hi).elim
    case h_2 => exact (hlook _ rfl).elim
    case h_3 => exact h

theorem sized_run (acts : List (ι × Act)) (h : Sized s.shared n) (hkeyed : Keyed s.shared) :
    Sized (acts.foldl step s).shared (since s n acts) := by
  induction acts generalizing s n with
  | nil => exact h
  | cons a acts ih => exact ih (sized_step h hkeyed a) (keyed_step hkeyed a)

/-- **The registry is bounded**, whatever the order of steps: after a sweep it has no more
cursors than two thousand and those entered since the sweep looked; while a sweep goes on, no
more than a thousand, those it has still to remove, and those entered since. -/
theorem registry_bounded (acts : List (ι × Act)) :
    let r := (acts.foldl step (start : State ι Registry Entering)).shared
    (r.sweep = none → r.cursors.entries.length ≤ 2000 + since start 0 acts) ∧
      ∀ ids, r.sweep = some ids →
        r.cursors.entries.length ≤ 1000 + ids.length + since start 0 acts := by
  have hstart : Sized (start : State ι Registry Entering).shared 0 :=
    ⟨fun _ => Nat.zero_le _, fun _ hids => nomatch hids⟩
  have hsized := sized_run acts hstart fun _ _ hc => nomatch hc
  exact ⟨hsized.idle, fun ids hids => (hsized.sweeping ids hids).2.2⟩

/-! ## What a sweep spares -/

/-- What a sweep keeps of the cursors it found, and of those entered since its look. -/
structure Sparing (s t : State ι Registry Entering) (ids : List String) : Prop where
  rest : ∀ rest, t.shared.sweep = some rest → rest ⊆ ids
  entered : ∀ j seq db coll, s.phase j = .entered seq db coll → t.phase j = .entered seq db coll
  kept : ∀ id, (s.shared.cursors.get? id).isSome = true → id ∉ ids →
    (t.shared.cursors.get? id).isSome = true
  new : ∀ j seq db coll, t.phase j = .entered seq db coll → s.phase j ≠ .entered seq db coll →
    (t.shared.cursors.get? (cursorId seq.toNat)).isSome = true

variable {t : State ι Registry Entering} {ids : List String} {e : Entering}

omit [DecidableEq ι] in
/-- A cursor entered since the look is none of those to be removed. -/
theorem Sparing.notMem (h : Sparing s t ids) (ht : Accounted t count)
    (hids : ∀ id ∈ ids, ∃ j seq db coll, s.phase j = .entered seq db coll ∧
      id = cursorId seq.toNat) (hj : t.phase j = .entered seq db coll)
    (hnew : s.phase j ≠ .entered seq db coll) : cursorId seq.toNat ∉ ids := by
  intro hmem
  obtain ⟨j', seq', db', coll', hj', heq⟩ := hids _ hmem
  have hold := h.entered j' seq' db' coll' hj'
  obtain rfl : seq = seq' := UInt64.toNat_inj.mp (cursorId_inj heq)
  obtain rfl : j = j' := ht.unique j j' seq (by rw [hj]; rfl) (by rw [hold]; rfl)
  rw [hj] at hold
  exact hnew (hold ▸ hj')

theorem Sparing.put (h : Sparing s t ids) (ht : Accounted t count)
    (hids : ∀ id ∈ ids, ∃ j seq db coll, s.phase j = .entered seq db coll ∧
      id = cursorId seq.toNat)
    (hrest : ∀ rest, sh.sweep = some rest → rest ⊆ ids)
    (hsome : ∀ k, k ∉ ids → (t.shared.cursors.get? k).isSome = true →
      (sh.cursors.get? k).isSome = true)
    (hold : ∀ seq db coll, t.phase i = .entered seq db coll → e = .entered seq db coll)
    (hnew : ∀ seq db coll, e = .entered seq db coll → t.phase i = .entered seq db coll ∨
      (sh.cursors.get? (cursorId seq.toNat)).isSome = true) :
    Sparing s (t.put i sh e) ids where
  rest := hrest
  entered j seq db coll hj := by
    have hj := h.entered j seq db coll hj
    by_cases hji : j = i
    · rw [hji, State.put_self]
      exact hold seq db coll (hji ▸ hj)
    · rw [State.put_of_ne hji]
      exact hj
  kept k hk hmem := hsome k hmem (h.kept k hk hmem)
  new j seq db coll hj hs := by
    have hsince : t.phase j = .entered seq db coll →
        (sh.cursors.get? (cursorId seq.toNat)).isSome = true := fun hj =>
      hsome _ (h.notMem ht hids hj hs) (h.new j seq db coll hj hs)
    by_cases hji : j = i
    · rw [hji, State.put_self] at hj
      exact (hnew seq db coll hj).elim (hji ▸ hsince) id
    · rw [State.put_of_ne hji] at hj
      exact hsince hj

/-- A request draws a number and enters its cursor. -/
theorem number_enter (hi : s.phase i = .idle) (db coll : String) (now : Int) :
    [(i, Act.number db coll), (i, .enter now)].foldl step s =
      s.put i ({ s.shared with cursorSeq := s.shared.cursorSeq + 1 }.enter s.shared.cursorSeq db
        coll now) (.entered s.shared.cursorSeq db coll) := by
  simp [step, Publish.step, advance, hi]

structure Filled (time : ℕ → Int) (n : ℕ) (s : State ℕ Registry Entering) : Prop where
  cursorSeq : s.shared.cursorSeq = UInt64.ofNat n
  sweep : s.shared.sweep = none
  idle : ∀ i, n ≤ i → s.phase i = .idle
  get : ∀ i, i < n → s.shared.cursors.get? (cursorId i) =
    some ⟨cursorId i, "shop", "orders", time i, time i, 0⟩
  others : ∀ k, (∀ i < n, k ≠ cursorId i) → s.shared.cursors.get? k = none
  seen : ((List.range n).map fun i => (cursorId i, time i)).Perm s.shared.seen

variable {time : ℕ → Int} {n : ℕ}

theorem Filled.succ {s : State ℕ Registry Entering} (h : Filled time n s) (hn : n < 2 ^ 64) :
    Filled time (n + 1) ([(n, .number "shop" "orders"), (n, .enter (time n))].foldl step s) := by
  have hseq : (UInt64.ofNat n).toNat = n := UInt64.toNat_ofNat_of_lt' hn
  have hnew : s.shared.cursors.get? (cursorId n) = none :=
    h.others _ fun i hi heq => hi.ne (cursorId_inj heq).symm
  rw [number_enter (h.idle n (Nat.le_refl n)), h.cursorSeq]
  constructor
  case cursorSeq => simp [Registry.enter]
  case sweep => exact h.sweep
  case idle =>
    intro i hi
    rw [State.put_of_ne (by omega)]
    exact h.idle i (by omega)
  case get =>
    intro i hi
    rw [State.put_shared, get?_enter, hseq]
    split
    case isTrue heq => rw [cursorId_inj heq]
    case isFalse hne => exact h.get i (by grind)
  case others =>
    intro k hk
    rw [State.put_shared, get?_enter, hseq, if_neg (hk n (Nat.lt_succ_self n))]
    exact h.others k fun i hi => hk i (by omega)
  case seen =>
    have hperm := SortedMap.perm_insert hnew ⟨cursorId n, "shop", "orders", time n, time n, 0⟩
    rw [List.range_succ, List.map_append, State.put_shared]
    simp only [Registry.seen, Registry.enter, hseq]
    have hmap := hperm.map fun p : String × CursorInfo => (p.2.id, p.2.lastUsedMs)
    exact (List.perm_append_singleton _ _).trans ((h.seen.cons _).trans hmap.symm)

end XavierDB.Dbq.Cursors

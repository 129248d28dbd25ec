import Mathlib.Data.List.Perm.Basic
import XavierDB.Base.Ordered
import XavierDB.Perms.Glob

/-!
# The permission editor (`src/assets/ts/perm-widget.ts`)

The editor takes the rules of an app or a name apart into a table of actions for
each database and collection pattern, and writes them anew from it.
-/

namespace XavierDB.Perms.Widget

open Ordered

/-! ## The code -/

/-- Explicit allow and deny. -/
inductive ActState where
  | a
  | d
  deriving DecidableEq, Repr

/-- `Record<string, ActState>`. -/
abbrev States := String → Option ActState

def noStates : States := fun _ => none

structure PermEntry where
  pattern : String
  isGlob : Bool
  db : States
  /-- collection (or glob) -> action states -/
  colls : List (String × States)

def newEntry (db : String) : PermEntry :=
  ⟨db, db.toList.any fun c => c == '*' || c == '?', noStates, []⟩

/-- The loop over the actions of a rule. -/
def setStates (acts : List String) (st : ActState) (s : States) : States :=
  fun x => if x ∈ acts then some st else s x

/-- What `add` does to the entry of a database. -/
def addTo (st : ActState) (r : Rule) (e : PermEntry) : PermEntry :=
  if r.collections.contains "*" then { e with db := setStates r.actions st e.db }
  else
    { e with
      colls := r.collections.foldl
        (fun m c => upsert (fun _ => noStates) c (setStates r.actions st) m) e.colls }

/-- `add`. -/
def add (st : ActState) (map : List (String × PermEntry)) (r : Rule) : List (String × PermEntry) :=
  r.databases.foldl (fun m db => upsert newEntry db (addTo st r) m) map

/-- `entriesFromRules`. -/
def entriesFromRules (allow deny : List Rule) : List PermEntry :=
  (deny.foldl (add .d) (allow.foldl (add .a) [])).map Prod.snd

/-- The actions with that state, in the order of `ACTIONS`. -/
def actionsWith (st : ActState) (s : States) : List String :=
  actions.filter fun x => s x == some st

/-- The rule of a pattern and a collection, if an action has the state. -/
def ruleOf (st : ActState) (pattern coll : String) (s : States) : List Rule :=
  if (actionsWith st s).isEmpty then [] else [⟨actionsWith st s, [pattern], [coll]⟩]

/-- The pushes for a pattern and a collection. -/
def push (pattern : String) (lists : List Rule × List Rule) (c : String × States) :
    List Rule × List Rule :=
  (lists.1 ++ ruleOf .a pattern c.1 c.2, lists.2 ++ ruleOf .d pattern c.1 c.2)

/-- `applyEntries`. -/
def applyEntries (entries : List PermEntry) : List Rule × List Rule :=
  entries.foldl
    (fun lists e => e.colls.foldl (push e.pattern) (push e.pattern lists ("*", e.db))) ([], [])

/-- What a click makes of the two lists, the edit itself aside. -/
def rewriteRules (lists : List Rule × List Rule) : List Rule × List Rule :=
  applyEntries (entriesFromRules lists.1 lists.2)

/-- The verdict of a layer: the deny list comes before the allow list. -/
def layerVerdict (allow deny : List Rule) (action db coll : String) : Option ActState :=
  if ruleMatches deny action db coll then some .d
  else if ruleMatches allow action db coll then some .a
  else none

/-! ## The table -/

/-- The rule is about the collection pattern; `*` beside others stands for all. -/
def atLevel (r : Rule) (coll : String) : Bool :=
  if r.collections.contains "*" then coll == "*" else r.collections.contains coll

/-- The rule is about the action on the two patterns. -/
def covers (pattern coll action : String) (r : Rule) : Bool :=
  r.databases.contains pattern && atLevel r coll && r.actions.contains action

/-- The state of an action on two patterns. -/
def table (allow deny : List Rule) (pattern coll : String) : States := fun action =>
  if deny.any (covers pattern coll action) then some .d
  else if allow.any (covers pattern coll action) then some .a
  else none

/-- The patterns in the order in which the rules name them. -/
def patterns (rules : List Rule) : List String := (rules.flatMap Rule.databases).eraseDups

/-- The collections a rule names at a pattern, one time for each time it names the pattern. -/
def collsAt (pattern : String) (r : Rule) : List String :=
  (r.databases.filter (· == pattern)).flatMap fun _ =>
    if r.collections.contains "*" then [] else r.collections

def collNames (rules : List Rule) (pattern : String) : List String :=
  (rules.flatMap (collsAt pattern)).eraseDups

/-- The entry of a pattern. -/
def entryOf (allow deny : List Rule) (pattern : String) : PermEntry :=
  ⟨pattern, (newEntry pattern).isGlob, table allow deny pattern "*",
    (collNames (allow ++ deny) pattern).map fun c => (c, table allow deny pattern c)⟩

variable {allow deny : List Rule} {pattern coll action : String} {st : ActState} {r : Rule}

/-! ## What the entries are -/

/-- The changes of a rule to the map of entries. -/
def entryOps (st : ActState) (r : Rule) : List (String × (PermEntry → PermEntry)) :=
  r.databases.map fun db => (db, addTo st r)

/-- The changes of a rule to the collections of an entry. -/
def collOps (st : ActState) (pattern : String) (r : Rule) : List (String × (States → States)) :=
  (collsAt pattern r).map fun c => (c, setStates r.actions st)

theorem map_fst_entryOps (st : ActState) (r : Rule) :
    (entryOps st r).map Prod.fst = r.databases := by
  rw [entryOps, List.map_map]
  exact List.map_id _

theorem map_fst_collOps (st : ActState) (pattern : String) (r : Rule) :
    (collOps st pattern r).map Prod.fst = collsAt pattern r := by
  rw [collOps, List.map_map]
  exact List.map_id _

theorem foldl_add (st : ActState) (rules : List Rule) (map : List (String × PermEntry)) :
    rules.foldl (add st) map = upserts newEntry (rules.flatMap (entryOps st)) map := by
  rw [upserts, List.foldl_flatMap]
  simp only [entryOps, List.foldl_map]
  rfl

/-- A rule applied once for each time it names the pattern. -/
def touch (pattern : String) (st : ActState) (e : PermEntry) (r : Rule) : PermEntry :=
  (r.databases.filter (· == pattern)).foldl (fun e _ => addTo st r e) e

theorem foldl_entryOps (pattern : String) (st : ActState) (rules : List Rule) (e : PermEntry) :
    ((rules.flatMap (entryOps st)).filter fun op => op.1 == pattern).foldl (fun e op => op.2 e) e =
      rules.foldl (touch pattern st) e := by
  rw [List.filter_flatMap, List.foldl_flatMap]
  simp only [entryOps, List.filter_map, List.foldl_map]
  rfl

section Touch

variable {e : PermEntry} {l : List String}

theorem foldl_addTo_db : (l.foldl (fun e _ => addTo st r e) e).db action =
    if !l.isEmpty && r.collections.contains "*" && r.actions.contains action then some st
    else e.db action := by
  induction l generalizing e with
  | nil => rfl
  | cons x l ih =>
    rw [List.foldl_cons, ih, addTo]
    by_cases hstar : r.collections.contains "*" = true
    · rw [if_pos hstar, hstar]
      by_cases hact : action ∈ r.actions <;> simp [setStates, hact]
    · rw [if_neg hstar, eq_false_of_ne_true hstar]
      simp

theorem foldl_addTo_colls : (l.foldl (fun e _ => addTo st r e) e).colls =
    upserts (fun _ => noStates) (l.flatMap fun _ => (if r.collections.contains "*" then []
      else r.collections).map fun c => (c, setStates r.actions st)) e.colls := by
  induction l generalizing e with
  | nil => rfl
  | cons x l ih =>
    rw [List.foldl_cons, ih, List.flatMap_cons, upserts, upserts, List.foldl_append, addTo]
    by_cases hstar : r.collections.contains "*" = true
    · rw [if_pos hstar, if_pos hstar]
      rfl
    · rw [if_neg hstar, if_neg hstar, List.foldl_map]

theorem foldl_addTo_pattern : (l.foldl (fun e _ => addTo st r e) e).pattern = e.pattern ∧
    (l.foldl (fun e _ => addTo st r e) e).isGlob = e.isGlob := by
  induction l generalizing e with
  | nil => exact ⟨rfl, rfl⟩
  | cons x l ih =>
    rw [List.foldl_cons, ih.1, ih.2, addTo]
    split <;> exact ⟨rfl, rfl⟩

variable {rules : List Rule}

theorem atLevel_star : atLevel r "*" = r.collections.contains "*" := by
  rw [atLevel]
  split
  case isTrue h => exact h.symm
  case isFalse => rfl

theorem isEmpty_filter_beq (l : List String) (x : String) :
    (!(l.filter (· == x)).isEmpty) = l.contains x := by
  rw [Bool.eq_iff_iff, Bool.not_eq_true', List.isEmpty_eq_false_iff_exists_mem,
    List.contains_iff_mem]
  simp

theorem foldl_touch_db : (rules.foldl (touch pattern st) e).db action =
    if rules.any (covers pattern "*" action) then some st else e.db action := by
  induction rules generalizing e with
  | nil => rfl
  | cons r rules ih =>
    rw [List.foldl_cons, ih, List.any_cons, touch, foldl_addTo_db, isEmpty_filter_beq, covers,
      atLevel_star]
    cases rules.any (covers pattern "*" action) <;>
      cases r.databases.contains pattern && r.collections.contains "*" &&
        r.actions.contains action <;> rfl

theorem foldl_touch_colls : (rules.foldl (touch pattern st) e).colls =
    upserts (fun _ => noStates) (rules.flatMap (collOps st pattern)) e.colls := by
  induction rules generalizing e with
  | nil => rfl
  | cons r rules ih =>
    rw [List.foldl_cons, ih, List.flatMap_cons, upserts, upserts, List.foldl_append, touch,
      foldl_addTo_colls, collOps, collsAt, List.map_flatMap]
    rfl

theorem foldl_touch_pattern : (rules.foldl (touch pattern st) e).pattern = e.pattern ∧
    (rules.foldl (touch pattern st) e).isGlob = e.isGlob := by
  induction rules generalizing e with
  | nil => exact ⟨rfl, rfl⟩
  | cons r rules ih =>
    rw [List.foldl_cons, ih.1, ih.2]
    exact foldl_addTo_pattern

end Touch

theorem foldl_const_setStates (l : List String) (acts : List String) (st : ActState) (s : States)
    (action : String) : l.foldl (fun s _ => setStates acts st s) s action =
      if !l.isEmpty && acts.contains action then some st else s action := by
  induction l generalizing s with
  | nil => rfl
  | cons x l ih =>
    rw [List.foldl_cons, ih, setStates]
    by_cases hact : action ∈ acts <;> simp [hact]

theorem contains_collsAt (hc : coll ≠ "*") :
    (collsAt pattern r).contains coll = (r.databases.contains pattern && atLevel r coll) := by
  rw [collsAt, atLevel]
  by_cases hstar : r.collections.contains "*" = true
  · rw [if_pos hstar, if_pos hstar]
    simp [hc]
  · rw [if_neg hstar, if_neg hstar, Bool.eq_iff_iff, Bool.and_eq_true, List.contains_iff_mem,
      List.contains_iff_mem, List.contains_iff_mem, List.mem_flatMap]
    constructor
    · rintro ⟨x, hx, hmem⟩
      obtain ⟨hx, hxp⟩ := List.mem_filter.mp hx
      exact ⟨beq_iff_eq.mp hxp ▸ hx, hmem⟩
    · rintro ⟨hp, hmem⟩
      exact ⟨pattern, List.mem_filter.mpr ⟨hp, beq_self_eq_true _⟩, hmem⟩

theorem foldl_collOps (hc : coll ≠ "*") (rules : List Rule) (s : States) :
    ((rules.flatMap (collOps st pattern)).filter fun op => op.1 == coll).foldl
        (fun s op => op.2 s) s action =
      if rules.any (covers pattern coll action) then some st else s action := by
  induction rules generalizing s with
  | nil => rfl
  | cons r rules ih =>
    rw [List.flatMap_cons, List.filter_append, List.foldl_append, ih, List.any_cons, collOps,
      List.filter_map, List.foldl_map]
    have hone :=
      foldl_const_setStates ((collsAt pattern r).filter (· == coll)) r.actions st s action
    rw [isEmpty_filter_beq, contains_collsAt hc] at hone
    rw [covers]
    refine (if_congr Iff.rfl rfl hone).trans ?_
    cases rules.any (covers pattern coll action) <;>
      cases r.databases.contains pattern && atLevel r coll && r.actions.contains action <;> rfl

theorem star_notMem_collNames (rules : List Rule) (pattern : String) :
    "*" ∉ collNames rules pattern := by
  intro h
  obtain ⟨r, -, hr⟩ := List.mem_flatMap.mp (List.mem_eraseDups.mp h)
  obtain ⟨x, -, hx⟩ := List.mem_flatMap.mp hr
  split at hx
  case isTrue => cases hx
  case isFalse hstar => exact hstar (List.contains_iff_mem.mpr hx)

/-- What the rules make of the entry of a pattern. -/
theorem changed_entryOps (allow deny : List Rule) (pattern : String) :
    changed (allow.flatMap (entryOps .a) ++ deny.flatMap (entryOps .d)) pattern
      (newEntry pattern) = entryOf allow deny pattern := by
  rw [changed, List.filter_append, List.foldl_append, foldl_entryOps, foldl_entryOps]
  generalize he :
    deny.foldl (touch pattern .d) (allow.foldl (touch pattern .a) (newEntry pattern)) = e
  have hpattern : e.pattern = pattern ∧ e.isGlob = (newEntry pattern).isGlob := by
    rw [← he, foldl_touch_pattern.1, foldl_touch_pattern.2, foldl_touch_pattern.1,
      foldl_touch_pattern.2]
    exact ⟨rfl, rfl⟩
  have hdb : e.db = table allow deny pattern "*" := by
    funext action
    rw [← he, foldl_touch_db, foldl_touch_db]
    rfl
  have hcolls : e.colls = (collNames (allow ++ deny) pattern).map
      fun c => (c, table allow deny pattern c) := by
    have hrun : e.colls = upserts (fun _ => noStates)
        (allow.flatMap (collOps .a pattern) ++ deny.flatMap (collOps .d pattern)) [] := by
      rw [← he, foldl_touch_colls, foldl_touch_colls, upserts, upserts, upserts, List.foldl_append]
      rfl
    have hkeys : (allow.flatMap (collOps .a pattern) ++ deny.flatMap (collOps .d pattern)).map
        Prod.fst = (allow ++ deny).flatMap (collsAt pattern) := by
      rw [List.map_append, List.map_flatMap, List.map_flatMap, List.flatMap_append]
      simp only [map_fst_collOps]
    rw [hrun, upserts_nil, hkeys, collNames]
    refine List.map_congr_left fun c hc => ?_
    have hstar : c ≠ "*" := fun h => star_notMem_collNames _ _ (h ▸ hc)
    refine congrArg (Prod.mk c) (funext fun action => ?_)
    rw [changed, List.filter_append, List.foldl_append, foldl_collOps hstar, foldl_collOps hstar]
    rfl
  calc e = ⟨e.pattern, e.isGlob, e.db, e.colls⟩ := rfl
    _ = entryOf allow deny pattern := by rw [hpattern.1, hpattern.2, hdb, hcolls, entryOf]

/-- **The entries of the rules**: the patterns as they first come, with the table. -/
theorem entriesFromRules_eq (allow deny : List Rule) :
    entriesFromRules allow deny = (patterns (allow ++ deny)).map (entryOf allow deny) := by
  have hkeys : (allow.flatMap (entryOps .a) ++ deny.flatMap (entryOps .d)).map Prod.fst =
      (allow ++ deny).flatMap Rule.databases := by
    rw [List.map_append, List.map_flatMap, List.map_flatMap, List.flatMap_append]
    simp only [map_fst_entryOps]
  have hrun : deny.foldl (add .d) (allow.foldl (add .a) []) =
      upserts newEntry (allow.flatMap (entryOps .a) ++ deny.flatMap (entryOps .d)) [] := by
    rw [foldl_add, foldl_add, upserts, upserts, upserts, List.foldl_append]
  rw [entriesFromRules, hrun, upserts_nil, hkeys, List.map_map, patterns]
  exact List.map_congr_left fun p _ => changed_entryOps allow deny p

/-! ## What is written from them -/

/-- The rules written for a pattern. -/
def rulesAt (allow deny : List Rule) (st : ActState) (pattern : String) : List Rule :=
  ("*" :: collNames (allow ++ deny) pattern).flatMap fun c =>
    ruleOf st pattern c (table allow deny pattern c)

/-- The list of a state. -/
def listOf (allow deny : List Rule) (st : ActState) : List Rule :=
  (patterns (allow ++ deny)).flatMap (rulesAt allow deny st)

theorem foldl_push (cs : List (String × States)) (lists : List Rule × List Rule) :
    cs.foldl (push pattern) lists =
      (lists.1 ++ cs.flatMap fun c => ruleOf .a pattern c.1 c.2,
        lists.2 ++ cs.flatMap fun c => ruleOf .d pattern c.1 c.2) := by
  induction cs generalizing lists with
  | nil => simp
  | cons c cs ih =>
    rw [List.foldl_cons, ih, push, List.flatMap_cons, List.flatMap_cons, List.append_assoc,
      List.append_assoc]

theorem applyEntries_entryOf (ps : List String) (lists : List Rule × List Rule) :
    (ps.map (entryOf allow deny)).foldl
        (fun lists e => e.colls.foldl (push e.pattern) (push e.pattern lists ("*", e.db))) lists =
      (lists.1 ++ ps.flatMap (rulesAt allow deny .a),
        lists.2 ++ ps.flatMap (rulesAt allow deny .d)) := by
  induction ps generalizing lists with
  | nil => simp
  | cons p ps ih =>
    rw [List.map_cons, List.foldl_cons, ih, foldl_push, push]
    simp only [entryOf, List.flatMap_map, List.flatMap_cons, rulesAt, List.append_assoc]

theorem rewriteRules_eq (allow deny : List Rule) :
    rewriteRules (allow, deny) = (listOf allow deny .a, listOf allow deny .d) := by
  rw [rewriteRules, entriesFromRules_eq, applyEntries, applyEntries_entryOf]
  rfl

/-! ## What the rules match -/

/-- The actions of the rules are known ones. -/
def KnownActions (rules : List Rule) : Prop := ∀ r ∈ rules, ∀ x ∈ r.actions, x ∈ actions

theorem covers_iff : covers pattern coll action r = true ↔
    pattern ∈ r.databases ∧ atLevel r coll = true ∧ action ∈ r.actions := by
  rw [covers, Bool.and_eq_true, Bool.and_eq_true, List.contains_iff_mem, List.contains_iff_mem,
    and_assoc]

/-- Beside a `*` the other collections of a rule say nothing. -/
theorem ruleMatches_iff_covers (rules : List Rule) (action db coll : String) :
    ruleMatches rules action db coll = true ↔ ∃ p c, rules.any (covers p c action) = true ∧
      globMatch p db = true ∧ globMatch c coll = true := by
  simp only [ruleMatches, List.any_eq_true, Bool.and_eq_true, beq_iff_eq]
  constructor
  · rintro ⟨r, hr, ⟨⟨x, hx, rfl⟩, p, hp, hdb⟩, c, hc, hcoll⟩
    by_cases hstar : r.collections.contains "*" = true
    · refine ⟨p, "*", ⟨r, hr, covers_iff.mpr ⟨hp, ?_, hx⟩⟩, hdb, globMatch_star coll⟩
      rw [atLevel_star, hstar]
    · refine ⟨p, c, ⟨r, hr, covers_iff.mpr ⟨hp, ?_, hx⟩⟩, hdb, hcoll⟩
      rw [atLevel, if_neg hstar]
      exact List.contains_iff_mem.mpr hc
  · rintro ⟨p, c, ⟨r, hr, hcovers⟩, hdb, hcoll⟩
    obtain ⟨hp, hlevel, hx⟩ := covers_iff.mp hcovers
    refine ⟨r, hr, ⟨⟨action, hx, rfl⟩, p, hp, hdb⟩, c, ?_, hcoll⟩
    unfold atLevel at hlevel
    split at hlevel
    case isTrue hstar => exact beq_iff_eq.mp hlevel ▸ List.contains_iff_mem.mp hstar
    case isFalse => exact List.contains_iff_mem.mp hlevel

theorem table_eq_d : table allow deny pattern coll action = some .d ↔
    deny.any (covers pattern coll action) = true := by
  unfold table
  split
  case isTrue h => exact iff_of_true rfl h
  case isFalse h =>
    refine iff_of_false (fun he => ?_) h
    split at he <;> cases he

theorem table_eq_a : table allow deny pattern coll action = some .a ↔
    ¬deny.any (covers pattern coll action) = true ∧
      allow.any (covers pattern coll action) = true := by
  unfold table
  split
  case isTrue h => exact iff_of_false (fun he => by cases he) fun he => he.1 h
  case isFalse h =>
    split
    case isTrue ha => exact iff_of_true rfl ⟨h, ha⟩
    case isFalse ha => exact iff_of_false (fun he => by cases he) fun he => ha he.2

/-- A state comes from a rule. -/
theorem exists_covers (h : table allow deny pattern coll action = some st) :
    ∃ r ∈ allow ++ deny, covers pattern coll action r = true := by
  cases st with
  | a =>
    obtain ⟨r, hr, hc⟩ := List.any_eq_true.mp (table_eq_a.mp h).2
    exact ⟨r, List.mem_append_left _ hr, hc⟩
  | d =>
    obtain ⟨r, hr, hc⟩ := List.any_eq_true.mp (table_eq_d.mp h)
    exact ⟨r, List.mem_append_right _ hr, hc⟩

theorem mem_patterns (h : table allow deny pattern coll action = some st) :
    pattern ∈ patterns (allow ++ deny) := by
  obtain ⟨r, hr, hc⟩ := exists_covers h
  exact List.mem_eraseDups.mpr (List.mem_flatMap.mpr ⟨r, hr, (covers_iff.mp hc).1⟩)

theorem mem_levels (h : table allow deny pattern coll action = some st) :
    coll ∈ "*" :: collNames (allow ++ deny) pattern := by
  obtain ⟨r, hr, hc⟩ := exists_covers h
  obtain ⟨hp, hlevel, -⟩ := covers_iff.mp hc
  by_cases hstar : coll = "*"
  · exact hstar ▸ List.mem_cons_self
  · refine List.mem_cons_of_mem _ (List.mem_eraseDups.mpr (List.mem_flatMap.mpr ⟨r, hr, ?_⟩))
    rw [← List.contains_iff_mem, contains_collsAt hstar, hlevel, List.contains_iff_mem.mpr hp]
    rfl

theorem mem_ruleOf {s : States} :
    r ∈ ruleOf st pattern coll s ↔ actionsWith st s ≠ [] ∧
      r = ⟨actionsWith st s, [pattern], [coll]⟩ := by
  unfold ruleOf
  split
  case isTrue h => exact iff_of_false List.not_mem_nil fun hr => hr.1 (List.isEmpty_iff.mp h)
  case isFalse h => simp [List.isEmpty_iff.not.mp h]

theorem mem_listOf : r ∈ listOf allow deny st ↔ ∃ p ∈ patterns (allow ++ deny),
    ∃ c ∈ "*" :: collNames (allow ++ deny) p, actionsWith st (table allow deny p c) ≠ [] ∧
      r = ⟨actionsWith st (table allow deny p c), [p], [c]⟩ := by
  simp only [listOf, rulesAt, List.mem_flatMap, mem_ruleOf]

theorem mem_actionsWith {s : States} : action ∈ actionsWith st s ↔
    action ∈ actions ∧ s action = some st := by
  rw [actionsWith, List.mem_filter, beq_iff_eq]

/-- The list of a state covers what the table has in that state. -/
theorem any_covers_listOf (hknown : KnownActions (allow ++ deny)) :
    (listOf allow deny st).any (covers pattern coll action) = true ↔
      table allow deny pattern coll action = some st := by
  rw [List.any_eq_true]
  constructor
  · rintro ⟨r, hr, hcovers⟩
    obtain ⟨p, -, c, -, -, rfl⟩ := mem_listOf.mp hr
    obtain ⟨hp, hlevel, hact⟩ := covers_iff.mp hcovers
    obtain rfl := List.mem_singleton.mp hp
    have hc : coll = c := by
      unfold atLevel at hlevel
      split at hlevel
      case isTrue hstar =>
        rw [← List.mem_singleton.mp (List.contains_iff_mem.mp hstar)]
        exact beq_iff_eq.mp hlevel
      case isFalse => exact List.mem_singleton.mp (List.contains_iff_mem.mp hlevel)
    subst hc
    exact (mem_actionsWith.mp hact).2
  · intro h
    obtain ⟨r, hr, hcovers⟩ := exists_covers h
    have hact : action ∈ actionsWith st (table allow deny pattern coll) :=
      mem_actionsWith.mpr ⟨hknown r hr action (covers_iff.mp hcovers).2.2, h⟩
    refine ⟨_, mem_listOf.mpr ⟨pattern, mem_patterns h, coll, mem_levels h,
      List.ne_nil_of_mem hact, rfl⟩, covers_iff.mpr ⟨List.mem_singleton_self _, ?_, hact⟩⟩
    unfold atLevel
    split
    case isTrue hstar =>
      exact beq_iff_eq.mpr (List.mem_singleton.mp (List.contains_iff_mem.mp hstar)).symm
    case isFalse => exact List.contains_iff_mem.mpr (List.mem_singleton_self _)

/-- **Writing the rules anew keeps the verdict** of the layer. -/
theorem layerVerdict_listOf (hknown : KnownActions (allow ++ deny)) (action db coll : String) :
    layerVerdict (listOf allow deny .a) (listOf allow deny .d) action db coll =
      layerVerdict allow deny action db coll := by
  have hdeny :
      ruleMatches (listOf allow deny .d) action db coll = ruleMatches deny action db coll := by
    rw [Bool.eq_iff_iff, ruleMatches_iff_covers, ruleMatches_iff_covers]
    simp only [any_covers_listOf hknown, table_eq_d]
  unfold layerVerdict
  rw [hdeny]
  split
  case isTrue => rfl
  case isFalse hnot =>
    have hallow : ruleMatches (listOf allow deny .a) action db coll =
        ruleMatches allow action db coll := by
      rw [Bool.eq_iff_iff, ruleMatches_iff_covers, ruleMatches_iff_covers]
      simp only [any_covers_listOf hknown, table_eq_a]
      refine exists₂_congr fun p c => ⟨fun h => ⟨h.1.2, h.2⟩, fun h => ⟨⟨fun hd => ?_, h.1⟩, h.2⟩⟩
      exact hnot ((ruleMatches_iff_covers _ _ _ _).mpr ⟨p, c, hd, h.2⟩)
    rw [hallow]

/-! ## Writing them a second time -/

theorem nodup_patterns (rules : List Rule) : (patterns rules).Nodup := nodup_eraseDups _

theorem nodup_collNames (rules : List Rule) (pattern : String) : (collNames rules pattern).Nodup :=
  nodup_eraseDups _

theorem table_listOf (hknown : KnownActions (allow ++ deny)) :
    table (listOf allow deny .a) (listOf allow deny .d) = table allow deny := by
  funext pattern coll action
  have ha := @any_covers_listOf _ _ pattern coll action .a hknown
  have hd := @any_covers_listOf _ _ pattern coll action .d hknown
  rw [table, if_congr hd rfl (if_congr ha rfl rfl)]
  cases h : table allow deny pattern coll action with
  | none => rfl
  | some st => cases st <;> rfl

theorem ruleOf_databases {s : States} : ∀ y ∈ (ruleOf st pattern coll s).flatMap Rule.databases,
    y = pattern := by
  intro y hy
  obtain ⟨r, hr, hy⟩ := List.mem_flatMap.mp hy
  rw [(mem_ruleOf.mp hr).2] at hy
  exact List.mem_singleton.mp hy

theorem rulesAt_databases : ∀ y ∈ (rulesAt allow deny st pattern).flatMap Rule.databases,
    y = pattern := by
  intro y hy
  rw [rulesAt, List.flatMap_assoc] at hy
  obtain ⟨c, -, hy⟩ := List.mem_flatMap.mp hy
  exact ruleOf_databases y hy

/-- A rule that is written names a database. -/
theorem rulesAt_eq_nil (h : (rulesAt allow deny st pattern).flatMap Rule.databases = []) :
    rulesAt allow deny st pattern = [] := by
  refine List.eq_nil_iff_forall_not_mem.mpr fun r hr => ?_
  obtain ⟨c, -, hc⟩ := List.mem_flatMap.mp hr
  have hnil := List.flatMap_eq_nil_iff.mp h r hr
  rw [(mem_ruleOf.mp hc).2] at hnil
  cases hnil

theorem collsAt_ruleOf_ne {p : String} {s : States} (hp : p ≠ pattern) :
    (ruleOf st p coll s).flatMap (collsAt pattern) = [] := by
  refine List.flatMap_eq_nil_iff.mpr fun r hr => ?_
  rw [(mem_ruleOf.mp hr).2]
  simp [collsAt, hp]

theorem collsAt_ruleOf_star {s : States} :
    (ruleOf st pattern "*" s).flatMap (collsAt pattern) = [] := by
  refine List.flatMap_eq_nil_iff.mpr fun r hr => ?_
  rw [(mem_ruleOf.mp hr).2]
  simp [collsAt]

theorem collsAt_ruleOf {s : States} : ∀ y ∈ (ruleOf st pattern coll s).flatMap (collsAt pattern),
    y = coll := by
  intro y hy
  obtain ⟨r, hr, hy⟩ := List.mem_flatMap.mp hy
  rw [(mem_ruleOf.mp hr).2] at hy
  obtain ⟨x, -, hy⟩ := List.mem_flatMap.mp hy
  split at hy
  case isTrue => cases hy
  case isFalse => exact List.mem_singleton.mp hy

theorem ruleOf_eq_nil {s : States} (hc : coll ≠ "*")
    (h : (ruleOf st pattern coll s).flatMap (collsAt pattern) = []) :
    ruleOf st pattern coll s = [] := by
  refine List.eq_nil_iff_forall_not_mem.mpr fun r hr => ?_
  have hnil := List.flatMap_eq_nil_iff.mp h r hr
  rw [(mem_ruleOf.mp hr).2] at hnil
  simp [collsAt, Ne.symm hc] at hnil

/-- The collections that the new list of a state names at a pattern. -/
theorem listOf_collsAt (hp : pattern ∈ patterns (allow ++ deny)) :
    (listOf allow deny st).flatMap (collsAt pattern) =
      (collNames (allow ++ deny) pattern).flatMap fun c =>
        (ruleOf st pattern c (table allow deny pattern c)).flatMap (collsAt pattern) := by
  rw [listOf, List.flatMap_assoc, flatMap_of_forall_ne (nodup_patterns _) hp, rulesAt,
    List.flatMap_assoc, List.flatMap_cons, collsAt_ruleOf_star, List.nil_append]
  intro p _ hne
  rw [rulesAt, List.flatMap_assoc]
  exact List.flatMap_eq_nil_iff.mpr fun c _ => collsAt_ruleOf_ne hne

theorem collNames_listOf (hp : pattern ∈ patterns (allow ++ deny)) :
    collNames (listOf allow deny .a ++ listOf allow deny .d) pattern =
      ((collNames (allow ++ deny) pattern).flatMap (fun c =>
          (ruleOf .a pattern c (table allow deny pattern c)).flatMap (collsAt pattern)) ++
        (collNames (allow ++ deny) pattern).flatMap fun c =>
          (ruleOf .d pattern c (table allow deny pattern c)).flatMap
            (collsAt pattern)).eraseDups := by
  rw [collNames, List.flatMap_append, listOf_collsAt hp, listOf_collsAt hp]

theorem ne_star_of_mem {c : String} (h : c ∈ collNames (allow ++ deny) pattern) : c ≠ "*" :=
  fun he => star_notMem_collNames _ _ (he ▸ h)

theorem rulesAt_listOf_a (hknown : KnownActions (allow ++ deny))
    (hp : pattern ∈ patterns (allow ++ deny)) :
    rulesAt (listOf allow deny .a) (listOf allow deny .d) .a pattern =
      rulesAt allow deny .a pattern := by
  unfold rulesAt
  rw [table_listOf hknown, List.flatMap_cons, List.flatMap_cons, collNames_listOf hp]
  exact congrArg _ (flatMap_rounds (nodup_collNames _ _) (fun _ _ => collsAt_ruleOf)
    (fun _ _ => collsAt_ruleOf) fun c hc h => ruleOf_eq_nil (ne_star_of_mem hc) h)

theorem rulesAt_listOf_d (hknown : KnownActions (allow ++ deny))
    (hp : pattern ∈ patterns (allow ++ deny)) :
    (rulesAt (listOf allow deny .a) (listOf allow deny .d) .d pattern).Perm
      (rulesAt allow deny .d pattern) := by
  unfold rulesAt
  rw [table_listOf hknown, List.flatMap_cons, List.flatMap_cons, collNames_listOf hp]
  refine List.Perm.append_left _ (perm_flatMap_rounds (nodup_collNames _ _)
    (fun _ _ => collsAt_ruleOf) (fun _ _ => collsAt_ruleOf) fun c hc _ h => ?_)
  exact ruleOf_eq_nil (ne_star_of_mem hc) h

theorem patterns_listOf : patterns (listOf allow deny .a ++ listOf allow deny .d) =
    ((patterns (allow ++ deny)).flatMap
        (fun p => (rulesAt allow deny .a p).flatMap Rule.databases) ++
      (patterns (allow ++ deny)).flatMap fun p =>
        (rulesAt allow deny .d p).flatMap Rule.databases).eraseDups := by
  unfold listOf
  rw [patterns, List.flatMap_append, List.flatMap_assoc, List.flatMap_assoc]

theorem listOf_listOf_a (hknown : KnownActions (allow ++ deny)) :
    listOf (listOf allow deny .a) (listOf allow deny .d) .a = listOf allow deny .a := by
  have hrules : ∀ p ∈ patterns (allow ++ deny),
      rulesAt (listOf allow deny .a) (listOf allow deny .d) .a p = rulesAt allow deny .a p :=
    fun p hp => rulesAt_listOf_a hknown hp
  calc listOf (listOf allow deny .a) (listOf allow deny .d) .a
      = (patterns (allow ++ deny)).flatMap
          (rulesAt (listOf allow deny .a) (listOf allow deny .d) .a) := by
        rw [listOf, patterns_listOf]
        refine flatMap_rounds (nodup_patterns _) (fun _ _ => rulesAt_databases)
          (fun _ _ => rulesAt_databases) fun p hp h => ?_
        rw [hrules p hp, rulesAt_eq_nil h]
    _ = listOf allow deny .a := List.flatMap_congr hrules

theorem listOf_listOf_d (hknown : KnownActions (allow ++ deny)) :
    (listOf (listOf allow deny .a) (listOf allow deny .d) .d).Perm (listOf allow deny .d) := by
  have hrules : ∀ p ∈ patterns (allow ++ deny),
      (rulesAt (listOf allow deny .a) (listOf allow deny .d) .d p).Perm (rulesAt allow deny .d p) :=
    fun p hp => rulesAt_listOf_d hknown hp
  refine List.Perm.trans ?_ (List.Perm.flatMap_left _ hrules)
  rw [listOf, patterns_listOf]
  refine perm_flatMap_rounds (nodup_patterns _) (fun _ _ => rulesAt_databases)
    (fun _ _ => rulesAt_databases) fun p hp _ h => ?_
  have hperm := hrules p hp
  rw [rulesAt_eq_nil h] at hperm
  exact hperm.eq_nil

theorem forM_ok {ε α : Type} {f : α → Except ε Unit} {l : List α} (h : l.forM f = .ok ()) :
    ∀ x ∈ l, f x = .ok () := by
  induction l with
  | nil => exact fun x hx => by cases hx
  | cons y l ih =>
    obtain ⟨u, hy, h⟩ := bind_ok h
    exact List.forall_mem_cons.mpr ⟨hy, ih h⟩

theorem knownActions_of_checkRules {who : String}
    (h : PermissionsFile.checkRules who allow deny = .ok ()) : KnownActions (allow ++ deny) := by
  have hrule : ∀ list r, PermissionsFile.checkRule who list r = .ok () →
      ∀ x ∈ r.actions, x ∈ actions := by
    intro list r hr x hx
    unfold PermissionsFile.checkRule at hr
    split at hr
    case h_1 => cases hr
    case h_2 hfind => simpa using List.find?_eq_none.mp hfind x hx
  obtain ⟨u, hallow, hdeny⟩ := bind_ok h
  intro r hr
  rcases List.mem_append.mp hr with hr | hr
  · exact hrule _ r (forM_ok hallow r hr)
  · exact hrule _ r (forM_ok hdeny r hr)

/-- **Editing keeps the meaning of the rules**: the verdict is the same, and a second
edit changes nothing but the order of the deny list. -/
theorem rewriteRules_keeps {who : String} {allow deny : List Rule}
    (h : PermissionsFile.checkRules who allow deny = .ok ()) :
    (∀ action db coll, layerVerdict (rewriteRules (allow, deny)).1 (rewriteRules (allow, deny)).2
        action db coll = layerVerdict allow deny action db coll) ∧
      (rewriteRules (rewriteRules (allow, deny))).1 = (rewriteRules (allow, deny)).1 ∧
      (rewriteRules (rewriteRules (allow, deny))).2.Perm (rewriteRules (allow, deny)).2 := by
  have hknown := knownActions_of_checkRules h
  rw [rewriteRules_eq, rewriteRules_eq]
  exact ⟨layerVerdict_listOf hknown, listOf_listOf_a hknown, listOf_listOf_d hknown⟩

/-- Two databases with a deny, of which the first is left without an allow. -/
def shadowedAllow : List Rule := [⟨["GET"], ["db1"], ["*"]⟩, ⟨["POST"], ["db2"], ["*"]⟩]

def twoDenies : List Rule := [⟨["GET"], ["db1"], ["*"]⟩, ⟨["GET"], ["db2"], ["*"]⟩]

theorem rewriteRules_keeps_twoDenies :
    PermissionsFile.checkRules "app" shadowedAllow twoDenies = .ok () ∧
      (rewriteRules (rewriteRules (shadowedAllow, twoDenies))).2.Perm
        (rewriteRules (shadowedAllow, twoDenies)).2 :=
  have hcheck : PermissionsFile.checkRules "app" shadowedAllow twoDenies = .ok () := rfl
  ⟨hcheck, (rewriteRules_keeps hcheck).2.2⟩

/-- The second edit turns their order. -/
theorem rewriteRules_twice :
    PermissionsFile.checkRules "app" shadowedAllow twoDenies = .ok () ∧
      (rewriteRules (shadowedAllow, twoDenies)).2 = twoDenies ∧
      (rewriteRules (rewriteRules (shadowedAllow, twoDenies))).2 = twoDenies.reverse ∧
      rewriteRules (rewriteRules (shadowedAllow, twoDenies)) ≠
        rewriteRules (shadowedAllow, twoDenies) := by
  have honce :
      rewriteRules (shadowedAllow, twoDenies) = ([⟨["POST"], ["db2"], ["*"]⟩], twoDenies) := by
    decide +kernel
  have htwice : rewriteRules ([⟨["POST"], ["db2"], ["*"]⟩], twoDenies) =
      ([⟨["POST"], ["db2"], ["*"]⟩], twoDenies.reverse) := by decide +kernel
  rw [honce, htwice]
  exact ⟨rfl, rfl, rfl, by decide⟩

end XavierDB.Perms.Widget

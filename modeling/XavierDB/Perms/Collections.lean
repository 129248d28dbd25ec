import XavierDB.Perms.Listing

/-!
# Which collections are listed (`src/perms.rs`)

Where the collection `*` is granted every collection is listed, and elsewhere
those that may be read. The two say the same unless a pattern parts a collection
from the text `*`: it matches the one and not the other.
-/

namespace XavierDB.Perms

/-! ## The patterns asked -/

/-- The collection patterns of the rules about `GET` on the database. -/
def patterns (rules : List Rule) (db : String) : List String :=
  (rules.filter (Rule.concerns db)).flatMap Rule.collections

/-- The patterns of the four layers, in the order in which they are asked. -/
structure Layers where
  nameDeny : List String
  nameAllow : List String
  appDeny : List String
  appAllow : List String

def layers (p : PermissionsFile) (name app db : String) : Layers :=
  match p.apps.get? app with
  | none => ⟨[], [], [], []⟩
  | some entry =>
    let n := (entry.names.get? name).getD .default
    ⟨patterns n.deny db, patterns n.allow db, patterns entry.deny db, patterns entry.allow db⟩

/-- A question mark or a star, with nothing but stars behind it. -/
def Whole (pattern : String) : Prop :=
  ∃ x rest, pattern.toList = x :: rest ∧ (x = '?' ∨ x = '*') ∧ ∀ y ∈ rest, y = '*'

/-- The pattern matches the collection and not the text `*`. -/
def SinglesOut (pattern coll : String) : Prop :=
  ¬Whole pattern ∧ globMatch pattern coll = true

namespace Layers

variable (l : Layers)

/-- The name's rules grant the text `*`. -/
def NameGrants : Prop := (∀ q ∈ l.nameDeny, ¬Whole q) ∧ ∃ q ∈ l.nameAllow, Whole q

/-- The name's rules are silent on the text `*` and the app's grant it. -/
def AppGrants : Prop :=
  (∀ q ∈ l.nameDeny, ¬Whole q) ∧ (∀ q ∈ l.nameAllow, ¬Whole q) ∧
    (∀ q ∈ l.appDeny, ¬Whole q) ∧ ∃ q ∈ l.appAllow, Whole q

/-- The allows leave the collection out: those that match the text `*`
misread it, and none singles it out. -/
def LeavesOut (allow : List String) (coll : String) : Prop :=
  (∀ q ∈ allow, Whole q → Misread q coll) ∧ ∀ q ∈ allow, ¬SinglesOut q coll

/-- How a collection is lost that the name's rules seem to grant. -/
def NameLoses (coll : String) : Prop :=
  (∃ q ∈ l.nameDeny, SinglesOut q coll) ∨
    LeavesOut l.nameAllow coll ∧
      ((∃ q ∈ l.appDeny, globMatch q coll = true) ∨ ∀ q ∈ l.appAllow, globMatch q coll = false)

/-- How a collection is lost that the app's rules seem to grant. -/
def AppLoses (coll : String) : Prop :=
  (∃ q ∈ l.nameDeny, SinglesOut q coll) ∨
    (∀ q ∈ l.nameAllow, ¬SinglesOut q coll) ∧
      ((∃ q ∈ l.appDeny, SinglesOut q coll) ∨ LeavesOut l.appAllow coll)

end Layers

/-! ## A verdict, from the patterns -/

/-- Some pattern matches. -/
def Hit (qs : List String) (coll : String) : Prop := ∃ q ∈ qs, globMatch q coll = true

@[simp] theorem not_hit_nil (coll : String) : ¬Hit [] coll := by simp [Hit]

theorem ruleMatches_iff_hit (rules : List Rule) (db coll : String) :
    ruleMatches rules "GET" db coll = true ↔ Hit (patterns rules db) coll := by
  rw [ruleMatches_get_iff, Hit, patterns]
  simp only [List.mem_flatMap]
  constructor
  · rintro ⟨r, hr, q, hq, h⟩
    exact ⟨q, ⟨r, hr, hq⟩, h⟩
  · rintro ⟨q, ⟨r, hr, hq⟩, h⟩
    exact ⟨r, hr, q, hq, h⟩

theorem AppEntry.allows_iff (entry : AppEntry) (db coll : String) :
    entry.allows "GET" db coll = true ↔
      ¬Hit (patterns entry.deny db) coll ∧ Hit (patterns entry.allow db) coll := by
  rw [← ruleMatches_iff_hit, ← ruleMatches_iff_hit, AppEntry.allows]
  cases ruleMatches entry.deny "GET" db coll <;> simp

/-- The layers, asked in their order. -/
theorem allows_iff_hit (p : PermissionsFile) (name app db coll : String) :
    allows p name app "GET" db coll = true ↔
      ¬Hit (layers p name app db).nameDeny coll ∧
      (Hit (layers p name app db).nameAllow coll ∨
        ¬Hit (layers p name app db).appDeny coll ∧ Hit (layers p name app db).appAllow coll) := by
  unfold allows layers
  cases p.apps.get? app with
  | none => simp
  | some entry =>
    dsimp only
    cases entry.names.get? name with
    | none =>
      rw [AppEntry.allows_iff]
      simp [patterns, NameEntry.default]
    | some n =>
      dsimp only [Option.getD_some]
      rw [← AppEntry.allows_iff, ← ruleMatches_iff_hit, ← ruleMatches_iff_hit]
      cases ruleMatches n.deny "GET" db coll <;>
        cases ruleMatches n.allow "GET" db coll <;> simp

/-! ## Where the text `*` is granted -/

theorem whole_iff (pattern : String) : Whole pattern ↔ globMatch pattern "*" = true :=
  (globMatch_star_text pattern).symm

theorem hit_star_iff (qs : List String) : Hit qs "*" ↔ ∃ q ∈ qs, Whole q := by
  simp only [Hit, whole_iff]

theorem not_hit_star_iff (qs : List String) : ¬Hit qs "*" ↔ ∀ q ∈ qs, ¬Whole q := by
  rw [hit_star_iff]
  simp only [not_exists, not_and]

/-- Among patterns that do not match the text `*`, those that match a collection single it out. -/
theorem exists_singlesOut_iff {qs : List String} (h : ∀ q ∈ qs, ¬Whole q) (coll : String) :
    (∃ q ∈ qs, SinglesOut q coll) ↔ Hit qs coll :=
  exists_congr fun q => and_congr_right fun hq => and_iff_right (h q hq)

theorem leavesOut_iff (allow : List String) (coll : String) :
    Layers.LeavesOut allow coll ↔ ¬Hit allow coll := by
  simp only [Layers.LeavesOut, Hit, not_exists, not_and, ← forall₂_and]
  refine forall₂_congr fun q _ => ?_
  rw [Misread, SinglesOut, ← whole_iff, ← Bool.not_eq_true]
  by_cases hq : Whole q <;> simp [hq]

variable {p : PermissionsFile} {name app db : String} {allColls : List String}

theorem allows_star_iff (p : PermissionsFile) (name app db : String) :
    allows p name app "GET" db "*" = true ↔
      (layers p name app db).NameGrants ∨ (layers p name app db).AppGrants := by
  rw [allows_iff_hit, Layers.NameGrants, Layers.AppGrants]
  simp only [← not_hit_star_iff, ← hit_star_iff]
  by_cases hname : Hit (layers p name app db).nameAllow "*" <;> simp [hname]

theorem allows_iff_of_nameGrants (h : (layers p name app db).NameGrants) (coll : String) :
    allows p name app "GET" db coll = true ↔ ¬(layers p name app db).NameLoses coll := by
  rw [allows_iff_hit, Layers.NameLoses, exists_singlesOut_iff h.1, leavesOut_iff]
  have hmiss : (∀ q ∈ (layers p name app db).appAllow, globMatch q coll = false) ↔
      ¬Hit (layers p name app db).appAllow coll := by
    simp only [Hit, not_exists, not_and, Bool.not_eq_true]
  rw [hmiss, ← Hit]
  tauto

theorem allows_iff_of_appGrants (h : (layers p name app db).AppGrants) (coll : String) :
    allows p name app "GET" db coll = true ↔ ¬(layers p name app db).AppLoses coll := by
  obtain ⟨hnd, hna, had, -⟩ := h
  rw [allows_iff_hit, Layers.AppLoses, exists_singlesOut_iff hnd, exists_singlesOut_iff had,
    leavesOut_iff]
  have hmiss : (∀ q ∈ (layers p name app db).nameAllow, ¬SinglesOut q coll) ↔
      ¬Hit (layers p name app db).nameAllow coll := by
    rw [← exists_singlesOut_iff hna]
    simp only [not_exists, not_and]
  rw [hmiss]
  tauto

/-! ## The listing -/

theorem sublist_listableCollections :
    (allColls.filter fun c => allows p name app "GET" db c).Sublist
      (listableCollections p name app db allColls) := by
  simp only [listableCollections]
  split
  · exact List.filter_sublist
  · exact List.Sublist.refl _

theorem listableCollections_eq_iff :
    listableCollections p name app db allColls =
        allColls.filter (fun c => allows p name app "GET" db c) ↔
      ∀ c ∈ allColls,
        ((layers p name app db).NameGrants → ¬(layers p name app db).NameLoses c) ∧
        ((layers p name app db).AppGrants → ¬(layers p name app db).AppLoses c) := by
  by_cases hstar : allows p name app "GET" db "*" = true
  · rw [listableCollections, if_pos hstar, eq_comm, List.filter_eq_self]
    refine forall₂_congr fun c _ => ⟨fun h => ⟨fun hg => ?_, fun hg => ?_⟩, fun h => ?_⟩
    · exact (allows_iff_of_nameGrants hg c).mp h
    · exact (allows_iff_of_appGrants hg c).mp h
    · rcases (allows_star_iff p name app db).mp hstar with hg | hg
      · exact (allows_iff_of_nameGrants hg c).mpr (h.1 hg)
      · exact (allows_iff_of_appGrants hg c).mpr (h.2 hg)
  · rw [listableCollections, if_neg hstar]
    rw [allows_star_iff, not_or] at hstar
    exact iff_of_true rfl fun c _ => ⟨fun h => absurd h hstar.1, fun h => absurd h hstar.2⟩

/-- **The listing hides nothing the caller may read**, and it is what the caller may
read unless the rules that grant the text `*` lose a listed collection: a deny asked
before the grant singles it out, or the allows misread it. -/
theorem listableCollections_eq_filter_iff :
    (allColls.filter fun c => allows p name app "GET" db c).Sublist
        (listableCollections p name app db allColls) ∧
      (listableCollections p name app db allColls =
          allColls.filter (fun c => allows p name app "GET" db c) ↔
        ∀ c ∈ allColls,
          ((layers p name app db).NameGrants → ¬(layers p name app db).NameLoses c) ∧
          ((layers p name app db).AppGrants → ¬(layers p name app db).AppLoses c)) :=
  ⟨sublist_listableCollections, listableCollections_eq_iff⟩

/-- A broad allow with one collection denied. -/
def carvedOut : PermissionsFile :=
  ⟨SortedMap.empty.insert "app" ⟨none, [⟨["GET"], ["db1"], ["*"]⟩],
    [⟨["GET"], ["db1"], ["coll_a"]⟩], .empty⟩⟩

theorem listableCollections_carvedOut :
    listableCollections carvedOut "user" "app" "db1" ["coll_a", "coll_b"] = ["coll_a", "coll_b"] ∧
    ["coll_a", "coll_b"].filter (fun c => allows carvedOut "user" "app" "GET" "db1" c) =
      ["coll_b"] := by decide +kernel

/-! ## The names of collections -/

/-- A pattern other than `?` that matches the text `*` matches every name without a star. -/
theorem match_of_whole {q coll : String} (hq : Whole q) (hne : q ≠ "?") (hname : coll ≠ "")
    (hstar : '*' ∉ coll.toList) : globMatch q coll = true := by
  by_contra hno
  exact hne ((misread_iff hstar hname).mp ⟨(whole_iff q).mp hq, Bool.not_eq_true _ ▸ hno⟩).1

theorem hit_of_whole {qs : List String} (hqs : ∃ q ∈ qs, Whole q) (hne : "?" ∉ qs) {coll : String}
    (hname : coll ≠ "") (hstar : '*' ∉ coll.toList) : Hit qs coll := by
  obtain ⟨q, hq, hwhole⟩ := hqs
  exact ⟨q, hq, match_of_whole hwhole (fun h => hne (h ▸ hq)) hname hstar⟩

theorem nameLoses_iff {c : String} (hne : c ≠ "") (hc : '*' ∉ c.toList)
    (hg : (layers p name app db).NameGrants) (hname : "?" ∉ (layers p name app db).nameAllow) :
    (layers p name app db).NameLoses c ↔ ∃ q ∈ (layers p name app db).nameDeny, SinglesOut q c := by
  rw [Layers.NameLoses, leavesOut_iff]
  exact or_iff_left fun h => h.1 (hit_of_whole hg.2 hname hne hc)

theorem appLoses_iff {c : String} (hne : c ≠ "") (hc : '*' ∉ c.toList)
    (hg : (layers p name app db).AppGrants) (happ : "?" ∉ (layers p name app db).appAllow) :
    (layers p name app db).AppLoses c ↔
      (∃ q ∈ (layers p name app db).nameDeny, SinglesOut q c) ∨
      (∀ q ∈ (layers p name app db).nameAllow, ¬SinglesOut q c) ∧
        ∃ q ∈ (layers p name app db).appDeny, SinglesOut q c := by
  rw [Layers.AppLoses, leavesOut_iff]
  have hhit := hit_of_whole hg.2.2.2 happ hne hc
  exact or_congr_right (and_congr_right fun _ => or_iff_left (not_not_intro hhit))

/-- Among names without a star and allows other than `?`, a listed collection is only lost
to a deny that singles it out: one of the name, or one of the app where no allow of the
name singles it out as well. -/
theorem listableCollections_eq_names (hnames : ∀ c ∈ allColls, c ≠ "" ∧ '*' ∉ c.toList)
    (hname : "?" ∉ (layers p name app db).nameAllow)
    (happ : "?" ∉ (layers p name app db).appAllow) :
    listableCollections p name app db allColls =
        allColls.filter (fun c => allows p name app "GET" db c) ↔
      ∀ c ∈ allColls,
        ((layers p name app db).NameGrants ∨ (layers p name app db).AppGrants →
          ∀ q ∈ (layers p name app db).nameDeny, ¬SinglesOut q c) ∧
        ((layers p name app db).AppGrants →
          (∃ q ∈ (layers p name app db).nameAllow, SinglesOut q c) ∨
            ∀ q ∈ (layers p name app db).appDeny, ¬SinglesOut q c) := by
  rw [listableCollections_eq_iff]
  refine forall₂_congr fun c hc => ?_
  obtain ⟨hne, hstar⟩ := hnames c hc
  rw [forall_congr' fun hg => not_congr (nameLoses_iff hne hstar hg hname),
    forall_congr' fun hg => not_congr (appLoses_iff hne hstar hg happ)]
  simp only [or_imp, not_or, not_and, not_exists, forall_and]
  grind

end XavierDB.Perms

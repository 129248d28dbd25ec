import XavierDB.Perms.Allows

/-!
# Which databases are listed (`src/perms.rs`)

A database is listed by the layers of `allows`, with any grant on it for a grant
and a deny on the collection `*` for a deny on all of it. But `*` is also a name
of one character, so that `?` denies it.
-/

namespace XavierDB.Perms

/-! ## The listing -/

/-- The rule is about `GET` on the database. -/
def Rule.concerns (db : String) (r : Rule) : Bool :=
  r.actions.any (· == "GET") && r.databases.any (globMatch · db)

/-- `has_get`. -/
def hasGet (rules : List Rule) (db : String) : Bool := rules.any (Rule.concerns db)

/-- `denies_whole_db`. -/
def deniesWholeDb (rules : List Rule) (db : String) : Bool :=
  rules.any fun r => r.concerns db && r.collections.any (globMatch · "*")

/-- `db_accessible`. -/
def dbAccessible (p : PermissionsFile) (name app db : String) : Bool :=
  match p.apps.get? app with
  | none => false
  | some entry =>
    match entry.names.get? name with
    | none => if deniesWholeDb entry.deny db then false else hasGet entry.allow db
    | some n =>
      if deniesWholeDb n.deny db then false
      else if hasGet n.allow db then true
      else if deniesWholeDb entry.deny db then false
      else hasGet entry.allow db

/-- `listable_databases`. -/
def listableDatabases (p : PermissionsFile) (name app : String) (allDbs : List String) :
    List String :=
  allDbs.filter fun db => dbAccessible p name app db

/-- The denies on the database that the listing consults. -/
def consultedDenies (p : PermissionsFile) (name app db : String) : List Rule :=
  match p.apps.get? app with
  | none => []
  | some entry =>
    match entry.names.get? name with
    | none => entry.deny.filter (Rule.concerns db)
    | some n =>
      (if hasGet n.allow db then n.deny else n.deny ++ entry.deny).filter (Rule.concerns db)

/-- The databases in which the caller may read a collection are listed. -/
def NeverHidden (p : PermissionsFile) (name app : String) (allDbs : List String) : Prop :=
  ∀ db ∈ allDbs, ∀ coll, coll ≠ "" → allows p name app "GET" db coll = true →
    db ∈ listableDatabases p name app allDbs

/-- The pattern matches the text `*` and not the collection. -/
def Misread (pattern coll : String) : Prop :=
  globMatch pattern "*" = true ∧ globMatch pattern coll = false

/-! ## Patterns that match the text `*` -/

theorem reads_star_text {q : List Char} :
    Reads q ['*'] ↔ ∃ x rest, q = x :: rest ∧ (x = '?' ∨ x = '*') ∧ ∀ y ∈ rest, y = '*' := by
  constructor
  · intro h
    cases h with
    | char hx h => exact ⟨_, _, rfl, hx, reads_nil_iff.mp h⟩
    | star k hne _ => exact absurd rfl hne
  · rintro ⟨x, rest, rfl, hx, hrest⟩
    exact .char hx (reads_nil_iff.mpr hrest)

theorem globMatch_star_text (pattern : String) :
    globMatch pattern "*" = true ↔
      ∃ x rest, pattern.toList = x :: rest ∧ (x = '?' ∨ x = '*') ∧ ∀ y ∈ rest, y = '*' := by
  rw [globMatch_iff_reads, ← reads_star_text]
  refine ⟨fun h => ?_, fun h => .inr (.inr h)⟩
  rcases h with rfl | rfl | h
  · exact reads_star_text.mpr ⟨'*', [], rfl, .inr rfl, by simp⟩
  · exact reads_star_text.mpr ⟨'*', ['*'], rfl, .inr rfl, by simp⟩
  · exact h

/-- Stars match every name without a star. -/
theorem reads_stars {p v : List Char} (hp : ∀ y ∈ p, y = '*') (hne : p ≠ []) (hv : '*' ∉ v) :
    Reads p v := by
  obtain ⟨x, p, rfl⟩ := List.exists_cons_of_ne_nil hne
  rw [List.forall_mem_cons] at hp
  obtain ⟨rfl, hp⟩ := hp
  refine .star v.length (fun hhead => hv (List.mem_of_head? hhead)) ?_
  rw [List.drop_length]
  exact reads_nil_iff.mpr hp

/-- Among names without a star only `?` is misread, on names of two characters or more. -/
theorem misread_iff {pattern coll : String} (hstar : '*' ∉ coll.toList) (hne : coll ≠ "") :
    Misread pattern coll ↔ pattern = "?" ∧ 2 ≤ coll.toList.length := by
  have hpos : 0 < coll.toList.length :=
    List.length_pos_iff.mpr fun h => hne (String.toList_eq_nil_iff.mp h)
  unfold Misread
  rw [globMatch_star_text]
  constructor
  · rintro ⟨⟨x, rest, hlist, hx, hrest⟩, hno⟩
    have hno' : ¬ Reads pattern.toList coll.toList := fun h => by
      rw [(globMatch_iff_reads pattern coll).mpr (.inr (.inr h))] at hno
      cases hno
    obtain ⟨y, v, hv⟩ := List.exists_cons_of_length_pos hpos
    rw [hlist, hv] at hno'
    rw [hv, List.mem_cons, not_or] at hstar
    rcases hx with rfl | rfl
    · have hempty : rest = [] := by
        by_contra hrest'
        exact hno' (.char (.inl rfl) (reads_stars hrest hrest' hstar.2))
      subst hempty
      refine ⟨String.toList_inj.mp hlist, ?_⟩
      cases v with
      | nil => exact absurd (.char (.inl rfl) .nil) hno'
      | cons z v => rw [hv, List.length_cons, List.length_cons]; omega
    · refine absurd (reads_stars (List.forall_mem_cons.mpr ⟨rfl, hrest⟩) (by simp) ?_) hno'
      rw [List.mem_cons, not_or]
      exact hstar
  · rintro ⟨rfl, hlen⟩
    refine ⟨⟨'?', [], rfl, .inl rfl, by simp⟩, ?_⟩
    rw [← Bool.not_eq_true, globMatch_iff_reads]
    rintro (h | h | h)
    · exact absurd h (by decide)
    · exact absurd h (by decide)
    · have := h.length_eq (by decide)
      rw [this] at hlen
      exact absurd hlen (by decide)

/-! ## A readable collection -/

theorem deniesWholeDb_eq (rules : List Rule) (db : String) :
    deniesWholeDb rules db = ruleMatches rules "GET" db "*" := rfl

theorem ruleMatches_get_iff {rules : List Rule} {db coll : String} :
    ruleMatches rules "GET" db coll = true ↔
      ∃ r ∈ rules.filter (Rule.concerns db), ∃ q ∈ r.collections, globMatch q coll = true := by
  simp only [ruleMatches, Rule.concerns, List.any_eq_true, Bool.and_eq_true, List.mem_filter]
  constructor
  · rintro ⟨r, hr, ⟨ha, hdb⟩, hq⟩
    exact ⟨r, ⟨hr, ha, hdb⟩, hq⟩
  · rintro ⟨r, ⟨hr, ha, hdb⟩, hq⟩
    exact ⟨r, hr, ⟨ha, hdb⟩, hq⟩

theorem hasGet_of_ruleMatches {rules : List Rule} {db coll : String}
    (h : ruleMatches rules "GET" db coll = true) : hasGet rules db = true := by
  obtain ⟨r, hr, -⟩ := ruleMatches_get_iff.mp h
  exact List.any_eq_true.mpr ⟨r, List.mem_of_mem_filter hr, (List.mem_filter.mp hr).2⟩

theorem not_ruleMatches_of_hasGet {rules : List Rule} {db : String} (coll : String)
    (h : hasGet rules db = false) : ¬ruleMatches rules "GET" db coll = true := by
  intro hmatches
  rw [hasGet_of_ruleMatches hmatches] at h
  cases h

/-- The rules do not match the collection: none of their patterns does. -/
theorem forall_not_match_iff {rules : List Rule} {db coll : String} :
    (∀ r ∈ rules.filter (Rule.concerns db), ∀ q ∈ r.collections, globMatch q coll = false) ↔
      ruleMatches rules "GET" db coll = false := by
  rw [← Bool.not_eq_true, ruleMatches_get_iff]
  simp only [not_exists, not_and, Bool.not_eq_true]

variable {p : PermissionsFile} {name app db coll : String}

/-- The denies consulted do not match the collection, in terms of the layers. -/
theorem consulted_iff {entry : AppEntry} (happ : p.apps.get? app = some entry) (coll : String) :
    (∀ r ∈ consultedDenies p name app db, ∀ q ∈ r.collections, globMatch q coll = false) ↔
      match entry.names.get? name with
      | none => ruleMatches entry.deny "GET" db coll = false
      | some n => ruleMatches n.deny "GET" db coll = false ∧
          (hasGet n.allow db = false → ruleMatches entry.deny "GET" db coll = false) := by
  simp only [consultedDenies, happ]
  cases entry.names.get? name with
  | none => exact forall_not_match_iff
  | some n =>
    dsimp only
    cases hasGet n.allow db with
    | true =>
      rw [if_pos rfl, forall_not_match_iff]
      exact ⟨fun h => ⟨h, fun hc => by cases hc⟩, And.left⟩
    | false =>
      rw [if_neg Bool.false_ne_true, List.filter_append, List.forall_mem_append,
        forall_not_match_iff, forall_not_match_iff]
      exact and_congr_right fun _ => ⟨fun h _ => h, fun h => h rfl⟩

/-- None of the denies consulted matches what may be read. -/
theorem consulted_not_match (h : allows p name app "GET" db coll = true) :
    ∀ r ∈ consultedDenies p name app db, ∀ q ∈ r.collections, globMatch q coll = false := by
  unfold allows AppEntry.allows at h
  cases happ : p.apps.get? app with
  | none => rw [happ] at h; cases h
  | some entry =>
    rw [consulted_iff happ]
    cases hname : entry.names.get? name with
    | none =>
      simp only [happ, hname] at h ⊢
      split at h
      case isTrue => cases h
      case isFalse hdeny => exact Bool.not_eq_true _ ▸ hdeny
    | some n =>
      simp only [happ, hname] at h ⊢
      split at h
      case isTrue => cases h
      case isFalse hdeny =>
        refine ⟨Bool.not_eq_true _ ▸ hdeny, fun hget => ?_⟩
        rw [if_neg (not_ruleMatches_of_hasGet coll hget)] at h
        split at h
        case isTrue => cases h
        case isFalse happdeny => exact Bool.not_eq_true _ ▸ happdeny

/-- Where something may be read, the database is listed unless a deny consulted
matches the text `*`. -/
theorem dbAccessible_iff (h : allows p name app "GET" db coll = true) :
    dbAccessible p name app db = true ↔
      ∀ r ∈ consultedDenies p name app db, ∀ q ∈ r.collections, globMatch q "*" = false := by
  unfold allows AppEntry.allows at h
  unfold dbAccessible
  cases happ : p.apps.get? app with
  | none => rw [happ] at h; cases h
  | some entry =>
    rw [consulted_iff happ]
    have happget : (if ruleMatches entry.deny "GET" db coll then false
        else ruleMatches entry.allow "GET" db coll) = true → hasGet entry.allow db = true := by
      intro hallow
      split at hallow
      case isTrue => cases hallow
      case isFalse => exact hasGet_of_ruleMatches hallow
    cases hname : entry.names.get? name with
    | none =>
      simp only [happ, hname] at h ⊢
      rw [deniesWholeDb_eq, happget h]
      cases ruleMatches entry.deny "GET" db "*" <;> simp
    | some n =>
      simp only [happ, hname] at h ⊢
      rw [deniesWholeDb_eq, deniesWholeDb_eq]
      cases hget : hasGet n.allow db with
      | true => cases ruleMatches n.deny "GET" db "*" <;> simp
      | false =>
        rw [if_neg (not_ruleMatches_of_hasGet coll hget)] at h
        split at h
        case isTrue => cases h
        case isFalse =>
          rw [happget h]
          cases ruleMatches n.deny "GET" db "*" <;>
            cases ruleMatches entry.deny "GET" db "*" <;> simp

/-- **No readable database is hidden**, unless a deny consulted has a pattern that
matches the text `*` and not the collection that may be read. -/
theorem neverHidden_iff (p : PermissionsFile) (name app : String) (allDbs : List String) :
    NeverHidden p name app allDbs ↔
      ∀ db ∈ allDbs, ∀ coll, coll ≠ "" → allows p name app "GET" db coll = true →
        ∀ r ∈ consultedDenies p name app db, ∀ q ∈ r.collections, ¬Misread q coll := by
  refine forall₂_congr fun db hdb => forall₂_congr fun coll _ => forall_congr' fun h => ?_
  rw [listableDatabases, List.mem_filter, and_iff_right hdb, dbAccessible_iff h]
  refine forall₂_congr fun r hr => forall₂_congr fun q hq => ?_
  rw [Misread, and_iff_left (consulted_not_match h r hr q hq), Bool.not_eq_true]

/-- A grant on a database with the collections of one character denied. -/
def oneCharacterDenied : PermissionsFile :=
  ⟨SortedMap.empty.insert "app" ⟨none, [⟨["GET"], ["db1"], ["*"]⟩],
    [⟨["GET"], ["db1"], ["?"]⟩], .empty⟩⟩

/-- Every longer name may be read, and the database is not listed. -/
theorem neverHidden_oneCharacterDenied :
    oneCharacterDenied.validate = .ok () ∧
      allows oneCharacterDenied "user" "app" "GET" "db1" "orders" = true ∧
      listableDatabases oneCharacterDenied "user" "app" ["db1"] = [] ∧
      ¬NeverHidden oneCharacterDenied "user" "app" ["db1"] := by
  have hread : allows oneCharacterDenied "user" "app" "GET" "db1" "orders" = true := by
    decide +kernel
  have hlist : listableDatabases oneCharacterDenied "user" "app" ["db1"] = [] := by decide +kernel
  refine ⟨rfl, hread, hlist, fun h => ?_⟩
  have hmem := h "db1" List.mem_cons_self "orders" (by decide) hread
  rw [hlist] at hmem
  cases hmem

end XavierDB.Perms

import XavierDB.Perms.Glob

/-!
# Who may do what (`src/perms.rs`)

The layers of a caller's rules: those of the name before those of its app, and
in each layer the denies before the allows. The listing of a database takes a
grant on the collection `*` for a grant on every collection.
-/

namespace XavierDB.Perms

/-! ## The layers -/

def AppEntry.allows (entry : AppEntry) (action db coll : String) : Bool :=
  if ruleMatches entry.deny action db coll then false
  else ruleMatches entry.allow action db coll

/-- `PermissionsFile::allows`. -/
def allows (p : PermissionsFile) (name app action db coll : String) : Bool :=
  match p.apps.get? app with
  | none => false
  | some entry =>
    match entry.names.get? name with
    | none => entry.allows action db coll
    | some n =>
      if ruleMatches n.deny action db coll then false
      else if ruleMatches n.allow action db coll then true
      else entry.allows action db coll

structure EffectiveRule extends Rule where
  /-- `name_allow`, `name_deny`, `app_allow` or `app_deny` -/
  source : String
  deriving DecidableEq, Repr

/-- `effective_rules`. -/
def effectiveRules (p : PermissionsFile) (app : String) (name : Option String) :
    List EffectiveRule :=
  match p.apps.get? app with
  | none => []
  | some entry =>
    (match name.bind entry.names.get? with
      | none => []
      | some n => n.deny.map (⟨·, "name_deny"⟩) ++ n.allow.map (⟨·, "name_allow"⟩)) ++
    entry.deny.map (⟨·, "app_deny"⟩) ++ entry.allow.map (⟨·, "app_allow"⟩)

/-! ## The first rule decides -/

def Rule.hits (glob : String → String → Bool) (action db coll : String) (r : Rule) : Bool :=
  r.actions.any (· == action) && r.databases.any (glob · db) && r.collections.any (glob · coll)

/-- `r.source.endsWith("deny")`. -/
def EffectiveRule.isDeny (r : EffectiveRule) : Bool := "deny".toList.isSuffixOf r.source.toList

/-- The verdict of the first rule that matches. -/
def firstVerdict (glob : String → String → Bool) (action db coll : String) :
    List EffectiveRule → Bool
  | [] => false
  | r :: eff =>
    if r.hits glob action db coll then !r.isDeny else firstVerdict glob action db coll eff

section Congr

variable {glob glob' : String → String → Bool} {db coll : String}

theorem Rule.hits_congr (hdb : ∀ p, glob p db = glob' p db)
    (hcoll : ∀ p, glob p coll = glob' p coll) (action : String) (r : Rule) :
    r.hits glob action db coll = r.hits glob' action db coll := by
  simp only [hits, hdb, hcoll]

theorem firstVerdict_congr (hdb : ∀ p, glob p db = glob' p db)
    (hcoll : ∀ p, glob p coll = glob' p coll) (action : String) (eff : List EffectiveRule) :
    firstVerdict glob action db coll eff = firstVerdict glob' action db coll eff := by
  induction eff with
  | nil => rfl
  | cons r eff ih => rw [firstVerdict, firstVerdict, Rule.hits_congr hdb hcoll, ih]

end Congr

theorem firstVerdict_map_append (glob : String → String → Bool) (action db coll source : String)
    (rules : List Rule) (eff : List EffectiveRule) :
    firstVerdict glob action db coll (rules.map (⟨·, source⟩) ++ eff) =
      if rules.any (Rule.hits glob action db coll)
      then !"deny".toList.isSuffixOf source.toList
      else firstVerdict glob action db coll eff := by
  induction rules with
  | nil => rfl
  | cons r rules ih =>
    rw [List.map_cons, List.cons_append, firstVerdict, ih, List.any_cons]
    cases hr : r.hits glob action db coll with
    | true => rfl
    | false => rfl

theorem isDeny_deny : "deny".toList.isSuffixOf "name_deny".toList = true ∧
    "deny".toList.isSuffixOf "app_deny".toList = true := by decide +kernel

theorem isDeny_allow : "deny".toList.isSuffixOf "name_allow".toList = false ∧
    "deny".toList.isSuffixOf "app_allow".toList = false := by decide +kernel

theorem ruleMatches_eq_any (rules : List Rule) (action db coll : String) :
    ruleMatches rules action db coll = rules.any (Rule.hits globMatch action db coll) := rfl

theorem firstVerdict_app (entry : AppEntry) (action db coll : String) :
    firstVerdict globMatch action db coll (entry.deny.map (⟨·, "app_deny"⟩) ++
      entry.allow.map (⟨·, "app_allow"⟩)) = entry.allows action db coll := by
  have hlast := firstVerdict_map_append globMatch action db coll "app_allow" entry.allow []
  rw [List.append_nil] at hlast
  rw [firstVerdict_map_append, hlast, isDeny_deny.2, isDeny_allow.2, AppEntry.allows,
    ruleMatches_eq_any, ruleMatches_eq_any]
  cases entry.deny.any (Rule.hits globMatch action db coll) with
  | true => rfl
  | false => cases entry.allow.any (Rule.hits globMatch action db coll) <;> rfl

/-- The flat list of effective rules says what the layers say. -/
theorem firstVerdict_effectiveRules (p : PermissionsFile) (name app action db coll : String) :
    firstVerdict globMatch action db coll (effectiveRules p app (some name)) =
      allows p name app action db coll := by
  unfold effectiveRules allows
  cases p.apps.get? app with
  | none => rfl
  | some entry =>
    cases hn : entry.names.get? name with
    | none =>
      simp only [Option.bind_some, hn, List.nil_append]
      exact firstVerdict_app entry action db coll
    | some n =>
      simp only [Option.bind_some, hn, List.append_assoc]
      rw [firstVerdict_map_append, firstVerdict_map_append, firstVerdict_app, isDeny_deny.1,
        isDeny_allow.1]
      rfl

/-! ## Listing -/

/-- `listable_collections`. -/
def listableCollections (p : PermissionsFile) (name app db : String) (allColls : List String) :
    List String :=
  let whole := allows p name app "GET" db "*"
  if whole then allColls else allColls.filter fun c => allows p name app "GET" db c

end XavierDB.Perms

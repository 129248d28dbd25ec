import XavierDB.Metrics.Clients
import XavierDB.Perms.File

/-!
# The Clients tab (`src/routes_admin.rs`, `src/assets/ts/view-clients.ts`)

The server sends its apps and their names, those of the permissions file and those that
requests came from; the dashboard adds those of the permissions it has loaded, which may be of
another version. Every app and every name of it is there once.
-/

namespace XavierDB.ClientsTab

open Metrics (LimitState appOf)
open Metrics.Clients

/-! ## The tree of the server -/

structure NameNode where
  name : String
  id : String
  blocked : Bool
  rps : Binary64
  p50Ms : Binary64
  totalRequests : UInt64
  lastSeenMs : Int
  rpsHistory : List Binary64

structure AppNode where
  app : String
  blocked : Bool
  weight : Binary64
  rps : Binary64
  p50Ms : Binary64
  limit : Option UInt32
  breakdown : Option (LimitState Binary64)
  rpsHistory : List Binary64
  names : List NameNode

/-- What `metrics` reads of the server. -/
structure Server where
  blocked : List String
  weights : SortedMap String Binary64
  perms : Perms.PermissionsFile
  limits : String → Option (LimitState Binary64)
  clients : SortedMap String ClientStats
  /-- the keys of the clients in the order in which the map yields them -/
  order : List String

def Server.isBlocked (v : Server) (id : String) : Bool := v.blocked.any (· == id)

def pushNew (ids : List String) (id : String) : List String :=
  if id ∈ ids then ids else ids ++ [id]

/-- `sort`. -/
def sortIds (ids : List String) : List String := ids.mergeSort fun a b => decide (a ≤ b)

/-- `app_ids`. -/
def Server.appIds (v : Server) : List String :=
  sortIds ((v.order.filterMap appOf).foldl pushNew (v.perms.apps.entries.map Prod.fst))

/-- The names of the file, `perms.apps.get(app)`. -/
def Server.fileNames (v : Server) (app : String) : List String :=
  match v.perms.apps.get? app with
  | some e => e.names.entries.map Prod.fst
  | none => []

/-- The name in a client key, if it is one of this app. -/
def nameUnder (app key : String) : Option String :=
  (nameOf key).bind fun p => if p.2 = app then some p.1 else none

/-- `name_ids`. -/
def Server.nameIds (v : Server) (app : String) : List String :=
  sortIds ((v.order.filterMap (nameUnder app)).foldl pushNew (v.fileNames app))

def snapshotClient (st : ClientStats) : Binary64 × List Binary64 × Binary64 :=
  (st.rate, st.history, median st.lat)

def Server.nameNode (v : Server) (app nid : String) : NameNode :=
  let (rps, hist, p50, total, lastSeen) :=
    match v.clients.get? (nameKey nid app) with
    | some st =>
      let (r, h, p) := snapshotClient st
      (r, h, p, st.total, st.lastSeen)
    | none => (.lit 0 1, [], .lit 0 1, 0, 0)
  ⟨nid, nid ++ "@" ++ app, v.isBlocked (nid ++ "@" ++ app), rps, p50, total, lastSeen, hist⟩

def Server.appNode (v : Server) (app : String) : AppNode :=
  let (rps, hist, p50) :=
    match v.clients.get? (appKey app) with
    | some st => snapshotClient st
    | none => (.lit 0 1, [], .lit 0 1)
  { app
    blocked := v.isBlocked app
    weight := (v.weights.get? app).getD (.lit 1 1)
    rps
    p50Ms := p50
    limit := (v.limits app).map LimitState.enforced
    breakdown := v.limits app
    rpsHistory := hist
    names := (v.nameIds app).map (v.nameNode app) }

/-- The `apps` of `metrics`. -/
def Server.apps (v : Server) : List AppNode := v.appIds.map v.appNode

/-! ## The list of the browser -/

/-- What `permsData` has of an app. -/
structure AppPerm where
  app : String
  names : List String

/-- An app that the server did not send. -/
def fileOnlyApp (app : String) : AppNode :=
  ⟨app, false, .lit 1 1, .lit 0 1, .lit 0 1, none, none, [], []⟩

def fileOnlyName (app name : String) : NameNode :=
  ⟨name, name ++ "@" ++ app, false, .lit 0 1, .lit 0 1, 0, 0, []⟩

/-- The names of a loaded app, where they are not among those that were sent. -/
def addName (app : String) (names : List NameNode) (name : String) : List NameNode :=
  if names.any (·.name == name) then names else names ++ [fileOnlyName app name]

/-- What `mergedApps` does to the node of a loaded app, sorted by `localeCompare`. -/
def addNames (locale : String → String → Bool) (p : AppPerm) (a : AppNode) : AppNode :=
  { a with names := (p.names.foldl (addName p.app) a.names).mergeSort fun x y =>
      locale x.name y.name }

/-- One loaded app in `mergedApps`: its node, or a new one, gets its names. -/
def mergeApp (locale : String → String → Bool) (apps : List AppNode) (p : AppPerm) :
    List AppNode :=
  if apps.any (·.app == p.app) then
    apps.map fun a => if a.app = p.app then addNames locale p a else a
  else apps ++ [addNames locale p (fileOnlyApp p.app)]

def mergedApps (locale : String → String → Bool) (apps : List AppNode) (perms : List AppPerm) :
    List AppNode := perms.foldl (mergeApp locale) apps

/-! ## Lists without repetition -/

variable {ids xs : List String} {x : String}

theorem mem_pushAll : x ∈ xs.foldl pushNew ids ↔ x ∈ ids ∨ x ∈ xs := by
  induction xs generalizing ids with
  | nil => simp
  | cons y ys ih =>
    have hpush : x ∈ pushNew ids y ↔ x ∈ ids ∨ x = y := by
      unfold pushNew
      split
      case isTrue h => exact ⟨.inl, fun hx => hx.elim id fun heq => heq ▸ h⟩
      case isFalse => simp
    rw [List.foldl_cons, ih, hpush, List.mem_cons, or_assoc]

theorem nodup_pushAll (h : ids.Nodup) : (xs.foldl pushNew ids).Nodup := by
  refine List.foldlRecOn xs _ h fun ids h x _ => ?_
  unfold pushNew
  split
  case isTrue => exact h
  case isFalse hx => exact List.nodup_append_comm.mp (List.nodup_cons.mpr ⟨hx, h⟩)

theorem pairwise_sortIds (h : ids.Nodup) : (sortIds ids).Pairwise (· < ·) := by
  have hle : (sortIds ids).Pairwise (· ≤ ·) := by
    simpa [sortIds] using @List.pairwise_mergeSort String (fun a b => decide (a ≤ b))
      (by simpa using fun a b c => le_trans) (by simpa using le_total) ids
  have hne : (sortIds ids).Nodup := (List.mergeSort_perm ..).nodup_iff.mpr h
  exact hle.imp₂ (fun _ _ hab hne => lt_of_le_of_ne hab hne) hne

@[simp] theorem mem_sortIds : x ∈ sortIds ids ↔ x ∈ ids := List.mem_mergeSort

/-! ## What the tree has -/

variable {v : Server} {app name : String}

theorem keys_nodup {ν : Type} (m : SortedMap String ν) : (m.entries.map Prod.fst).Nodup :=
  (List.pairwise_map.mpr m.sorted).imp ne_of_lt

theorem pairwise_appIds : v.appIds.Pairwise (· < ·) :=
  pairwise_sortIds (nodup_pushAll (keys_nodup _))

theorem pairwise_nameIds : (v.nameIds app).Pairwise (· < ·) := by
  refine pairwise_sortIds (nodup_pushAll ?_)
  unfold Server.fileNames
  split
  case h_1 e _ => exact keys_nodup e.names
  case h_2 => exact List.nodup_nil

theorem mem_keys {ν : Type} {m : SortedMap String ν} {k : String} :
    k ∈ m.entries.map Prod.fst ↔ (m.get? k).isSome = true := by
  rw [List.mem_map, Option.isSome_iff_exists]
  constructor
  · rintro ⟨⟨k, x⟩, hmem, rfl⟩
    exact ⟨x, SortedMap.get?_of_mem hmem⟩
  · rintro ⟨x, hx⟩
    exact ⟨(k, x), SortedMap.mem_of_get? hx, rfl⟩

/-- An app or a name of the permissions file. -/
def InFile (p : Perms.PermissionsFile) (app name : String) : Prop :=
  ∃ e, p.apps.get? app = some e ∧ (e.names.get? name).isSome = true

theorem mem_appIds : app ∈ v.appIds ↔
    (v.perms.apps.get? app).isSome = true ∨ ∃ k ∈ v.order, appOf k = some app := by
  rw [Server.appIds, mem_sortIds, mem_pushAll, mem_keys, List.mem_filterMap]

theorem mem_nameIds : name ∈ v.nameIds app ↔
    InFile v.perms app name ∨ ∃ k ∈ v.order, nameOf k = some (name, app) := by
  have hfile : name ∈ v.fileNames app ↔ InFile v.perms app name := by
    unfold Server.fileNames InFile
    split
    case h_1 e he => simp [he, mem_keys]
    case h_2 hnone => simp [hnone]
  have hkey : ∀ k, nameUnder app k = some name ↔ nameOf k = some (name, app) := by
    intro k
    rw [nameUnder, Option.bind_eq_some_iff]
    constructor
    · rintro ⟨⟨n, a⟩, hk, hp⟩
      split at hp
      · simp_all
      · cases hp
    · intro hk
      exact ⟨(name, app), hk, if_pos rfl⟩
  rw [Server.nameIds, mem_sortIds, mem_pushAll, hfile, List.mem_filterMap]
  simp only [hkey]

/-! ## What the browser adds -/

/-- Every app is there once, with every name once. -/
structure Once (apps : List AppNode) : Prop where
  nodup : (apps.map AppNode.app).Nodup
  names : ∀ a ∈ apps, (a.names.map NameNode.name).Nodup

def HasApp (apps : List AppNode) (app : String) : Prop := app ∈ apps.map AppNode.app

def HasName (apps : List AppNode) (app name : String) : Prop :=
  ∃ a ∈ apps, a.app = app ∧ name ∈ a.names.map NameNode.name

variable {locale : String → String → Bool} {apps : List AppNode} {p : AppPerm} {a : AppNode}
  {perms : List AppPerm}

theorem mem_addName {names : List NameNode} {n : NameNode} (h : n ∈ names) (x : String) :
    n ∈ addName app names x := by
  unfold addName
  split
  · exact h
  · exact List.mem_append_left _ h

theorem map_addName (names : List NameNode) (x : String) :
    (addName app names x).map NameNode.name = pushNew (names.map NameNode.name) x := by
  unfold addName pushNew
  simp only [List.any_eq_true, beq_iff_eq, List.mem_map]
  split <;> simp [fileOnlyName]

theorem map_addNames_perm : ((addNames locale p a).names.map NameNode.name).Perm
    (p.names.foldl pushNew (a.names.map NameNode.name)) := by
  refine ((List.mergeSort_perm ..).map _).trans (.of_eq ?_)
  have hfold : ∀ names : List NameNode, (p.names.foldl (addName p.app) names).map NameNode.name =
      p.names.foldl pushNew (names.map NameNode.name) := by
    induction p.names with
    | nil => exact fun _ => rfl
    | cons x xs ih => exact fun names => by rw [List.foldl_cons, ih, map_addName, List.foldl_cons]
  exact hfold a.names

theorem nodup_addNames (h : (a.names.map NameNode.name).Nodup) :
    ((addNames locale p a).names.map NameNode.name).Nodup :=
  map_addNames_perm.nodup_iff.mpr (nodup_pushAll h)

theorem mem_map_addNames : name ∈ (addNames locale p a).names.map NameNode.name ↔
    name ∈ a.names.map NameNode.name ∨ name ∈ p.names := by
  rw [map_addNames_perm.mem_iff, mem_pushAll]

theorem mem_addNames {n : NameNode} (h : n ∈ a.names) : n ∈ (addNames locale p a).names :=
  List.mem_mergeSort.mpr
    (List.foldlRecOn (motive := fun names => n ∈ names) p.names _ h fun _ h x _ => mem_addName h x)

theorem map_mergeApp :
    (mergeApp locale apps p).map AppNode.app = pushNew (apps.map AppNode.app) p.app := by
  unfold mergeApp pushNew
  simp only [List.any_eq_true, beq_iff_eq, List.mem_map]
  split
  case isTrue =>
    rw [List.map_map]
    refine List.map_congr_left fun a _ => ?_
    show (if a.app = p.app then addNames locale p a else a).app = a.app
    split <;> rfl
  case isFalse => simp [addNames, fileOnlyApp]

/-- A node afterwards was there, or has the loaded names. -/
theorem mem_mergeApp : a ∈ mergeApp locale apps p ↔ (a ∈ apps ∧ a.app ≠ p.app) ∨
    ∃ a', (a' ∈ apps ∨ ¬HasApp apps p.app ∧ a' = fileOnlyApp p.app) ∧ a'.app = p.app ∧
      a = addNames locale p a' := by
  have hhas : (apps.any (·.app == p.app)) = true ↔ HasApp apps p.app := by simp [HasApp]
  unfold mergeApp
  split
  case isTrue h =>
    have h := hhas.mp h
    rw [List.mem_map]
    constructor
    · rintro ⟨a', ha', rfl⟩
      split
      case isTrue heq => exact .inr ⟨a', .inl ha', heq, rfl⟩
      case isFalse hne => exact .inl ⟨ha', hne⟩
    · rintro (⟨ha, hne⟩ | ⟨a', ha' | ⟨hnot, -⟩, heq, rfl⟩)
      · exact ⟨a, ha, if_neg hne⟩
      · exact ⟨a', ha', if_pos heq⟩
      · exact absurd h hnot
  case isFalse h =>
    have h : ¬HasApp apps p.app := mt hhas.mpr h
    have hne : ∀ a ∈ apps, a.app ≠ p.app := fun a ha heq => h (heq ▸ List.mem_map_of_mem ha)
    rw [List.mem_append, List.mem_singleton]
    constructor
    · rintro (ha | rfl)
      · exact .inl ⟨ha, hne a ha⟩
      · exact .inr ⟨_, .inr ⟨h, rfl⟩, rfl, rfl⟩
    · rintro (⟨ha, -⟩ | ⟨a', ha' | ⟨-, rfl⟩, heq, rfl⟩)
      · exact .inl ha
      · exact absurd heq (hne a' ha')
      · exact .inr rfl

theorem Once.mergeApp (h : Once apps) : Once (mergeApp locale apps p) where
  nodup := by
    rw [map_mergeApp]
    exact (nodup_pushAll h.nodup : ([p.app].foldl pushNew _).Nodup)
  names a ha := by
    obtain ⟨ha, -⟩ | ⟨a', ha' | ⟨-, rfl⟩, -, rfl⟩ := mem_mergeApp.mp ha
    · exact h.names a ha
    · exact nodup_addNames (h.names a' ha')
    · exact nodup_addNames List.nodup_nil

theorem hasApp_mergeApp : HasApp (mergeApp locale apps p) app ↔ HasApp apps app ∨ app = p.app := by
  rw [HasApp, map_mergeApp, HasApp, ← List.mem_singleton]
  exact (mem_pushAll : app ∈ [p.app].foldl pushNew _ ↔ _)

theorem hasName_mergeApp : HasName (mergeApp locale apps p) app name ↔
    HasName apps app name ∨ app = p.app ∧ name ∈ p.names := by
  constructor
  · rintro ⟨a, ha, rfl, hname⟩
    obtain ⟨ha, -⟩ | ⟨a', ha', heq, rfl⟩ := mem_mergeApp.mp ha
    · exact .inl ⟨a, ha, rfl, hname⟩
    · rcases mem_map_addNames.mp hname with hname | hname
      · rcases ha' with ha' | ⟨-, rfl⟩
        · exact .inl ⟨a', ha', rfl, hname⟩
        · cases hname
      · exact .inr ⟨heq, hname⟩
  · rintro (⟨a, ha, rfl, hname⟩ | ⟨rfl, hname⟩)
    · by_cases heq : a.app = p.app
      · exact ⟨_, mem_mergeApp.mpr (.inr ⟨a, .inl ha, heq, rfl⟩), rfl,
          mem_map_addNames.mpr (.inl hname)⟩
      · exact ⟨a, mem_mergeApp.mpr (.inl ⟨ha, heq⟩), rfl, hname⟩
    · by_cases hhas : HasApp apps p.app
      · obtain ⟨a, ha, heq⟩ := List.mem_map.mp hhas
        exact ⟨_, mem_mergeApp.mpr (.inr ⟨a, .inl ha, heq, rfl⟩), heq,
          mem_map_addNames.mpr (.inr hname)⟩
      · exact ⟨_, mem_mergeApp.mpr (.inr ⟨_, .inr ⟨hhas, rfl⟩, rfl, rfl⟩), rfl,
          mem_map_addNames.mpr (.inr hname)⟩

/-- What the server sent of a name is not changed. -/
def Shows (apps : List AppNode) (app : String) (n : NameNode) : Prop :=
  ∃ a ∈ apps, a.app = app ∧ n ∈ a.names

theorem Shows.mergeApp {n : NameNode} (h : Shows apps app n) :
    Shows (mergeApp locale apps p) app n := by
  obtain ⟨a, ha, rfl, hn⟩ := h
  by_cases heq : a.app = p.app
  · exact ⟨_, mem_mergeApp.mpr (.inr ⟨a, .inl ha, heq, rfl⟩), rfl, mem_addNames hn⟩
  · exact ⟨a, mem_mergeApp.mpr (.inl ⟨ha, heq⟩), rfl, hn⟩

/-- What the server sent of an app is not changed, but for its names. -/
def ShowsApp (apps : List AppNode) (a : AppNode) : Prop :=
  ∃ a' ∈ apps, { a' with names := a.names } = a

theorem ShowsApp.mergeApp (h : ShowsApp apps a) : ShowsApp (mergeApp locale apps p) a := by
  obtain ⟨a', ha', heq⟩ := h
  by_cases happ : a'.app = p.app
  · exact ⟨_, mem_mergeApp.mpr (.inr ⟨a', .inl ha', happ, rfl⟩), heq⟩
  · exact ⟨a', mem_mergeApp.mpr (.inl ⟨ha', happ⟩), heq⟩

theorem once_mergedApps (h : Once apps) : Once (mergedApps locale apps perms) :=
  List.foldlRecOn perms _ h fun _ h _ _ => h.mergeApp

theorem shows_mergedApps {n : NameNode} (h : Shows apps app n) :
    Shows (mergedApps locale apps perms) app n :=
  List.foldlRecOn (motive := fun apps => Shows apps app n) perms _ h fun _ h _ _ => h.mergeApp

theorem showsApp_mergedApps (h : ShowsApp apps a) :
    ShowsApp (mergedApps locale apps perms) a :=
  List.foldlRecOn (motive := fun apps => ShowsApp apps a) perms _ h fun _ h _ _ => h.mergeApp

theorem hasApp_mergedApps : HasApp (mergedApps locale apps perms) app ↔
    HasApp apps app ∨ ∃ p ∈ perms, app = p.app := by
  induction perms generalizing apps with
  | nil => simp [mergedApps]
  | cons p perms ih =>
    rw [mergedApps, List.foldl_cons, ← mergedApps, ih, hasApp_mergeApp]
    simp [or_assoc]

theorem hasName_mergedApps : HasName (mergedApps locale apps perms) app name ↔
    HasName apps app name ∨ ∃ p ∈ perms, app = p.app ∧ name ∈ p.names := by
  induction perms generalizing apps with
  | nil => simp [mergedApps]
  | cons p perms ih =>
    rw [mergedApps, List.foldl_cons, ← mergedApps, ih, hasName_mergeApp]
    simp [or_assoc]

/-! ## Any run -/

variable {single : Binary64 → Binary64} {ι : Type} [DecidableEq ι]
  {s : Publish.State ι Monitor Recording}

/-- The request is recorded with its app. -/
def WithApp (s : Publish.State ι Monitor Recording) (app : String) : Prop :=
  ∃ i w, s.phase i = .done w ∧ w.app = app

/-- The request is recorded with its name. -/
def WithName (s : Publish.State ι Monitor Recording) (app name : String) : Prop :=
  ∃ i w, (s.phase i = .named w ∨ s.phase i = .done w) ∧ w.sub = name ∧ w.app = app

omit [DecidableEq ι] in
theorem mem_order (hs : Balanced s) (hclients : v.clients = s.shared.clients)
    (horder : v.order.Perm (v.clients.entries.map Prod.fst)) {k : String} :
    k ∈ v.order ↔ ∃ i, k ∈ (s.phase i).keys := by
  rw [horder.mem_iff, mem_keys, hclients, hs.present]

theorem mem_keys_iff {r : Recording} {k : String} : k ∈ r.keys ↔
    (∃ w, (r = .named w ∨ r = .done w) ∧ k = nameKey w.sub w.app) ∨
      ∃ w, r = .done w ∧ k = appKey w.app := by
  cases r <;> simp [Recording.keys]

omit [DecidableEq ι] in
theorem exists_appOf (hs : Balanced s) (hclients : v.clients = s.shared.clients)
    (horder : v.order.Perm (v.clients.entries.map Prod.fst)) :
    (∃ k ∈ v.order, appOf k = some app) ↔ WithApp s app := by
  simp only [mem_order hs hclients horder, mem_keys_iff]
  constructor
  · rintro ⟨k, ⟨i, ⟨w, -, rfl⟩ | ⟨w, hi, rfl⟩⟩, happ⟩
    · rw [appOf_nameKey] at happ
      cases happ
    · rw [appOf_appKey] at happ
      exact ⟨i, w, hi, Option.some.inj happ⟩
  · rintro ⟨i, w, hi, rfl⟩
    exact ⟨appKey w.app, ⟨i, .inr ⟨w, hi, rfl⟩⟩, appOf_appKey _⟩

omit [DecidableEq ι] in
theorem exists_nameOf (hs : Balanced s) (hidentified : ∀ i, (s.phase i).Identified)
    (hclients : v.clients = s.shared.clients)
    (horder : v.order.Perm (v.clients.entries.map Prod.fst)) :
    (∃ k ∈ v.order, nameOf k = some (name, app)) ↔ WithName s app name := by
  have happ : ∀ i w, s.phase i = .named w ∨ s.phase i = .done w → Auth.IsIdentifier w.app := by
    intro i w hi
    refine (hidentified i w ?_).2
    rcases hi with hi | hi <;> rw [hi] <;> rfl
  simp only [mem_order hs hclients horder, mem_keys_iff]
  constructor
  · rintro ⟨k, ⟨i, ⟨w, hi, rfl⟩ | ⟨w, -, rfl⟩⟩, hname⟩
    · rw [nameOf_nameKey (happ i w hi)] at hname
      obtain ⟨hsub, hw⟩ := Prod.mk.inj (Option.some.inj hname)
      exact ⟨i, w, hi, hsub, hw⟩
    · rw [nameOf_appKey] at hname
      cases hname
  · rintro ⟨i, w, hi, rfl, rfl⟩
    exact ⟨_, ⟨i, .inl ⟨w, hi, rfl⟩⟩, nameOf_nameKey (happ i w hi)⟩

theorem once_apps (v : Server) : Once v.apps where
  nodup := by
    rw [Server.apps, List.map_map]
    exact (List.map_id' _).symm ▸ pairwise_appIds.imp ne_of_lt
  names a ha := by
    obtain ⟨app, -, rfl⟩ := List.mem_map.mp ha
    show (((v.nameIds app).map (v.nameNode app)).map NameNode.name).Nodup
    rw [List.map_map]
    exact (List.map_id' _).symm ▸ pairwise_nameIds.imp ne_of_lt

theorem hasApp_apps : HasApp v.apps app ↔ app ∈ v.appIds := by
  rw [HasApp, Server.apps, List.map_map]
  exact (List.map_id' v.appIds).symm ▸ Iff.rfl

theorem shows_apps (happ : app ∈ v.appIds) (hname : name ∈ v.nameIds app) :
    Shows v.apps app (v.nameNode app name) :=
  ⟨v.appNode app, List.mem_map_of_mem happ, rfl, List.mem_map_of_mem hname⟩

theorem showsApp_apps (happ : app ∈ v.appIds) : ShowsApp v.apps (v.appNode app) :=
  ⟨v.appNode app, List.mem_map_of_mem happ, rfl⟩

theorem hasName_apps : HasName v.apps app name ↔ app ∈ v.appIds ∧ name ∈ v.nameIds app := by
  constructor
  · rintro ⟨a, ha, rfl, hname⟩
    obtain ⟨app, happ, rfl⟩ := List.mem_map.mp ha
    obtain ⟨n, hn, rfl⟩ := List.mem_map.mp hname
    obtain ⟨nid, hnid, rfl⟩ := List.mem_map.mp hn
    exact ⟨happ, hnid⟩
  · rintro ⟨happ, hname⟩
    obtain ⟨a, ha, heq, hn⟩ := shows_apps happ hname
    exact ⟨a, ha, heq, List.mem_map_of_mem hn⟩

theorem total_nameNode : (v.nameNode app name).totalRequests.toNat =
    (v.clients.get? (nameKey name app)).elim 0 fun st => st.total.toNat := by
  unfold Server.nameNode
  cases v.clients.get? (nameKey name app) <;> rfl

/-- **The tab shows every identity once**, whatever requests and the metrics task do: every app
and every name of it is there once; they are those of the permissions in force, of the requests
recorded with them, and of the permissions the browser has loaded; what the server sent of an
app and of a name is shown unchanged; and the total of a name is the work of all its requests. -/
theorem tab_shows {acts : List (ι × Act)} (hacts : ∀ a ∈ acts, a.2.Identified)
    (hs : s = acts.foldl (step single) start) (hclients : v.clients = s.shared.clients)
    (horder : v.order.Perm (v.clients.entries.map Prod.fst)) :
    Once (mergedApps locale v.apps perms) ∧
      (∀ app, HasApp (mergedApps locale v.apps perms) app ↔
        ((v.perms.apps.get? app).isSome = true ∨ WithApp s app) ∨ ∃ p ∈ perms, app = p.app) ∧
      (∀ app name, HasName (mergedApps locale v.apps perms) app name ↔
        (((v.perms.apps.get? app).isSome = true ∨ WithApp s app) ∧
          (InFile v.perms app name ∨ WithName s app name)) ∨
        ∃ p ∈ perms, app = p.app ∧ name ∈ p.names) ∧
      (∀ app, HasApp v.apps app → ShowsApp (mergedApps locale v.apps perms) (v.appNode app)) ∧
      (∀ app name, HasName v.apps app name →
        Shows (mergedApps locale v.apps perms) app (v.nameNode app name)) ∧
      ∀ app name, ∀ is : Finset ι, (∀ i, i ∉ is → s.phase i = .idle) →
        (v.nameNode app name).totalRequests.toNat =
          (∑ i ∈ is, (s.phase i).forName name app) % 2 ^ 64 := by
  have hbalanced : Balanced s := hs ▸ balanced_run acts
  have hidentified : ∀ i, (s.phase i).Identified := hs ▸ identified_run hacts
  have happs : ∀ app, app ∈ v.appIds ↔
      (v.perms.apps.get? app).isSome = true ∨ WithApp s app := fun app => by
    rw [mem_appIds, exists_appOf hbalanced hclients horder]
  have hnames : ∀ app name, name ∈ v.nameIds app ↔
      InFile v.perms app name ∨ WithName s app name := fun app name => by
    rw [mem_nameIds, exists_nameOf hbalanced hidentified hclients horder]
  refine ⟨once_mergedApps (once_apps v), fun app => ?_, fun app name => ?_, fun app h => ?_,
    fun app name h => ?_, fun app name is his => ?_⟩
  · rw [hasApp_mergedApps, hasApp_apps, happs]
  · rw [hasName_mergedApps, hasName_apps, happs, hnames]
  · exact showsApp_mergedApps (showsApp_apps (hasApp_apps.mp h))
  · obtain ⟨happ, hname⟩ := hasName_apps.mp h
    exact shows_mergedApps (shows_apps happ hname)
  · have htotal := hbalanced.total is his (nameKey name app)
    rw [Monitor.totalAt, ← hclients] at htotal
    rw [total_nameNode, htotal]
    exact congrArg (· % _) (Finset.sum_congr rfl fun i _ => forName_eq name app (hidentified i))

/-- A clerk of a shop that is in the file, and a driver that the browser has loaded. -/
theorem tab_shows_sample :
    let w : Work := ⟨"clerk", "shop", 3, .lit 5 1, 0⟩
    let acts : List (ℕ × Act) := [(0, .record w), (0, .next), (0, .next), (0, .next)]
    let v : Server :=
      ⟨[], .empty, ⟨(SortedMap.empty).insert "shop" .default⟩, fun _ => none,
        (acts.foldl (step id) start).shared.clients, ["app:shop", "name:clerk@shop"]⟩
    let tab := mergedApps (fun a b => decide (a ≤ b)) v.apps [⟨"shop", ["driver"]⟩]
    HasName tab "shop" "clerk" ∧ HasName tab "shop" "driver" ∧ ¬HasApp tab "bank" := by
  intro w acts v tab
  have hw : Auth.IsIdentifier w.sub ∧ Auth.IsIdentifier w.app :=
    ⟨⟨by decide, by decide, List.all_eq_true.mp (by decide)⟩,
      ⟨by decide, by decide, List.all_eq_true.mp (by decide)⟩⟩
  have hacts : ∀ a ∈ acts, a.2.Identified := by simp [acts, Act.Identified, hw]
  obtain ⟨-, happ, hname, -⟩ := @tab_shows v (fun a b => decide (a ≤ b)) [⟨"shop", ["driver"]⟩] id
    ℕ _ _ acts hacts rfl rfl (by decide)
  have hphase : ∀ i, (acts.foldl (step id) start).phase i = if i = 0 then .done w else .idle := by
    intro i
    by_cases h0 : i = 0
    · subst h0
      rfl
    · rw [if_neg h0]
      show (Publish.run (fun _ => advance id) start acts).phase i = start.phase i
      exact Publish.phase_run_of_ne (by simp [acts, Ne.symm h0])
  have hshop : (v.perms.apps.get? "shop").isSome = true := by decide
  refine ⟨(hname _ _).mpr (.inl ⟨.inl hshop, .inr ⟨0, w, .inr (hphase 0), rfl, rfl⟩⟩),
    (hname _ _).mpr (.inr ⟨_, List.mem_singleton_self _, rfl, List.mem_singleton_self _⟩),
    fun h => ?_⟩
  rcases (happ _).mp h with (hfile | ⟨i, w', hi, hbank⟩) | ⟨p, hp, hbank⟩
  · exact absurd hfile (by decide)
  · rw [hphase] at hi
    split at hi
    · obtain rfl := Recording.done.inj hi
      exact absurd hbank (by decide)
    · cases hi
  · obtain rfl := List.mem_singleton.mp hp
    exact absurd hbank (by decide)

end XavierDB.ClientsTab

import XavierDB.Auth.Access
import XavierDB.Perms.Widget
import XavierDB.Routes.Index
import XavierDB.Routes.Upsert

/-!
# What the data routes ask for (`src/routes_q.rs`)

A route under `/q/{db}/{coll}` checks the names in its path, then the caller,
then what it was sent, and only then asks `src/dbq.rs` for one command on that
collection. The caller chooses the values in a command, not its operators.
-/

namespace XavierDB.Routes

open Config (ConfigFile)
open Perms (PermissionsFile unauthorized)
open Perms.Widget (validPathSegment)
open Auth (Claims Jwt verifyJwt extractBearer checkBlock checkBlock_iff verifyJwt_ok)
open Dbq

/-! ## The caller -/

/-- `check_path`. -/
def checkPath (db coll : String) : Except ApiError Unit :=
  if !validPathSegment db true || !validPathSegment coll false then
    .error (.badRequest "invalid database or collection name")
  else .ok ()

/-- `authenticate`. -/
def authenticate (J : Jwt) (now : ℕ) (config : ConfigFile) (headers : HeaderMap) :
    Except ApiError Claims :=
  match extractBearer headers with
  | none => .error unauthorized
  | some t => do
    let claims ← verifyJwt J now t
    checkBlock config claims.sub claims.app
    pure claims

/-- `authorize`. -/
def authorize (J : Jwt) (now : ℕ) (config : ConfigFile) (perms : PermissionsFile)
    (headers : HeaderMap) (action db coll : String) : Except ApiError Claims := do
  let claims ← authenticate J now config headers
  if Perms.allows perms claims.sub claims.app action db coll then pure claims
  else .error ⟨.forbidden, "no " ++ action ++ " permission on " ++ db ++ "." ++ coll⟩

/-! ## The routes -/

structure WriteBody where
  filter : Option Json
  data : Option Json

/-- The routes under `/q/{db}/{coll}`, each with what it is sent. -/
inductive Route where
  | findDocs (q : FindQuery)
  | insertOrUpdate (body : WriteBody)
  | putUpdate (body : WriteBody)
  | patchUpsert (body : WriteBody)
  | deleteDocs (body : Json)
  | listIndexes
  | ensureIndex (body : EnsureIndexBody)
  | dropIndex (name : String)

/-- The permission that a route asks for. -/
def Route.action : Route → String
  | findDocs _ | listIndexes => "GET"
  | insertOrUpdate _ => "POST"
  | putUpdate _ => "PUT"
  | patchUpsert _ => "PATCH"
  | deleteDocs _ => "DELETE"
  | ensureIndex _ | dropIndex _ => "INDEX"

/-- What is asked of `src/dbq.rs`. -/
inductive Command where
  | find (filter : Document)
  | insertOne (doc : Document)
  | insertMany (docs : List Document)
  | updateMany (filter update : Document) (upsert : Bool)
  | bulkWrite (models : List WriteModel)
  | deleteMany (filter : Document)
  | listIndexes
  | ensureIndex (spec : IndexSpec)
  | dropIndex (name : String)

section

variable (T : TextForms) (P : String → Except String Json) (X : ExtJson) (C : CursorText)
  (form : Bson → Json) (mode : KeysetTypeBrackets) (maxBatch : ℕ)

/-- A filter in a body. -/
def bodyFilter (f : Json) : Res Document :=
  if hasScriptOperator f then scriptNotAllowed
  else do
    match ← (jsonToBson T f).mapError fun e => .api ⟨.invalidFilter, "invalid filter: " ++ e⟩ with
    | .document d => pure d
    | _ => Res.err .invalidFilter "filter must be a JSON object"

/-- `body_filter_data`. -/
def bodyFilterData (body : WriteBody) : Res (Document × Document) := do
  let filter ← (body.filter.elim (.ok []) (bodyFilter T) : Res Document)
  match body.data with
  | none => badRequest "missing data"
  | some d =>
    match ← bodyToBson T d with
    | .document data => pure (filter, data)
    | _ => badRequest "data must be a JSON object"

def setDocument (data : Document) : Document := [("$set", .document data)]

/-- The insert of `insert_or_update`. -/
def insertCommand (data : Option Json) : Res Command :=
  match data with
  | none => badRequest "missing data"
  | some data => do
    match ← bodyToBson T data with
    | .document doc => pure (.insertOne doc)
    | .array items => do
      let docs ← (batchToDocs form items maxBatch).mapError .api
      pure (.insertMany docs)
    | _ => badRequest "data must be a JSON object or an array of JSON objects"

/-- An update that must have a filter. -/
def filteredUpdate (body : WriteBody) (message : String) (upsert : Bool) : Res Command := do
  let (filter, data) ← bodyFilterData T body
  if filter.isEmpty then badRequest message
  else pure (.updateMany filter (setDocument data) upsert)

/-- `body.get("filter")`. -/
def filterEntry : Json → Option Json
  | .object m => m.lookup "filter"
  | _ => none

/-- The command of a request that is let through. -/
def Route.command (db coll : String) : Route → Res Command
  | findDocs q => (findFilter T P X C db coll mode q).map .find
  | insertOrUpdate body =>
    match body.filter with
    | none => insertCommand T form maxBatch body.data
    | some _ => do
      let (filter, data) ← bodyFilterData T body
      pure (.updateMany filter (setDocument data) false)
  | putUpdate body =>
    filteredUpdate T body "PUT requires a filter (use POST without filter to insert)" false
  | patchUpsert body =>
    match body.data with
    | some (.array items) =>
      ((Routes.patchUpsert T form body.filter items maxBatch).mapError .api).map .bulkWrite
    | _ => filteredUpdate T body "PATCH requires a filter" true
  | deleteDocs body =>
    match filterEntry body with
    | none => badRequest "missing filter"
    | some f => (bodyFilter T f).map .deleteMany
  | listIndexes => .ok .listIndexes
  | ensureIndex body => (ensureIndexSpec T body).map .ensureIndex
  | dropIndex name =>
    if name = "" then badRequest "index name must not be empty" else .ok (.dropIndex name)

/-- A request, up to its command. -/
def handle (J : Jwt) (now : ℕ) (config : ConfigFile) (perms : PermissionsFile)
    (headers : HeaderMap) (db coll : String) (r : Route) : Res (Claims × Command) := do
  (checkPath db coll).mapError .api
  let claims ← (authorize J now config perms headers r.action db coll).mapError .api
  let command ← r.command T P X C form mode maxBatch db coll
  pure (claims, command)

end

/-! ## What is let through -/

/-- The commands that an action stands for. Updates only set fields; only `PATCH`
upserts, and like `PUT` not without a filter. -/
inductive Grants : String → Command → Prop where
  | find (filter) : Grants "GET" (.find filter)
  | listIndexes : Grants "GET" .listIndexes
  | insertOne (doc) : Grants "POST" (.insertOne doc)
  | insertMany (docs) (hne : docs ≠ []) : Grants "POST" (.insertMany docs)
  | update (filter data) : Grants "POST" (.updateMany filter (setDocument data) false)
  | put (filter data) (hne : filter ≠ []) :
      Grants "PUT" (.updateMany filter (setDocument data) false)
  | patch (filter data) (hne : filter ≠ []) :
      Grants "PATCH" (.updateMany filter (setDocument data) true)
  | bulkWrite (docs) (hne : docs ≠ []) : Grants "PATCH" (.bulkWrite (bulkUpsert docs))
  | deleteMany (filter) : Grants "DELETE" (.deleteMany filter)
  | ensureIndex (spec) (hkeys : ∀ p ∈ spec.keys, isDirection p.2 = true) (hne : spec.keys ≠ []) :
      Grants "INDEX" (.ensureIndex spec)
  | dropIndex (name) (hne : name ≠ "") : Grants "INDEX" (.dropIndex name)

variable {T : TextForms} {P : String → Except String Json} {X : ExtJson} {C : CursorText}
  {form : Bson → Json} {mode : KeysetTypeBrackets} {maxBatch : ℕ} {J : Jwt} {now : ℕ}
  {config : ConfigFile} {perms : PermissionsFile} {headers : HeaderMap} {action db coll : String}
  {claims : Claims} {cmd : Command} {r : Route}

theorem checkPath_ok : checkPath db coll = .ok () ↔
    validPathSegment db true = true ∧ validPathSegment coll false = true := by
  unfold checkPath
  cases validPathSegment db true <;> cases validPathSegment coll false <;> simp

theorem authenticate_ok (h : authenticate J now config headers = .ok claims) :
    ∃ t, extractBearer headers = some t ∧ verifyJwt J now t = .ok claims ∧
      checkBlock config claims.sub claims.app = .ok () := by
  unfold authenticate at h
  split at h
  case h_1 => cases h
  case h_2 t ht =>
    obtain ⟨c, hc, h⟩ := bind_ok h
    obtain ⟨u, hblock, h⟩ := bind_ok h
    obtain rfl := Except.ok.inj h
    exact ⟨t, ht, hc, hblock⟩

theorem authorize_ok (h : authorize J now config perms headers action db coll = .ok claims) :
    authenticate J now config headers = .ok claims ∧
      Perms.allows perms claims.sub claims.app action db coll = true := by
  unfold authorize at h
  obtain ⟨c, hc, h⟩ := bind_ok h
  split at h
  case isTrue hallows =>
    obtain rfl := Except.ok.inj h
    exact ⟨hc, hallows⟩
  case isFalse => cases h

theorem handle_ok (h : handle T P X C form mode maxBatch J now config perms headers db coll r =
      .ok (claims, cmd)) :
    checkPath db coll = .ok () ∧
      authorize J now config perms headers r.action db coll = .ok claims ∧
      r.command T P X C form mode maxBatch db coll = .ok cmd := by
  unfold handle at h
  obtain ⟨u, hpath, h⟩ := bind_ok h
  obtain ⟨c, hc, h⟩ := bind_ok h
  obtain ⟨command, hcommand, h⟩ := bind_ok h
  obtain ⟨rfl, rfl⟩ := Prod.mk.inj (Except.ok.inj h)
  exact ⟨mapError_ok hpath, mapError_ok hc, hcommand⟩

/-! ### What is asked for -/

theorem bodyFilterData_ok {body : WriteBody} {filter data : Document}
    (h : bodyFilterData T body = .ok (filter, data)) :
    (body.filter = none ∧ filter = []) ∨
      ∃ f, body.filter = some f ∧ bodyFilter T f = .ok filter := by
  unfold bodyFilterData at h
  obtain ⟨filter', hfilter, h⟩ := bind_ok h
  have heq : filter' = filter := by
    split at h
    case h_1 => cases h
    case h_2 =>
      obtain ⟨b, -, h⟩ := bind_ok h
      split at h
      case h_1 => exact (Prod.mk.inj (Except.ok.inj h)).1
      case h_2 => cases h
  subst heq
  cases hf : body.filter with
  | none =>
    rw [hf] at hfilter
    exact .inl ⟨rfl, (Except.ok.inj hfilter).symm⟩
  | some f =>
    rw [hf] at hfilter
    exact .inr ⟨f, rfl, hfilter⟩

theorem filteredUpdate_ok {body : WriteBody} {message : String} {upsert : Bool}
    (h : filteredUpdate T body message upsert = .ok cmd) :
    ∃ filter data, bodyFilterData T body = .ok (filter, data) ∧ filter ≠ [] ∧
      cmd = .updateMany filter (setDocument data) upsert := by
  unfold filteredUpdate at h
  obtain ⟨⟨filter, data⟩, hbody, h⟩ := bind_ok h
  dsimp only at h
  split at h
  case isTrue => cases h
  case isFalse hne =>
    rw [List.isEmpty_iff] at hne
    exact ⟨filter, data, hbody, hne, (Except.ok.inj h).symm⟩

theorem insertCommand_ok {data : Option Json} (h : insertCommand T form maxBatch data = .ok cmd) :
    (∃ doc, cmd = .insertOne doc) ∨ ∃ docs, docs ≠ [] ∧ cmd = .insertMany docs := by
  unfold insertCommand at h
  split at h
  case h_1 => cases h
  case h_2 =>
    obtain ⟨b, -, h⟩ := bind_ok h
    split at h
    case h_1 doc => exact .inl ⟨doc, (Except.ok.inj h).symm⟩
    case h_2 items =>
      obtain ⟨docs, hdocs, h⟩ := bind_ok h
      obtain ⟨-, hne, -⟩ := batchToDocs_ok.mp (mapError_ok hdocs)
      exact .inr ⟨docs, hne, (Except.ok.inj h).symm⟩
    case h_3 => cases h

theorem patchUpsert_bulk {filter : Option Json} {items : List Json} {models : List WriteModel}
    (h : Routes.patchUpsert T form filter items maxBatch = .ok models) :
    ∃ docs, docs ≠ [] ∧ models = bulkUpsert docs ∧
      List.Forall₂ (fun v doc => jsonToBson T v = .ok (.document doc)) items docs := by
  obtain ⟨docs, hdocs, hmodels⟩ := patchUpsert_ok h
  refine ⟨docs, ?_, hmodels, hdocs⟩
  rintro rfl
  obtain rfl := List.forall₂_nil_right_iff.mp hdocs
  unfold Routes.patchUpsert at h
  split at h
  · cases h
  · cases h

theorem ensureIndexSpec_ok {body : EnsureIndexBody} {spec : IndexSpec}
    (h : ensureIndexSpec T body = .ok spec) :
    parseKeys T body.keys = .ok spec.keys ∧
      parsePartialFilter T body.partialFilterExpression = .ok spec.partialFilterExpression := by
  unfold ensureIndexSpec at h
  obtain ⟨keys, hkeys, h⟩ := bind_ok h
  obtain ⟨partialFilter, hfilter, h⟩ := bind_ok h
  split at h
  case isTrue => cases h
  case isFalse =>
    obtain rfl := Except.ok.inj h
    exact ⟨hkeys, hfilter⟩

theorem parseKeys_ok {v : Json} {d : Document} (h : parseKeys T v = .ok d) :
    d ≠ [] ∧ ∀ p ∈ d, isDirection p.2 = true := by
  unfold parseKeys at h
  obtain ⟨b, -, h⟩ := bind_ok h
  obtain ⟨d', -, h⟩ := bind_ok h
  split at h
  case isTrue => cases h
  case isFalse hne =>
    split at h
    case h_1 => cases h
    case h_2 hfind =>
      obtain rfl := Except.ok.inj h
      rw [List.isEmpty_iff] at hne
      refine ⟨hne, fun p hp => ?_⟩
      have hdir := List.find?_eq_none.mp hfind p hp
      rwa [Bool.not_eq_true', Bool.not_eq_false] at hdir

/-- A route asks for a command of its action. -/
theorem grants_command (h : r.command T P X C form mode maxBatch db coll = .ok cmd) :
    Grants r.action cmd := by
  cases r with
  | findDocs q =>
    obtain ⟨filter, -, rfl⟩ := map_ok h
    exact .find filter
  | insertOrUpdate body =>
    unfold Route.command at h
    dsimp only at h
    split at h
    case h_1 =>
      rcases insertCommand_ok h with ⟨doc, rfl⟩ | ⟨docs, hne, rfl⟩
      · exact .insertOne doc
      · exact .insertMany docs hne
    case h_2 =>
      obtain ⟨⟨filter, data⟩, -, h⟩ := bind_ok h
      obtain rfl := Except.ok.inj h
      exact .update filter data
  | putUpdate body =>
    obtain ⟨filter, data, -, hne, rfl⟩ := filteredUpdate_ok h
    exact .put filter data hne
  | patchUpsert body =>
    unfold Route.command at h
    dsimp only at h
    split at h
    case h_1 items =>
      obtain ⟨models, hmodels, rfl⟩ := map_ok h
      obtain ⟨docs, hne, rfl, -⟩ := patchUpsert_bulk (mapError_ok hmodels)
      exact .bulkWrite docs hne
    case h_2 =>
      obtain ⟨filter, data, -, hne, rfl⟩ := filteredUpdate_ok h
      exact .patch filter data hne
  | deleteDocs body =>
    unfold Route.command at h
    dsimp only at h
    split at h
    case h_1 => cases h
    case h_2 =>
      obtain ⟨filter, -, rfl⟩ := map_ok h
      exact .deleteMany filter
  | listIndexes =>
    obtain rfl := Except.ok.inj h
    exact .listIndexes
  | ensureIndex body =>
    obtain ⟨spec, hspec, rfl⟩ := map_ok h
    obtain ⟨hne, hkeys⟩ := parseKeys_ok (ensureIndexSpec_ok hspec).1
    exact .ensureIndex spec hkeys hne
  | dropIndex name =>
    unfold Route.command at h
    dsimp only at h
    split at h
    case isTrue => cases h
    case isFalse hne =>
      obtain rfl := Except.ok.inj h
      exact .dropIndex name hne

/-- **Nothing is asked of the database** that the caller was not let through for: the names
are in order, the token is good, neither the name nor the app is blocked, the permissions
allow the route's action on this very collection, and the command is one of that action. -/
theorem handle_mediated
    (h : handle T P X C form mode maxBatch J now config perms headers db coll r =
      .ok (claims, cmd)) :
    (validPathSegment db true = true ∧ validPathSegment coll false = true) ∧
      (∃ t, extractBearer headers = some t ∧ J.read t = some claims ∧
        (now / 1000 : ℕ) ≤ claims.exp + 5) ∧
      (claims.sub ++ "@" ++ claims.app ∉ config.blocked ∧ claims.app ∉ config.blocked) ∧
      Perms.allows perms claims.sub claims.app r.action db coll = true ∧
      Grants r.action cmd := by
  obtain ⟨hpath, hauthorize, hcommand⟩ := handle_ok h
  obtain ⟨hauthenticate, hallows⟩ := authorize_ok hauthorize
  obtain ⟨t, ht, hverify, hblock⟩ := authenticate_ok hauthenticate
  exact ⟨checkPath_ok.mp hpath, ⟨t, ht, verifyJwt_ok.mp hverify⟩, checkBlock_iff.mp hblock, hallows,
    grants_command hcommand⟩

/-- A clerk who may do everything in the shop's name. -/
def clerkPerms : PermissionsFile :=
  ⟨SortedMap.empty.insert "shop"
    { Perms.AppEntry.default with allow := [⟨["PATCH", "PUT"], ["*"], ["*"]⟩] }⟩

def clerkHeaders : HeaderMap := [("authorization", utf8Bytes "Bearer clerk-token")]

theorem authorize_clerk (action : String)
    (h : Perms.allows clerkPerms "clerk" "shop" action "db" "c" = true) :
    authorize Auth.sampleJwt 60000 (.default 0) clerkPerms clerkHeaders action "db" "c" =
      .ok Auth.clerkClaims := by
  have hauthenticate : authenticate Auth.sampleJwt 60000 (.default 0) clerkHeaders =
      .ok Auth.clerkClaims := by decide +kernel
  rw [authorize, hauthenticate]
  exact if_pos h

theorem handle_eq (hpath : checkPath db coll = .ok ())
    (hauthorize : authorize J now config perms headers r.action db coll = .ok claims)
    (hcommand : r.command T P X C form mode maxBatch db coll = .ok cmd) :
    handle T P X C form mode maxBatch J now config perms headers db coll r =
      .ok (claims, cmd) := by
  rw [handle, hpath, hauthorize, hcommand]
  rfl

/-- An update with a filter. -/
def clerkUpdate : Route :=
  .putUpdate ⟨some (.object [("a", .bool true)]), some (.object [("b", .null)])⟩

theorem handle_clerkUpdate : handle tableForms (fun _ => .error "") (tableJson []) cursorText
    numberForm .off 10 Auth.sampleJwt 60000 (.default 0) clerkPerms clerkHeaders "db" "c"
      clerkUpdate = .ok (Auth.clerkClaims,
        .updateMany [("a", .boolean true)] (setDocument [("b", .null)]) false) :=
  handle_eq (by decide +kernel) (authorize_clerk _ (by decide +kernel)) rfl

theorem handle_mediated_clerkUpdate :
    Perms.allows clerkPerms "clerk" "shop" "PUT" "db" "c" = true ∧
      Grants "PUT" (.updateMany [("a", .boolean true)] (setDocument [("b", .null)]) false) :=
  (handle_mediated handle_clerkUpdate).2.2.2

/-! ## Scripts in a write -/

/-- What the server takes for filters in a command. -/
def Command.filters : Command → List Document
  | find filter | deleteMany filter | updateMany filter _ _ => [filter]
  | bulkWrite models => models.filterMap fun
    | .updateOne filter _ _ => some filter
    | .insertOne _ => none
  | ensureIndex spec => spec.partialFilterExpression.toList
  | insertOne _ | insertMany _ | listIndexes | dropIndex _ => []

/-- No element of the batch has a script in its `_id`. -/
def IdsScriptFree (T : TextForms) (items : List Json) : Prop :=
  ∀ v ∈ items, ∀ doc id, jsonToBson T v = .ok (.document doc) →
    Document.get doc "_id" = some id → holdsScript id = false

theorem bodyFilter_scriptFree {f : Json} {filter : Document} (h : bodyFilter T f = .ok filter) :
    fieldsHoldScript filter = false := by
  unfold bodyFilter at h
  split at h
  case isTrue => cases h
  case isFalse hscript =>
    obtain ⟨b, hb, h⟩ := bind_ok h
    split at h
    case h_1 d =>
      obtain rfl := Except.ok.inj h
      exact holdsScript_jsonToBson f (eq_false_of_ne_true hscript) _ (mapError_ok hb)
    case h_2 => cases h

theorem bodyFilterData_scriptFree {body : WriteBody} {filter data : Document}
    (h : bodyFilterData T body = .ok (filter, data)) : fieldsHoldScript filter = false := by
  rcases bodyFilterData_ok h with ⟨-, rfl⟩ | ⟨f, -, hf⟩
  · rfl
  · exact bodyFilter_scriptFree hf

theorem parsePartialFilter_scriptFree {f : Option Json} {filter : Option Document}
    (h : parsePartialFilter T f = .ok filter) :
    ∀ d ∈ filter.toList, fieldsHoldScript d = false := by
  cases f with
  | none =>
    obtain rfl := Except.ok.inj h
    nofun
  | some v =>
    unfold parsePartialFilter at h
    dsimp only at h
    split at h
    case isTrue => cases h
    case isFalse hscript =>
      obtain ⟨b, hb, h⟩ := bind_ok h
      split at h
      case h_1 d =>
        obtain rfl := Except.ok.inj h
        intro d' hd'
        obtain rfl := List.mem_singleton.mp hd'
        exact holdsScript_jsonToBson v (eq_false_of_ne_true hscript) _ (mapError_ok hb)
      case h_2 => cases h

/-- The filters of a bulk write are on the `_id`s of its documents. -/
theorem filters_bulkUpsert {docs : List Document} {filter : Document} :
    filter ∈ (Command.bulkWrite (bulkUpsert docs)).filters ↔
      ∃ doc ∈ docs, ∃ id, Document.get doc "_id" = some id ∧ filter = [("_id", id)] := by
  rw [Command.filters, bulkUpsert, List.mem_filterMap]
  simp only [List.mem_map, exists_exists_and_eq_and]
  refine exists_congr fun doc => and_congr_right fun _ => ?_
  unfold writeModel
  cases Document.get doc "_id" with
  | none => simp
  | some id => simp [eq_comm]

theorem bulkUpsert_scriptFree_iff {items : List Json} {docs : List Document}
    (h : List.Forall₂ (fun v doc => jsonToBson T v = .ok (.document doc)) items docs) :
    (∀ f ∈ (Command.bulkWrite (bulkUpsert docs)).filters, fieldsHoldScript f = false) ↔
      IdsScriptFree T items := by
  have hone : ∀ id : Bson, fieldsHoldScript [("_id", id)] = holdsScript id := fun id => by
    have hkey : isScriptKey "_id" = false := by decide
    rw [fieldsHoldScript, hkey, fieldsHoldScript, Bool.false_or, Bool.or_false]
  have hfilters : (∀ f ∈ (Command.bulkWrite (bulkUpsert docs)).filters,
      fieldsHoldScript f = false) ↔
        ∀ doc ∈ docs, ∀ id, Document.get doc "_id" = some id → holdsScript id = false := by
    constructor
    · intro hall doc hdoc id hid
      rw [← hone]
      exact hall _ (filters_bulkUpsert.mpr ⟨doc, hdoc, id, hid, rfl⟩)
    · intro hall f hf
      obtain ⟨doc, hdoc, id, hid, rfl⟩ := filters_bulkUpsert.mp hf
      rw [hone]
      exact hall doc hdoc id hid
  rw [hfilters, IdsScriptFree]
  clear hfilters
  induction h with
  | nil => exact iff_of_true (by simp) (by simp)
  | @cons v doc items docs hread _ ih =>
    rw [List.forall_mem_cons, List.forall_mem_cons]
    refine and_congr ⟨fun hall doc' id hread' => ?_, fun hall id => hall doc id hread⟩ ih
    obtain rfl := Bson.document.inj (Except.ok.inj (hread.symm.trans hread'))
    exact hall id

/-- **No script operator reaches MongoDB** in a filter of any route but the read, except
through the `_id` of an element of a `PATCH` batch, which nothing checks. -/
theorem handle_scriptFree_iff (hread : ∀ q, r ≠ .findDocs q)
    (h : handle T P X C form mode maxBatch J now config perms headers db coll r =
      .ok (claims, cmd)) :
    (∀ f ∈ cmd.filters, fieldsHoldScript f = false) ↔
      ∀ body items, r = .patchUpsert body → body.data = some (.array items) →
        IdsScriptFree T items := by
  obtain ⟨-, -, hcommand⟩ := handle_ok h
  have hfree : ∀ {filter}, cmd.filters = [filter] → fieldsHoldScript filter = false →
      ∀ f ∈ cmd.filters, fieldsHoldScript f = false := by
    intro filter hone hscript f hf
    rw [hone] at hf
    rwa [List.mem_singleton.mp hf]
  cases r with
  | findDocs q => exact absurd rfl (hread q)
  | insertOrUpdate body =>
    refine iff_of_true ?_ nofun
    unfold Route.command at hcommand
    dsimp only at hcommand
    split at hcommand
    case h_1 =>
      rcases insertCommand_ok hcommand with ⟨doc, rfl⟩ | ⟨docs, -, rfl⟩
      · nofun
      · nofun
    case h_2 =>
      obtain ⟨⟨filter, data⟩, hbody, hcommand⟩ := bind_ok hcommand
      obtain rfl := Except.ok.inj hcommand
      exact hfree rfl (bodyFilterData_scriptFree hbody)
  | putUpdate body =>
    obtain ⟨filter, data, hbody, -, rfl⟩ := filteredUpdate_ok hcommand
    exact iff_of_true (hfree rfl (bodyFilterData_scriptFree hbody)) nofun
  | patchUpsert body =>
    unfold Route.command at hcommand
    dsimp only at hcommand
    split at hcommand
    case h_1 items hitems =>
      obtain ⟨models, hmodels, rfl⟩ := map_ok hcommand
      obtain ⟨docs, -, rfl, hdocs⟩ := patchUpsert_bulk (mapError_ok hmodels)
      rw [bulkUpsert_scriptFree_iff hdocs]
      constructor
      · rintro hall body' items' ⟨⟩ hitems'
        obtain rfl := Json.array.inj (Option.some.inj (hitems.symm.trans hitems'))
        exact hall
      · exact fun hall => hall body items rfl hitems
    case h_2 hnot =>
      obtain ⟨filter, data, hbody, -, rfl⟩ := filteredUpdate_ok hcommand
      refine iff_of_true (hfree rfl (bodyFilterData_scriptFree hbody)) ?_
      rintro body' items ⟨⟩ hitems
      exact absurd hitems (hnot items)
  | deleteDocs body =>
    refine iff_of_true ?_ nofun
    unfold Route.command at hcommand
    dsimp only at hcommand
    split at hcommand
    case h_1 => cases hcommand
    case h_2 f _ =>
      obtain ⟨filter, hfilter, rfl⟩ := map_ok hcommand
      exact hfree rfl (bodyFilter_scriptFree hfilter)
  | listIndexes =>
    obtain rfl := Except.ok.inj hcommand
    exact iff_of_true nofun nofun
  | ensureIndex body =>
    obtain ⟨spec, hspec, rfl⟩ := map_ok hcommand
    exact iff_of_true (parsePartialFilter_scriptFree (ensureIndexSpec_ok hspec).2) nofun
  | dropIndex name =>
    unfold Route.command at hcommand
    dsimp only at hcommand
    split at hcommand
    case isTrue => cases hcommand
    case isFalse =>
      obtain rfl := Except.ok.inj hcommand
      exact iff_of_true nofun nofun

/-- A batch whose one element has a script in its `_id`. -/
def scriptBatch : Route :=
  .patchUpsert ⟨none, some (.array [.object [("_id", .object [("$where", .string "1")])]])⟩

theorem handle_scriptFree_iff_scriptBatch :
    ¬∀ f ∈ (Command.bulkWrite
        (bulkUpsert [[("_id", .document [("$where", .string "1")])]])).filters,
      fieldsHoldScript f = false := by
  have hhandle : handle tableForms (fun _ => .error "") (tableJson []) cursorText numberForm .off 10
      Auth.sampleJwt 60000 (.default 0) clerkPerms clerkHeaders "db" "c" scriptBatch =
        .ok (Auth.clerkClaims,
          .bulkWrite (bulkUpsert [[("_id", .document [("$where", .string "1")])]])) :=
    handle_eq (by decide +kernel) (authorize_clerk _ (by decide +kernel)) rfl
  rw [handle_scriptFree_iff (r := scriptBatch) (fun q h => by cases h) hhandle]
  intro h
  have hids := h _ _ rfl rfl _ List.mem_cons_self
    [("_id", .document [("$where", .string "1")])] (.document [("$where", .string "1")]) rfl rfl
  revert hids
  decide

end XavierDB.Routes

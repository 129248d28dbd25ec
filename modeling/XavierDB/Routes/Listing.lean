import Mathlib.Data.List.Sort
import XavierDB.Bson.Json
import XavierDB.Dbq.FindDocs
import XavierDB.Perms.Listing

/-!
# `GET /ls` (`src/routes_q.rs`)

The databases or the collections that the caller may read. Databases come by
pages in the order of their names; a cursor holds the last name of its page.
Whether there are more is decided on their number as a `u32`.
-/

namespace XavierDB.Routes

open Paging
open Dbq (Cursor CursorText)
open Perms (PermissionsFile listableDatabases listableCollections)

/-- `serde_json` on a string. -/
structure StringText where
  write : String → String
  read : String → Option Json
  read_write : ∀ s, read (write s) = some (.string s)

structure ListParams where
  limit : Option UInt32
  cursor : Option String
  db : Option String

/-- What the server holds at a request: its databases and their collections,
the limit of the app, and where its cursor counter stands. -/
structure ListState where
  databases : List String
  collections : String → List String
  enforced : UInt32
  seq : Nat

inductive ListResponse where
  | collections (db : String) (names : List String)
  | databases (names : List String) (nextCursor : Option String) (hasMore : Bool)
    (limitApplied : Nat)

/-- `list_databases` (`src/dbq.rs`). -/
def listDatabases (names : List String) : List String :=
  names.filter fun n => n != "admin" && n != "local" && n != "config"

/-- `requested_limit`. -/
def requestedLimit (limit : Option UInt32) (enforced : UInt32) : UInt32 :=
  match limit with
  | none => enforced
  | some n => if n = 0 then enforced else min n enforced

/-- `make_list_cursor`. -/
def makeListCursor (J : StringText) (seq : Nat) (dbField collField lastName : String) : Cursor :=
  ⟨1, "c" ++ String.ofList (Nat.toDigits 16 seq), dbField, collField, [("name", 1)],
    [J.write lastName]⟩

/-- `cursor_last_name`. -/
def cursorLastName (J : StringText) (cur : Cursor) : Res String :=
  match J.read (cur.last.head?.getD "") with
  | some (.string s) => .ok s
  | _ => Res.err .invalidCursor "malformed listing cursor"

/-- The names that a page may begin with: those after the cursor's. -/
def afterCursor (T : CursorText) (J : StringText) (cursor : Option String) (names : List String) :
    Res (List String) :=
  match cursor with
  | none => .ok names
  | some c => do
    let cur ← Cursor.decode T c
    if cur.db != "*" || cur.coll != "*" then Res.err .invalidCursor "wrong listing cursor"
    else do
      let last ← cursorLastName J cur
      pure (names.filter fun d => last < d)

/-- `visible.len() as u32 > limit`. -/
def hasMore (visible : List String) (limit : UInt32) : Bool :=
  decide (limit < UInt32.ofNat visible.length)

variable (T : CursorText) (J : StringText) (p : PermissionsFile) (sub app : String)

/-- `list_visible` with a database. -/
def listCollections (s : ListState) (db : String) : Res ListResponse :=
  if !(listDatabases s.databases).any (· == db) then
    Res.err .notFound ("database '" ++ db ++ "' does not exist")
  else if (listableDatabases p sub app [db]).isEmpty then
    Res.err .forbidden ("no access to database '" ++ db ++ "'")
  else .ok (.collections db (listableCollections p sub app db (s.collections db)))

/-- `list_visible` without one; the last name of an empty page panics. -/
def listPage (s : ListState) (limit : Option UInt32) (cursor : Option String) : Res ListResponse :=
  if limit = some 0 then Res.err .invalidLimit "limit must be a positive integer"
  else do
    let limit := requestedLimit limit s.enforced
    let dbNames ← afterCursor T J cursor (listDatabases s.databases)
    let visible := listableDatabases p sub app (dbNames.insertionSort (· ≤ ·))
    let page := visible.take limit.toNat
    if hasMore visible limit then
      match page.getLast? with
      | none => .error .panic
      | some last =>
        pure (.databases page (some (T.encode (makeListCursor J s.seq "*" "*" last))) true
          page.length)
    else pure (.databases page none false page.length)

/-- `list_visible`. -/
def listVisible (s : ListState) (params : ListParams) : Res ListResponse :=
  match params.db with
  | some db => listCollections p sub app s db
  | none => listPage T J p sub app s params.limit params.cursor

/-! ## The client -/

structure ListRequest where
  limit : Option UInt32
  state : ListState

/-- One request of a walk. -/
def fetchList (r : ListRequest) (cursor : Option String) : Res (List String × Option String) := do
  match ← listVisible T J p sub app r.state ⟨r.limit, cursor, none⟩ with
  | .databases names nextCursor _ _ => pure (names, nextCursor)
  | .collections _ _ => .error .panic

def ListRequest.effective (r : ListRequest) : UInt32 := requestedLimit r.limit r.state.enforced

/-- A request of a walk over the databases `names`, which the server gives in any order. -/
structure ListRequest.Valid (names : List String) (r : ListRequest) : Prop where
  limit : r.limit ≠ some 0
  enforced : 1 ≤ r.state.enforced
  databases : r.state.databases.Perm names

/-- The databases the caller may list, in order. -/
def visibleDatabases (names : List String) : List String :=
  listableDatabases p sub app ((listDatabases names).insertionSort (· ≤ ·))

/-- The walk ends, no request is rejected, each page tells whether it has a
successor, and the pages are the databases in order. -/
structure ListsAll (names : List String) (rs : Nat → ListRequest) : Prop where
  pages : ∀ fuel, (visibleDatabases p sub app names).length < fuel →
    walk (fetchList T J p sub app) fuel rs none = .ok (some (visibleDatabases p sub app names))
  hasMore : ∀ i cursor page nextCursor more applied,
    listVisible T J p sub app (rs i).state ⟨(rs i).limit, cursor, none⟩ =
      .ok (.databases page nextCursor more applied) → (more = true ↔ nextCursor.isSome = true)

variable {T J p sub app} {names : List String} {r : ListRequest}

/-! ## Names in order -/

theorem pairwise_visibleDatabases (hnames : names.Nodup) :
    (visibleDatabases p sub app names).Pairwise (· < ·) := by
  have hnodup : ((listDatabases names).insertionSort (· ≤ ·)).Nodup :=
    (List.perm_insertionSort _ _).nodup_iff.mpr (hnames.filter _)
  have hle := List.pairwise_insertionSort (· ≤ ·) (listDatabases names)
  exact (hle.and hnodup |>.imp fun h => lt_of_le_of_ne h.1 h.2).filter _

/-- The server's order does not matter, and a filter may come before the sort. -/
theorem insertionSort_filter {l l' : List String} (h : l.Perm l') (q : String → Bool) :
    (l.filter q).insertionSort (· ≤ ·) = (l'.insertionSort (· ≤ ·)).filter q := by
  refine List.Perm.eq_of_pairwise' (List.pairwise_insertionSort (· ≤ ·) _)
    ((List.pairwise_insertionSort (· ≤ ·) l').filter q) ?_
  exact (List.perm_insertionSort _ _).trans
    ((h.trans (List.perm_insertionSort _ l').symm).filter q)

theorem visible_filter (h : r.Valid names) (q : String → Bool) :
    listableDatabases p sub app
        (((listDatabases r.state.databases).filter q).insertionSort (· ≤ ·)) =
      (visibleDatabases p sub app names).filter q := by
  have hperm : (listDatabases r.state.databases).Perm (listDatabases names) := h.databases.filter _
  unfold visibleDatabases listableDatabases
  rw [insertionSort_filter hperm q, List.filter_comm]

/-- In an ordered list what follows an element is what is greater. -/
theorem filter_lt_of_append {l A B : List String} {x : String} {q : String → Bool}
    (hl : l.Pairwise (· < ·)) (hq : ∀ y z, q y = true → y < z → q z = true)
    (h : l.filter q = A ++ x :: B) : l.filter (fun d => x < d) = B := by
  have hsorted : (A ++ x :: B).Pairwise (· < ·) := h ▸ hl.filter q
  obtain ⟨-, hx, hcross⟩ := List.pairwise_append.mp hsorted
  have hqx : q x = true := (List.mem_filter.mp (h ▸ List.mem_append_right A List.mem_cons_self)).2
  have hboth : l.filter (fun d => x < d) = (l.filter q).filter fun d => x < d := by
    rw [List.filter_filter]
    refine List.filter_congr fun d _ => ?_
    cases hd : decide (x < d) with
    | false => rfl
    | true => rw [hq x d hqx (of_decide_eq_true hd)]; rfl
  have hA : A.filter (fun d => x < d) = [] := List.filter_eq_nil_iff.mpr fun d hd hlt =>
    lt_asymm (hcross d hd x List.mem_cons_self) (of_decide_eq_true hlt)
  have hB : B.filter (fun d => x < d) = B := List.filter_eq_self.mpr fun d hd =>
    decide_eq_true ((List.pairwise_cons.mp hx).1 d hd)
  have hself : (x :: B).filter (fun d => x < d) = B.filter (fun d => x < d) :=
    List.filter_cons_of_neg fun hlt => lt_irrefl x (of_decide_eq_true hlt)
  rw [hboth, h, List.filter_append, hA, hself, hB, List.nil_append]

/-! ## One page -/

/-- What a position of a walk stands for. -/
def Stands (T : CursorText) (J : StringText) (all : List String) :
    Option String → List String → Prop
  | none, R => R = all
  | some s, R => ∃ seq last, s = T.encode (makeListCursor J seq "*" "*" last) ∧
      R = all.filter fun d => last < d

theorem hasMore_iff {visible : List String} {limit : UInt32} :
    hasMore visible limit = true ↔ limit.toNat < visible.length % 2 ^ 32 := by
  rw [hasMore, decide_eq_true_iff, UInt32.lt_iff_toNat_lt, UInt32.toNat_ofNat']

theorem requestedLimit_pos (h : r.Valid names) : 1 ≤ r.effective.toNat := by
  have henforced : 1 ≤ r.state.enforced.toNat := h.enforced
  unfold ListRequest.effective requestedLimit
  cases hl : r.limit with
  | none => exact henforced
  | some n =>
    have hn : n ≠ 0 := fun h0 => h.limit (by rw [hl, h0])
    have hpos : 1 ≤ n.toNat := by
      have := mt UInt32.toNat_inj.mp hn
      rw [UInt32.toNat_zero] at this
      omega
    dsimp only
    rw [if_neg hn, UInt32.toNat_min]
    omega

theorem Stands.afterCursor {all R : List String} {b : Option String} (hb : Stands T J all b R) :
    ∃ q : String → Bool, (∀ y z, q y = true → y < z → q z = true) ∧ R = all.filter q ∧
      ∀ l, Routes.afterCursor T J b l = .ok (l.filter q) := by
  cases b with
  | none =>
    refine ⟨fun _ => true, fun _ _ _ _ => rfl, ?_, fun l => ?_⟩
    · rw [List.filter_true]
      exact hb
    · rw [List.filter_true]
      rfl
  | some s =>
    obtain ⟨seq, last, rfl, rfl⟩ := hb
    refine ⟨fun d => last < d, fun y z hy hz => ?_, rfl, fun l => ?_⟩
    · exact decide_eq_true ((of_decide_eq_true hy).trans hz)
    · have hdecode : Cursor.decode T (T.encode (makeListCursor J seq "*" "*" last)) =
          .ok (makeListCursor J seq "*" "*" last) := by
        simp [Cursor.decode, T.parse_encode, makeListCursor]
      have hlast : cursorLastName J (makeListCursor J seq "*" "*" last) = .ok last := by
        rw [cursorLastName, makeListCursor, List.head?_cons, Option.getD_some, J.read_write]
      have hwild : ((makeListCursor J seq "*" "*" last).db != "*" ||
          (makeListCursor J seq "*" "*" last).coll != "*") = false := rfl
      simp only [Routes.afterCursor, hdecode, hlast, bind, Except.bind, pure, Except.pure]
      exact if_neg (by rw [hwild]; exact Bool.false_ne_true)

theorem listPage_eq {s : ListState} {limit : Option UInt32} {cursor : Option String}
    {dbNames : List String} (hlimit : limit ≠ some 0)
    (hcursor : afterCursor T J cursor (listDatabases s.databases) = .ok dbNames) :
    listPage T J p sub app s limit cursor =
      let visible := listableDatabases p sub app (dbNames.insertionSort (· ≤ ·))
      let page := visible.take (requestedLimit limit s.enforced).toNat
      if hasMore visible (requestedLimit limit s.enforced) then
        match page.getLast? with
        | none => .error .panic
        | some last => .ok (.databases page
            (some (T.encode (makeListCursor J s.seq "*" "*" last))) true page.length)
      else .ok (.databases page none false page.length) := by
  rw [listPage, if_neg hlimit, hcursor]
  rfl

/-- A request reads the page its position stands for. -/
theorem fetchList_eq (h : r.Valid names) {b : Option String} {R : List String}
    (hb : Stands T J (visibleDatabases p sub app names) b R) :
    fetchList T J p sub app r b =
      if hasMore R r.effective then
        match (R.take r.effective.toNat).getLast? with
        | none => .error .panic
        | some last => .ok (R.take r.effective.toNat,
            some (T.encode (makeListCursor J r.state.seq "*" "*" last)))
      else .ok (R.take r.effective.toNat, none) := by
  obtain ⟨q, -, rfl, hcursor⟩ := hb.afterCursor
  have hpage := @listPage_eq T J p sub app r.state r.limit b _ h.limit (hcursor _)
  rw [visible_filter h q, ← ListRequest.effective] at hpage
  rw [fetchList, listVisible, hpage]
  generalize (visibleDatabases p sub app names).filter q = R
  dsimp only
  by_cases hmore : hasMore R r.effective = true
  · rw [if_pos hmore, if_pos hmore]
    cases (R.take r.effective.toNat).getLast? <;> rfl
  · rw [if_neg hmore, if_neg hmore]
    rfl

/-- A page with a successor. -/
theorem fetchList_more (h : r.Valid names) {b : Option String} {A B : List String} {x : String}
    (hnames : names.Nodup) (hb : Stands T J (visibleDatabases p sub app names) b (A ++ x :: B))
    (hsize : r.effective.toNat = A.length + 1) (hmore : hasMore (A ++ x :: B) r.effective = true) :
    ∃ b', fetchList T J p sub app r b = .ok (A ++ [x], some b') ∧
      Stands T J (visibleDatabases p sub app names) (some b') B := by
  have htake : (A ++ x :: B).take r.effective.toNat = A ++ [x] := by
    rw [hsize, List.append_cons, List.take_left' (by simp)]
  refine ⟨T.encode (makeListCursor J r.state.seq "*" "*" x), ?_, r.state.seq, x, rfl, ?_⟩
  · rw [fetchList_eq h hb, if_pos hmore, htake, List.getLast?_concat]
  · obtain ⟨q, hq, hR, -⟩ := hb.afterCursor
    exact (filter_lt_of_append (pairwise_visibleDatabases hnames) hq hR.symm).symm

/-! ## Walks -/

theorem serves_fetchList (hnames : names.Nodup) :
    Serves (fetchList T J p sub app) (fun r : ListRequest => r.effective.toNat)
      (ListRequest.Valid names) (fun _ => False)
      (fun b R => Stands T J (visibleDatabases p sub app names) b R ∧ R.length < 2 ^ 32)
      (fun _ => True) where
  pos := requestedLimit_pos
  last {b R r} h hb hle := by
    have hnot : ¬hasMore R r.effective = true := by
      rw [hasMore_iff, Nat.mod_eq_of_lt hb.2]
      omega
    rw [fetchList_eq h hb.1, if_neg hnot, List.take_of_length_le hle]
  more {b r A x B} h hb hsize hB _ := by
    have hlen : (A ++ x :: B).length = A.length + 1 + B.length := by
      rw [List.length_append, List.length_cons]
      omega
    have hpos := List.length_pos_iff.mpr hB
    have hmore : hasMore (A ++ x :: B) r.effective = true := by
      rw [hasMore_iff, Nat.mod_eq_of_lt hb.2]
      omega
    obtain ⟨b', hpage, hb'⟩ := fetchList_more h hnames hb.1 hsize hmore
    exact .inl ⟨b', hpage, hb', by have := hb.2; omega⟩

/-- From `2 ^ 32` names on some page takes itself for the last. -/
theorem walk_ne (hnames : names.Nodup) {fuel : Nat} {rs : Nat → ListRequest}
    (hrs : ∀ i, (rs i).Valid names) {b : Option String} {R : List String}
    (hb : Stands T J (visibleDatabases p sub app names) b R) (hR : 2 ^ 32 ≤ R.length) :
    walk (fetchList T J p sub app) fuel rs b ≠ .ok (some R) := by
  induction fuel generalizing rs b R with
  | zero => exact fun h => by cases h
  | succ fuel ih =>
    have hsize := (rs 0).effective.toNat_lt
    have hpos := requestedLimit_pos (hrs 0)
    intro hwalk
    by_cases hmore : hasMore R (rs 0).effective = true
    · -- the number as a `u32` is above the limit, so at least `2 ^ 32` names are left after the page
      obtain ⟨A, x, B, rfl, hA, -⟩ := exists_cut hpos (by omega : _ < R.length)
      obtain ⟨b', hpage, hb'⟩ := fetchList_more (hrs 0) hnames hb hA hmore
      rw [hasMore_iff] at hmore
      have hlen : (A ++ x :: B).length = A.length + 1 + B.length := by
        rw [List.length_append, List.length_cons]
        omega
      rcases walk_ok hwalk with hend | ⟨page, b'', rest, hmid, hrest, hcut⟩
      · rw [hpage] at hend
        exact absurd (Prod.mk.inj (Except.ok.inj hend)).2 (Option.some_ne_none _)
      · rw [hpage] at hmid
        obtain ⟨rfl, hnext⟩ := Prod.mk.inj (Except.ok.inj hmid)
        obtain rfl := Option.some.inj hnext
        rw [List.append_cons] at hcut
        obtain rfl := List.append_cancel_left hcut
        exact ih (fun i => hrs (i + 1)) hb' (by omega) hrest
    · -- the page is cut off
      have hpage := fetchList_eq (hrs 0) hb
      rw [if_neg hmore] at hpage
      rcases walk_ok hwalk with hend | ⟨page, b'', rest, hmid, -, -⟩
      · rw [hpage] at hend
        have hall := congrArg List.length (Prod.mk.inj (Except.ok.inj hend)).1
        rw [List.length_take] at hall
        omega
      · rw [hpage] at hmid
        cases hmid

theorem hasMore_iff_nextCursor {s : ListState} {limit : Option UInt32}
    {cursor nextCursor : Option String} {page : List String} {more : Bool} {applied : Nat}
    (h : listVisible T J p sub app s ⟨limit, cursor, none⟩ =
      .ok (.databases page nextCursor more applied)) : more = true ↔ nextCursor.isSome = true := by
  replace h : listPage T J p sub app s limit cursor =
      .ok (.databases page nextCursor more applied) := h
  unfold listPage at h
  split at h
  case isTrue => cases h
  case isFalse =>
    obtain ⟨dbNames, -, h⟩ := bind_ok h
    dsimp only at h
    split at h
    case isTrue =>
      split at h
      case h_1 => cases h
      case h_2 => cases h; exact iff_of_true rfl rfl
    case isFalse => cases h; exact iff_of_false Bool.false_ne_true Bool.false_ne_true

/-- Paging returns every visible database once exactly where there are fewer than `2 ^ 32`. -/
theorem listsAll_iff (hnames : names.Nodup) {rs : Nat → ListRequest}
    (hrs : ∀ i, (rs i).Valid names) :
    ListsAll T J p sub app names rs ↔ (visibleDatabases p sub app names).length < 2 ^ 32 := by
  constructor
  · intro h
    by_contra hge
    have hstart : Stands T J (visibleDatabases p sub app names) none
        (visibleDatabases p sub app names) := rfl
    exact walk_ne hnames hrs hstart (by omega) (h.pages _ (Nat.lt_succ_self _))
  · intro hlt
    refine ⟨fun fuel hfuel => ?_, fun i cursor page next more applied => hasMore_iff_nextCursor⟩
    exact (serves_fetchList hnames).walk_eq ⟨rfl, hlt⟩ hrs (fun _ _ => trivial) hfuel

theorem length_visibleDatabases_le :
    (visibleDatabases p sub app names).length ≤ names.length := by
  refine (List.length_filter_le _ _).trans ?_
  rw [List.length_insertionSort]
  exact List.length_filter_le _ _

/-- **Paging `GET /ls`** returns every visible database once. The server's list of its
databases is one document and holds fewer than `2 ^ 32`. -/
theorem listsAll_of_length_lt (hnames : names.Nodup) (hlen : names.length < 2 ^ 32)
    {rs : Nat → ListRequest} (hrs : ∀ i, (rs i).Valid names) :
    ListsAll T J p sub app names rs :=
  (listsAll_iff hnames hrs).mpr (length_visibleDatabases_le.trans_lt hlen)

/-- What `serde_json` writes of a string without characters to escape. -/
def quotedText : StringText where
  write s := "\"" ++ s ++ "\""
  read s := some (.string (String.ofList s.toList.tail.dropLast))
  read_write s := by simp

/-- A grant on everything. -/
def readsAll : PermissionsFile :=
  ⟨SortedMap.empty.insert "app" ⟨none, [⟨["GET"], ["*"], ["*"]⟩], [], .empty⟩⟩

/-- A walk over the databases `names` by pages of one. -/
def onePerPage (names : List String) (i : Nat) : ListRequest := ⟨some 1, names, fun _ => [], 100, i⟩

theorem onePerPage_valid (names : List String) (i : Nat) : (onePerPage names i).Valid names where
  limit := by simp [onePerPage]
  enforced := show (1 : UInt32) ≤ 100 by decide
  databases := .refl _

theorem listsAll_onePerPage :
    visibleDatabases readsAll "user" "app" ["b", "admin", "a"] = ["a", "b"] ∧
      ListsAll Dbq.cursorText quotedText readsAll "user" "app" ["b", "admin", "a"]
        (onePerPage ["b", "admin", "a"]) :=
  ⟨by decide +kernel, listsAll_of_length_lt (by decide) (by decide) (onePerPage_valid _)⟩

/-- `n` databases with numbers for names. -/
def numbered (n : Nat) : List String := (List.range n).map Nat.repr

theorem nodup_numbered (n : Nat) : (numbered n).Nodup := by
  refine List.Nodup.map (fun i j h => ?_) List.nodup_range
  have hdigits := congrArg String.toList h
  rw [Nat.toList_repr, Nat.toList_repr] at hdigits
  rw [← @Nat.ofDigitChars_ten_toDigits i, hdigits, Nat.ofDigitChars_ten_toDigits]

theorem repr_ne {c : Char} (hc : c.isDigit = false) {s : String} (hs : c ∈ s.toList) (i : Nat) :
    i.repr ≠ s := by
  rintro rfl
  rw [Nat.toList_repr] at hs
  have hdigit := Nat.isDigit_of_mem_toDigits (by omega) (by omega) hs
  rw [hc] at hdigit
  cases hdigit

theorem readsAll_accessible (db : String) :
    Perms.dbAccessible readsAll "user" "app" db = true := by
  have happ : readsAll.apps.get? "app" = some ⟨none, [⟨["GET"], ["*"], ["*"]⟩], [], .empty⟩ := rfl
  have hget : Perms.hasGet [⟨["GET"], ["*"], ["*"]⟩] db = true := by
    simp [Perms.hasGet, Perms.Rule.concerns, Perms.globMatch_star]
  unfold Perms.dbAccessible
  rw [happ]
  exact hget

theorem length_visible_numbered (n : Nat) :
    (visibleDatabases readsAll "user" "app" (numbered n)).length = n := by
  have hlist : listDatabases (numbered n) = numbered n := by
    refine List.filter_eq_self.mpr fun d hd => ?_
    obtain ⟨i, -, rfl⟩ := List.mem_map.mp hd
    have h₁ : i.repr ≠ "admin" := @repr_ne 'a' rfl _ (by decide) i
    have h₂ : i.repr ≠ "local" := @repr_ne 'a' rfl _ (by decide) i
    have h₃ : i.repr ≠ "config" := @repr_ne 'c' rfl _ (by decide) i
    simp [h₁, h₂, h₃]
  have hvisible : visibleDatabases readsAll "user" "app" (numbered n) =
      (numbered n).insertionSort (· ≤ ·) := by
    rw [visibleDatabases, hlist, Perms.listableDatabases]
    exact List.filter_eq_self.mpr fun d _ => readsAll_accessible d
  rw [hvisible, List.length_insertionSort, numbered, List.length_map, List.length_range]

/-- With `2 ^ 32` databases the first page is taken for the last. -/
theorem listsAll_wrapped :
    (numbered (2 ^ 32)).Nodup ∧
      (∀ i, (onePerPage (numbered (2 ^ 32)) i).Valid (numbered (2 ^ 32))) ∧
      ¬ListsAll Dbq.cursorText quotedText readsAll "user" "app" (numbered (2 ^ 32))
        (onePerPage (numbered (2 ^ 32))) := by
  refine ⟨nodup_numbered _, onePerPage_valid _, fun h => ?_⟩
  have hlen := length_visible_numbered (2 ^ 32)
  have hstart : Stands Dbq.cursorText quotedText
      (visibleDatabases readsAll "user" "app" (numbered (2 ^ 32))) none
      (visibleDatabases readsAll "user" "app" (numbered (2 ^ 32))) := rfl
  have hpages := h.pages _ (Nat.lt_succ_self _)
  exact walk_ne (nodup_numbered _) (onePerPage_valid _) hstart hlen.ge hpages

end XavierDB.Routes

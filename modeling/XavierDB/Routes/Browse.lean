import XavierDB.Base.Live
import XavierDB.Routes.Listing

/-!
# `GET /ls` on a server in use (`src/routes_q.rs`)

Between the pages of a walk databases come and go and the permissions change.
A cursor holds the last name of its page, which need not exist any more.
-/

namespace XavierDB.Routes

open Paging
open Dbq (CursorText)
open Perms (PermissionsFile listableDatabases)

variable (T : CursorText) (J : StringText) (sub app : String)

/-- A request of a walk, with the permissions in force. -/
structure BrowseRequest where
  perms : PermissionsFile
  request : ListRequest

/-- One request of a walk on a server in use. -/
def fetchBrowse (r : BrowseRequest) (cursor : Option String) :
    Res (List String × Option String) :=
  fetchList T J r.perms sub app r.request cursor

/-- The databases the caller may list at a request, in order. -/
def BrowseRequest.visible (r : BrowseRequest) : List String :=
  visibleDatabases r.perms sub app r.request.state.databases

structure BrowseRequest.Valid (r : BrowseRequest) : Prop where
  limit : r.request.limit ≠ some 0
  enforced : 1 ≤ r.request.state.enforced
  nodup : r.request.state.databases.Nodup
  /-- As many as a `u32` counts. -/
  fits : (r.visible sub app).length < 2 ^ 32

/-- The text of a cursor made at `name`. -/
def NameText (name s : String) : Prop := ∃ seq, s = T.encode (makeListCursor J seq "*" "*" name)

variable {T J sub app} {r : BrowseRequest}

theorem BrowseRequest.Valid.request (h : r.Valid sub app) :
    r.request.Valid r.request.state.databases := ⟨h.limit, h.enforced, .refl _⟩

theorem mem_visible {db : String} :
    db ∈ r.visible sub app ↔ db ∈ listDatabases r.request.state.databases ∧
      Perms.dbAccessible r.perms sub app db = true := by
  rw [BrowseRequest.visible, visibleDatabases, listableDatabases, List.mem_filter,
    (List.perm_insertionSort _ _).mem_iff]

theorem ranks_names : Ranks (fun a b : String => a < b) Eq where
  irrefl := lt_irrefl
  trans := lt_trans
  equiv := eq_equivalence
  right h := h ▸ Iff.rfl

/-- A mark stands for the names after it, there or not. -/
theorem stands_of_marks {all : List String} {o s : Option String}
    (h : Marks (NameText T J) o s) :
    Stands T J all s (all.filter fun d => After (fun a b : String => a < b) o d) := by
  cases o with
  | none =>
    cases s with
    | some s => exact h.elim
    | none => exact List.filter_eq_self.mpr fun d _ => decide_eq_true trivial
  | some name =>
    cases s with
    | none => exact h.elim
    | some s =>
      obtain ⟨seq, rfl⟩ := h
      exact ⟨seq, name, rfl, rfl⟩

/-- The pages of `GET /ls` follow a server in use. -/
theorem follows_fetchBrowse :
    Follows (fetchBrowse T J sub app) (BrowseRequest.visible sub app)
      (fun a b : String => a < b) (NameText T J) (BrowseRequest.Valid sub app) where
  sorted h := pairwise_visibleDatabases h.nodup
  page {r o s} h hs := by
    have hpos := requestedLimit_pos h.request
    have hstands : Stands T J (r.visible sub app) s _ := stands_of_marks hs
    have hfetch := fetchList_eq h.request hstands
    rw [fetchBrowse]
    generalize hR : ((r.visible sub app).filter fun d =>
      After (fun a b : String => a < b) o d) = R at hfetch
    have hlen : R.length < 2 ^ 32 := by
      have hle := List.length_filter_le
        (fun d => decide (After (fun a b : String => a < b) o d)) (r.visible sub app)
      rw [hR] at hle
      exact lt_of_le_of_lt hle h.fits
    rcases Nat.lt_or_ge r.request.effective.toNat R.length with hlt | hge
    · obtain ⟨A, x, B, rfl, hsize, -⟩ := exists_cut hpos hlt
      have hmore : hasMore (A ++ x :: B) r.request.effective = true := by
        rw [hasMore_iff, Nat.mod_eq_of_lt hlen]
        exact hlt
      refine .inr ⟨A, x, B, T.encode (makeListCursor J r.request.state.seq "*" "*" x), rfl, ?_, ?_⟩
      · have htake : (A ++ x :: B).take r.request.effective.toNat = A ++ [x] := by
          rw [hsize, List.append_cons, List.take_left' (by simp)]
        rw [hfetch, if_pos hmore, htake, List.getLast?_concat]
      · exact ⟨_, rfl⟩
    · left
      have hnot : ¬hasMore R r.request.effective = true := by
        rw [hasMore_iff, Nat.mod_eq_of_lt hlen]
        omega
      rw [hfetch, if_neg hnot, List.take_of_length_le hge]

/-- **Paging `GET /ls` on a server in use** never fails. It lists names in order, none
twice, each one visible to the caller at some request of the walk, and each one that
was visible at all of them. It ends when the names it can meet are fewer than its
requests. -/
theorem listVisible_walk_in_use {rs : ℕ → BrowseRequest} {n : ℕ}
    (hv : ∀ i, i < n → (rs i).Valid sub app) :
    (∃ w, walk (fetchBrowse T J sub app) n rs none = .ok w) ∧
      (∀ all : List String, (∀ i, i < n → (rs i).request.state.databases ⊆ all) →
        all.length < n → ∃ out, walk (fetchBrowse T J sub app) n rs none = .ok (some out)) ∧
      ∀ out, walk (fetchBrowse T J sub app) n rs none = .ok (some out) →
        out.Pairwise (fun a b => a < b) ∧
        (∀ db ∈ out, ∃ i, i < n ∧ db ∈ listDatabases (rs i).request.state.databases ∧
          Perms.dbAccessible (rs i).perms sub app db = true) ∧
        ∀ db, (∀ i, i < n → db ∈ listDatabases (rs i).request.state.databases ∧
          Perms.dbAccessible (rs i).perms sub app db = true) → db ∈ out := by
  have hfollows : Follows (fetchBrowse T J sub app) _ _ _ _ := follows_fetchBrowse
  refine ⟨hfollows.walk_ok (o := none) hv trivial, fun all hall hn => ?_, fun out hout => ?_⟩
  · refine hfollows.walk_ends (o := none) ranks_names hv
      (fun i hi db hdb => hall i hi (List.mem_of_mem_filter (mem_visible.mp hdb).1)) trivial ?_
    exact lt_of_le_of_lt (List.length_filter_le _ _) hn
  · have h := hfollows.walk_complete (o := none) (b := none) ranks_names hv trivial hout
    refine ⟨h.ordered, fun db hdb => ?_, fun db hdb => ?_⟩
    · obtain ⟨i, hi, hmem⟩ := h.seen db hdb
      exact ⟨i, hi, mem_visible.mp hmem⟩
    · obtain ⟨i, -, hmem⟩ := h.stayed (fun _ => db)
        (fun i hi => ⟨mem_visible.mpr (hdb i hi), rfl⟩) trivial
      exact hmem

/-- The database of the first cursor is dropped before the second request. -/
theorem listVisible_walk_in_use_dropped :
    ∃ out, walk (fetchBrowse Dbq.cursorText quotedText "user" "app") 4
      (fun i => ⟨readsAll, onePerPage (if i = 0 then ["b", "a"] else ["c", "b"]) i⟩) none =
        .ok (some out) ∧ "b" ∈ out := by
  have hv : ∀ i, i < 4 → (BrowseRequest.mk readsAll
      (onePerPage (if i = 0 then ["b", "a"] else ["c", "b"]) i)).Valid "user" "app" := by
    intro i _
    by_cases hi : i = 0
    · rw [if_pos hi]
      exact ⟨by simp [onePerPage], show (1 : UInt32) ≤ 100 by decide,
        (by decide : ["b", "a"].Nodup), (by decide +kernel :
          (visibleDatabases readsAll "user" "app" ["b", "a"]).length < 2 ^ 32)⟩
    · rw [if_neg hi]
      exact ⟨by simp [onePerPage], show (1 : UInt32) ≤ 100 by decide,
        (by decide : ["c", "b"].Nodup), (by decide +kernel :
          (visibleDatabases readsAll "user" "app" ["c", "b"]).length < 2 ^ 32)⟩
  obtain ⟨-, hends, hlists⟩ := listVisible_walk_in_use (T := Dbq.cursorText) (J := quotedText) hv
  obtain ⟨out, hout⟩ := hends ["a", "b", "c"]
    (fun i _ => by by_cases hi : i = 0 <;> simp [hi, onePerPage]) (by decide)
  obtain ⟨-, -, hstays⟩ := hlists out hout
  refine ⟨out, hout, hstays "b" fun i _ => ⟨?_, readsAll_accessible "b"⟩⟩
  by_cases hi : i = 0 <;> simp [hi, onePerPage, listDatabases]

end XavierDB.Routes

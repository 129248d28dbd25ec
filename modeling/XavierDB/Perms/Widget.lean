import XavierDB.Base.RegExp
import XavierDB.Base.Utf16
import XavierDB.Perms.Allows

/-!
# The access check of the dashboard (`src/assets/ts/perm-widget.ts`)

The browser goes through the flat list of effective rules with a glob of its
own, a regular expression over UTF-16 code units.
-/

namespace XavierDB.Perms.Widget

open Wildcard RegExp

/-! ## The glob of the browser -/

/-- The class of `.replace(/[.+^${}()|[\]\\]/g, "\\$&")`. -/
def escaped : List Nat := ".+^$\x7b\x7d()|[]\\".toList.map Char.toNat

def escape (u : Nat) : List Nat := if u ∈ escaped then ['\\'.toNat, u] else [u]

/-- `.replace(/\*/g, ".*")`. -/
def stars (u : Nat) : List Nat := if u = '*'.toNat then ['.'.toNat, '*'.toNat] else [u]

/-- `.replace(/\?/g, ".")`. -/
def questions (u : Nat) : List Nat := if u = '?'.toNat then ['.'.toNat] else [u]

/-- The source of the regular expression of `glob`. -/
def source (pattern : List Nat) : List Nat :=
  '^'.toNat :: (((pattern.flatMap escape).flatMap stars).flatMap questions ++ ['$'.toNat])

/-- `glob`. -/
def glob (pattern value : List Nat) : Bool :=
  if pattern = utf16 "*" ∨ pattern = utf16 "**" then true
  else test (compile (source pattern)) value

/-- One badge of `runCheck`: its class and its text. -/
def badge (action : String) (verdict : Bool) : String × String :=
  ("badge " ++ (if verdict then "ok" else "bad"), action ++ " " ++ (if verdict then "✓" else "✗"))

/-- `runCheck`. The rules and the names come as JavaScript strings. -/
def runCheck (db coll : String) (eff : List EffectiveRule) : List (String × String) :=
  actions.map fun action =>
    badge action (firstVerdict (fun p v => glob (utf16 p) (utf16 v)) action db coll eff)

/-! ## What the regular expression says -/

/-- What a unit of a pattern stands for. -/
def tokenOfUnit (u : Nat) : Token Nat :=
  if u = '?'.toNat then .one else if u = '*'.toNat then .many else .lit u

/-- What a unit of a pattern becomes. -/
def piece (u : Nat) : List Nat := ((escape u).flatMap stars).flatMap questions

theorem flatMap_piece (pattern : List Nat) :
    ((pattern.flatMap escape).flatMap stars).flatMap questions = pattern.flatMap piece := by
  induction pattern with
  | nil => rfl
  | cons u pattern ih =>
    rw [List.flatMap_cons, List.flatMap_append, List.flatMap_append, ih, List.flatMap_cons, piece]

/-- The four kinds of units of a pattern. -/
theorem piece_cases (u : Nat) :
    (u = '?'.toNat ∧ piece u = ['.'.toNat]) ∨ (u = '*'.toNat ∧ piece u = ['.'.toNat, '*'.toNat]) ∨
    (u ∈ syntaxChars ∧ tokenOfUnit u = .lit u ∧ piece u = ['\\'.toNat, u]) ∨
    (u ∉ syntaxChars ∧ tokenOfUnit u = .lit u ∧ piece u = [u]) := by
  by_cases hu : u ∈ syntaxChars
  · have : ∀ u ∈ syntaxChars, (u = '?'.toNat ∧ piece u = ['.'.toNat]) ∨
        (u = '*'.toNat ∧ piece u = ['.'.toNat, '*'.toNat]) ∨
        (tokenOfUnit u = .lit u ∧ piece u = ['\\'.toNat, u]) := by decide
    rcases this u hu with h | h | h
    · exact .inl h
    · exact .inr (.inl h)
    · exact .inr (.inr (.inl ⟨hu, h⟩))
  · have hsub : ∀ u ∈ escaped, u ∈ syntaxChars := by decide
    have h1 : u ≠ '*'.toNat := fun h => hu (h ▸ by decide)
    have h2 : u ≠ '?'.toNat := fun h => hu (h ▸ by decide)
    refine .inr (.inr (.inr ⟨hu, by rw [tokenOfUnit, if_neg h2, if_neg h1], ?_⟩))
    rw [piece, escape, if_neg (mt (hsub u) hu), List.flatMap_singleton, stars, if_neg h1,
      List.flatMap_singleton, questions, if_neg h2]

theorem head?_body (pattern : List Nat) :
    (pattern.flatMap piece ++ ['$'.toNat]).head? ≠ some '*'.toNat := by
  cases pattern with
  | nil => decide
  | cons u pattern =>
    rw [List.flatMap_cons]
    rcases piece_cases u with ⟨-, h⟩ | ⟨-, h⟩ | ⟨-, -, h⟩ | ⟨hu, -, h⟩
    · simp [h]
    · simp [h]
    · simp [h]
    · have : u ≠ '*'.toNat := fun h => hu (h ▸ by decide)
      simpa [h] using this

theorem parse_body (pattern : List Nat) :
    parse (pattern.flatMap piece ++ ['$'.toNat]) = some (pattern.map tokenOfUnit) := by
  induction pattern with
  | nil => exact parse_end
  | cons u pattern ih =>
    have hne : pattern.flatMap piece ++ ['$'.toNat] ≠ [] := by simp
    rw [List.flatMap_cons, List.append_assoc, List.map_cons]
    rcases piece_cases u with ⟨rfl, h⟩ | ⟨rfl, h⟩ | ⟨hu, ht, h⟩ | ⟨hu, ht, h⟩
    · rw [h, List.singleton_append, parse_one hne (head?_body pattern), ih]
      rfl
    · rw [h, List.cons_append, List.singleton_append, parse_many, ih]
      rfl
    · rw [h, List.cons_append, List.singleton_append, parse_escape hu, ih, ht]
      rfl
    · rw [h, List.singleton_append, parse_lit hu hne, ih, ht]
      rfl

/-- Every pattern makes a regular expression, whose atoms are its units. -/
theorem compile_source (pattern : List Nat) :
    compile (source pattern) = some (pattern.map tokenOfUnit) := by
  rw [source, compile, if_pos rfl, flatMap_piece, parse_body]

/-! ## Names without surprises -/

/-- No line terminator, no character above U+FFFF and no star. -/
def Plain (s : String) : Prop :=
  ∀ c ∈ s.toList, c.toNat < 0x10000 ∧ c.toNat ∉ lineTerminators ∧ c ≠ '*'

theorem tokenOfUnit_toNat (x : Char) : tokenOfUnit x.toNat = (token x).map Char.toNat := by
  unfold tokenOfUnit token
  simp only [Char.toNat_inj]
  split
  · rfl
  · split <;> rfl

theorem utf16_of_lt {l : List Char} (h : ∀ c ∈ l, c.toNat < 0x10000) :
    l.flatMap utf16Char = l.map Char.toNat := by
  induction l with
  | nil => rfl
  | cons c l ih =>
    rw [List.forall_mem_cons] at h
    rw [List.flatMap_cons, utf16Char_of_lt h.1, ih h.2]
    rfl

/-- On a value without pairs and line terminators the units of a pattern match
as its characters do. -/
theorem matches_units {p v : List Char}
    (hv : ∀ c ∈ v, c.toNat < 0x10000 ∧ c.toNat ∉ lineTerminators) :
    Matches (fun u => dot u = true) ((p.flatMap utf16Char).map tokenOfUnit)
        (v.flatMap utf16Char) ↔
      Matches (fun _ => True) (p.map token) v := by
  rw [utf16_of_lt fun c hc => (hv c hc).1]
  by_cases hp : ∀ x ∈ p, x.toNat < 0x10000
  · have htoks : (p.flatMap utf16Char).map tokenOfUnit = (p.map token).map (Token.map Char.toNat) := by
      rw [utf16_of_lt hp, List.map_map, List.map_map]
      exact List.map_congr_left fun x _ => tokenOfUnit_toNat x
    rw [htoks]
    refine matches_map (fun x y h => Char.toNat_inj.mp h) fun c hc => ?_
    simpa [dot] using (hv c hc).2
  · -- a pair of the pattern is nowhere in the value
    rw [not_forall₂] at hp
    obtain ⟨x, hx, hlt⟩ := hp
    refine iff_of_false (fun h => ?_) (fun h => ?_)
    · have hmem : .lit (0xD800 + (x.toNat - 0x10000) / 0x400) ∈
          (p.flatMap utf16Char).map tokenOfUnit := by
        refine List.mem_map.mpr ⟨0xD800 + (x.toNat - 0x10000) / 0x400,
          List.mem_flatMap.mpr ⟨x, hx, ?_⟩, ?_⟩
        · rw [utf16Char_of_not_lt hlt]
          exact List.mem_cons_self
        · rw [tokenOfUnit, if_neg (high_ne_toNat hlt '?'), if_neg (high_ne_toNat hlt '*')]
      obtain ⟨c, -, hc⟩ := List.mem_map.mp (h.mem_of_lit_mem hmem)
      exact high_ne_toNat hlt c hc.symm
    · have hne : x ≠ '?' ∧ x ≠ '*' :=
        ⟨fun h => hlt (h ▸ by decide), fun h => hlt (h ▸ by decide)⟩
      have hmem : .lit x ∈ p.map token :=
        List.mem_map.mpr ⟨x, hx, by rw [token, if_neg hne.1, if_neg hne.2]⟩
      exact hlt (hv x (h.mem_of_lit_mem hmem)).1

/-! ## The two globs -/

theorem glob_iff (p v : String) : glob (utf16 p) (utf16 v) = true ↔
    (p = "*" ∨ p = "**") ∨
      Matches (fun u => dot u = true) ((utf16 p).map tokenOfUnit) (utf16 v) := by
  simp only [glob, utf16_inj, compile_source, test]
  split
  · exact iff_of_true rfl (.inl ‹_›)
  · rw [run_iff, or_iff_right ‹_›]

theorem glob_iff_covers {p v : String}
    (hv : ∀ c ∈ v.toList, c.toNat < 0x10000 ∧ c.toNat ∉ lineTerminators) :
    glob (utf16 p) (utf16 v) = true ↔ Covers p v := by
  rw [glob_iff, utf16, utf16, matches_units hv, Covers]
  exact or_iff_right_of_imp fun hp => covers_of_all hp v

theorem glob_eq_globMatch {v : String} (hv : Plain v) (p : String) :
    glob (utf16 p) (utf16 v) = globMatch p v := by
  have hstar : '*' ∉ v.toList := fun h => (hv _ h).2.2 rfl
  rw [Bool.eq_iff_iff, glob_iff_covers fun c hc => ⟨(hv c hc).1, (hv c hc).2.1⟩,
    globMatch_iff (.inr hstar)]

/-- As many question marks as the value has characters. -/
def questionMarks (v : String) : String := String.ofList (List.replicate v.toList.length '?')

theorem globMatch_questionMarks (v : String) : globMatch (questionMarks v) v = true := by
  refine globMatch_of_covers (.inl ?_) ?_
  · rw [questionMarks, String.toList_ofList]
    exact star_not_mem_replicate _
  · rw [Covers, questionMarks, String.toList_ofList]
    exact matches_questions _

theorem tokens_questionMarks (v : String) :
    (utf16 (questionMarks v)).map tokenOfUnit = List.replicate v.toList.length .one := by
  rw [questionMarks, utf16, String.toList_ofList, utf16_of_lt, List.map_replicate,
    List.map_replicate]
  · rfl
  · intro c hc
    rw [(List.mem_replicate.mp hc).2]
    decide

/-- In the browser a question mark is one unit that ends no line. -/
theorem of_glob_questionMarks {v : String}
    (h : glob (utf16 (questionMarks v)) (utf16 v) = true) :
    ∀ c ∈ v.toList, c.toNat < 0x10000 ∧ c.toNat ∉ lineTerminators := by
  have hstar : '*' ∉ (questionMarks v).toList := by
    rw [questionMarks, String.toList_ofList]
    exact star_not_mem_replicate _
  rcases glob_iff _ _ |>.mp h with hq | hm
  · rcases hq with hq | hq <;> exact absurd (hq ▸ by decide) hstar
  · rw [tokens_questionMarks, matches_replicate_one] at hm
    obtain ⟨hlen, hdot⟩ := hm
    intro c hc
    have hlt : c.toNat < 0x10000 := by
      by_contra hlt
      exact absurd hlen (Nat.ne_of_gt (length_lt_utf16 hc hlt))
    have := hdot _ (toNat_mem_utf16 hc hlt)
    exact ⟨hlt, by simpa [dot] using this⟩

theorem plain_of_glob_eq {v : String} (h : ∀ p, glob (utf16 p) (utf16 v) = globMatch p v) :
    Plain v := by
  have hunits := of_glob_questionMarks ((h (questionMarks v)).trans (globMatch_questionMarks v))
  refine fun c hc => ⟨(hunits c hc).1, (hunits c hc).2, ?_⟩
  rintro rfl
  obtain ⟨p, hcov, hf⟩ := exists_pattern_of_star hc
  have := ((glob_iff_covers hunits).mpr hcov).symm.trans ((h p).trans hf)
  cases this

/-! ## The check against the server -/

theorem badge_inj {action : String} {b b' : Bool} (h : badge action b = badge action b') :
    b = b' := by
  have hclass := (Prod.mk.inj h).1
  cases b <;> cases b' <;> first | rfl | exact absurd hclass (by decide)

/-- One allow rule of an app with one name. -/
def oneRule (p q : String) : PermissionsFile :=
  ⟨SortedMap.empty.insert "app" ⟨none, [⟨["GET"], [p], [q]⟩], [],
    SortedMap.empty.insert "name" .default⟩⟩

theorem get?_oneRule (p q : String) : (oneRule p q).apps.get? "app" =
    some ⟨none, [⟨["GET"], [p], [q]⟩], [], SortedMap.empty.insert "name" .default⟩ := rfl

theorem effectiveRules_oneRule (p q : String) :
    effectiveRules (oneRule p q) "app" (some "name") = [⟨⟨["GET"], [p], [q]⟩, "app_allow"⟩] := rfl

theorem firstVerdict_oneRule (g : String → String → Bool) (p q db coll : String) :
    firstVerdict g "GET" db coll (effectiveRules (oneRule p q) "app" (some "name")) =
      (g p db && g q coll) := by
  rw [effectiveRules_oneRule, firstVerdict, firstVerdict, EffectiveRule.isDeny, isDeny_allow.2]
  simp [Rule.hits]

/-- A check that tells the truth about one rule has the server's globs. -/
theorem globs_of_runCheck {db coll p q : String}
    (h : runCheck db coll (effectiveRules (oneRule p q) "app" (some "name")) =
      actions.map fun action => badge action (allows (oneRule p q) "name" "app" action db coll)) :
    (glob (utf16 p) (utf16 db) && glob (utf16 q) (utf16 coll)) =
      (globMatch p db && globMatch q coll) := by
  have hget := badge_inj (List.map_inj_left.mp h "GET" (by decide))
  rwa [← firstVerdict_effectiveRules, firstVerdict_oneRule, firstVerdict_oneRule] at hget

theorem glob_star (v : String) : glob (utf16 "*") (utf16 v) = true := if_pos (.inl rfl)

/-- The badges of the check are the answers of `allows`, for every permissions
file and every name with an entry, exactly when both names are plain. -/
theorem runCheck_eq_allows_iff (db coll : String) :
    (∀ (p : PermissionsFile) (name app : String) (entry : AppEntry),
      p.apps.get? app = some entry → (entry.names.get? name).isSome = true →
        runCheck db coll (effectiveRules p app (some name)) =
          actions.map fun action => badge action (allows p name app action db coll)) ↔
      Plain db ∧ Plain coll := by
  constructor
  · intro h
    have hrule := fun p q => globs_of_runCheck (h (oneRule p q) "name" "app" _ (get?_oneRule p q) rfl)
    refine ⟨plain_of_glob_eq fun p => ?_, plain_of_glob_eq fun q => ?_⟩
    · have := hrule p "*"
      rwa [glob_star, globMatch_star, Bool.and_true, Bool.and_true] at this
    · have := hrule "*" q
      rwa [glob_star, globMatch_star, Bool.true_and, Bool.true_and] at this
  · rintro ⟨hdb, hcoll⟩ p name app _ _ _
    have hverdict : ∀ action,
        firstVerdict (fun p v => glob (utf16 p) (utf16 v)) action db coll
            (effectiveRules p app (some name)) = allows p name app action db coll := by
      intro action
      rw [← firstVerdict_effectiveRules]
      refine firstVerdict_congr (fun q => ?_) (fun q => ?_) action _
      · exact glob_eq_globMatch hdb q
      · exact glob_eq_globMatch hcoll q
    unfold runCheck
    simp only [hverdict]

/-! ## Names the server accepts -/

/-- `valid_path_segment`. -/
def validPathSegment (seg : String) (isDb : Bool) : Bool :=
  if seg.isEmpty || seg.utf8ByteSize > 120 then false
  else seg.toList.all fun c =>
    c != Char.ofNat 0 && c != '/' && c != '\\' && c != '$' && c != '"' && c != '\'' &&
      !(isDb && c == '.')

/-- A collection name with a line break, which the server lets a question mark
stand for and the browser does not. -/
theorem runCheck_line_break : validPathSegment "db" true = true ∧
    validPathSegment "a\nb" false = true ∧
    allows (oneRule "*" "a?b") "name" "app" "GET" "db" "a\nb" = true ∧
    runCheck "db" "a\nb" (effectiveRules (oneRule "*" "a?b") "app" (some "name")) ≠
      actions.map fun action =>
        badge action (allows (oneRule "*" "a?b") "name" "app" action "db" "a\nb") := by
  decide +kernel

end XavierDB.Perms.Widget

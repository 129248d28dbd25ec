import XavierDB.Base.Scanner
import XavierDB.Base.Text

/-!
# What a message shows to a client (`src/error.rs`)

`sanitize` puts `<path>` and `<ip>` in the place of paths and addresses. A path
never gets through. An address is a run of digits and dots with exactly three
dots: one that has more is tried again from its next digit on, so a quad whose run
goes on for four more dots is passed over as a whole.
-/

namespace XavierDB

/-! ## The tokens -/

/-- The first character satisfies `p`. -/
def headIs (p : Char → Bool) (s : List Char) : Bool := s.head?.any p

/-- `is_ascii_hexdigit`. -/
def isHexDigit (c : Char) : Bool :=
  c.isDigit || (decide ('a' ≤ c) && decide (c ≤ 'f')) || (decide ('A' ≤ c) && decide (c ≤ 'F'))

def isSlash (c : Char) : Bool := c == '/' || c == '\\'

/-- A drive: `C:\` or `C:/`. -/
def isDrive : List Char → Bool
  | c :: ':' :: d :: _ => c.isAlpha && isSlash d
  | _ => false

def inPath (c : Char) : Bool := !isWhiteSpace c && c != '"' && c != '\''

/-- What follows a path, which runs to white space or a quote. -/
def pathRest (s : List Char) : Option (List Char) :=
  if headIs isSlash s || isDrive s then
    some ((if isDrive s then s.drop 3 else s).dropWhile inPath)
  else none

/-- What follows a bracketed address. -/
def bracketRest (s : List Char) : Option (List Char) :=
  if headIs (· == '[') s then
    match s.dropWhile (· != ']') with
    | _ :: rest => some rest
    | [] => none
  else none

/-- The separators in the run of characters in front. -/
def sepsAhead (inRun : Char → Bool) (sep : Char) (s : List Char) : ℕ :=
  (s.takeWhile inRun).count sep

/-- What follows a run with enough separators in it and more than `len` characters. -/
def runRest (start inRun : Char → Bool) (sep : Char) (enough : ℕ → Bool) (len : ℕ)
    (s : List Char) : Option (List Char) :=
  if headIs start s && enough (sepsAhead inRun sep s) &&
      decide (len < (s.takeWhile inRun).length) then
    some (s.dropWhile inRun)
  else none

def inIpv6 (c : Char) : Bool := isHexDigit c || c == ':' || c == '.'

/-- What follows a bare IPv6 address. -/
def ipv6Rest : List Char → Option (List Char) :=
  runRest (fun c => isHexDigit c || c == ':') inIpv6 ':' (fun colons => decide (2 ≤ colons)) 2

def inIpv4 (c : Char) : Bool := c.isDigit || c == '.'

/-- What follows an IPv4 address. -/
def ipv4Rest : List Char → Option (List Char) :=
  runRest Char.isDigit inIpv4 '.' (fun dots => decide (dots = 3)) 3

/-- The token in front, tried in this order. -/
def tokenAt (s : List Char) : Option (List Char × List Char) :=
  match pathRest s with
  | some rest => some ("<path>".toList, rest)
  | none => ((bracketRest s).or ((ipv6Rest s).or (ipv4Rest s))).map fun rest => ("<ip>".toList, rest)

theorem headIs_iff {p : Char → Bool} {s : List Char} :
    headIs p s = true ↔ ∃ c rest, s = c :: rest ∧ p c = true := by
  cases s with
  | nil => exact iff_of_false Bool.false_ne_true nofun
  | cons c s =>
    constructor
    · exact fun h => ⟨c, s, rfl, h⟩
    · rintro ⟨c', s', h, hp⟩
      obtain ⟨rfl, rfl⟩ := List.cons.inj h
      exact hp

theorem length_dropWhile_lt {p : Char → Bool} {s : List Char}
    (h : 0 < (s.takeWhile p).length) : (s.dropWhile p).length < s.length := by
  have hlen := congrArg List.length (List.takeWhile_append_dropWhile (p := p) (l := s))
  rw [List.length_append] at hlen
  omega

theorem pathRest_shorter {s rest : List Char} (h : pathRest s = some rest) :
    rest.length < s.length := by
  unfold pathRest at h
  split at h
  case isFalse => cases h
  case isTrue hstart =>
    obtain rfl := Option.some.inj h
    split
    case isTrue hdrive =>
      have hlen : 3 ≤ s.length := by
        unfold isDrive at hdrive
        split at hdrive
        case h_1 => simp
        case h_2 => cases hdrive
      have hdrop := (List.dropWhile_suffix inPath (l := s.drop 3)).length_le
      rw [List.length_drop] at hdrop
      omega
    case isFalse hdrive =>
      rw [eq_false_of_ne_true hdrive, Bool.or_false] at hstart
      obtain ⟨c, s, rfl, hc⟩ := headIs_iff.mp hstart
      have hin : inPath c = true := by
        rw [isSlash, Bool.or_eq_true, beq_iff_eq, beq_iff_eq] at hc
        obtain rfl | rfl := hc <;> decide
      refine length_dropWhile_lt ?_
      rw [List.takeWhile_cons_of_pos hin]
      exact Nat.succ_pos _

theorem bracketRest_shorter {s rest : List Char} (h : bracketRest s = some rest) :
    rest.length < s.length := by
  unfold bracketRest at h
  split at h
  case isFalse => cases h
  case isTrue =>
    split at h
    case h_2 => cases h
    case h_1 c rest' hdrop =>
      obtain rfl := Option.some.inj h
      have hle := (List.dropWhile_suffix (· != ']') (l := s)).length_le
      rw [hdrop, List.length_cons] at hle
      omega

theorem runRest_shorter {start inRun : Char → Bool} {sep : Char} {enough : ℕ → Bool} {len : ℕ}
    {s rest : List Char} (h : runRest start inRun sep enough len s = some rest) :
    rest.length < s.length := by
  unfold runRest at h
  split at h
  case isFalse => cases h
  case isTrue hrun =>
    obtain rfl := Option.some.inj h
    rw [Bool.and_eq_true, decide_eq_true_eq] at hrun
    exact length_dropWhile_lt (Nat.zero_lt_of_lt hrun.2)

/-- The tokens and what stands in their place. -/
theorem tokenAt_cases {s text rest : List Char} (h : tokenAt s = some (text, rest)) :
    (text = "<path>".toList ∧ pathRest s = some rest) ∨ text = "<ip>".toList ∧
      (bracketRest s = some rest ∨ ipv6Rest s = some rest ∨ ipv4Rest s = some rest) := by
  unfold tokenAt at h
  split at h
  case h_1 rest' hpath =>
    obtain ⟨rfl, rfl⟩ := Prod.mk.inj (Option.some.inj h)
    exact .inl ⟨rfl, hpath⟩
  case h_2 =>
    obtain ⟨rest', hrest, he⟩ := Option.map_eq_some_iff.mp h
    obtain ⟨rfl, rfl⟩ := Prod.mk.inj he
    rw [Option.or_eq_some_iff, Option.or_eq_some_iff] at hrest
    exact .inr ⟨rfl, by tauto⟩

theorem tokenAt_eq_none {s : List Char} : tokenAt s = none ↔
    pathRest s = none ∧ bracketRest s = none ∧ ipv6Rest s = none ∧ ipv4Rest s = none := by
  unfold tokenAt
  cases pathRest s with
  | some rest => simp
  | none => rw [Option.map_eq_none_iff, Option.or_eq_none_iff, Option.or_eq_none_iff]; simp

def sanitizer : Scanner Char where
  token := tokenAt
  text_ne h := by
    obtain ⟨rfl, -⟩ | ⟨rfl, -⟩ := tokenAt_cases h <;> decide
  shorter h := by
    obtain ⟨-, h⟩ | ⟨-, h | h | h⟩ := tokenAt_cases h
    · exact pathRest_shorter h
    · exact bracketRest_shorter h
    · exact runRest_shorter h
    · exact runRest_shorter h

/-- `sanitize`. -/
def sanitize (msg : String) : String := String.ofList (sanitizer.scan msg.toList)

/-! ## Addresses -/

/-- A group of digits. -/
structure Digits (g : List Char) : Prop where
  ne : g ≠ []
  digit : ∀ c ∈ g, c.isDigit = true

/-- Four groups of digits with single dots between them. -/
def IsQuad (q : List Char) : Prop :=
  ∃ a b c d, Digits a ∧ Digits b ∧ Digits c ∧ Digits d ∧
    q = a ++ '.' :: (b ++ '.' :: (c ++ '.' :: d))

/-- What a client may be shown. -/
structure Clean (out : String) : Prop where
  noSlash : '/' ∉ out.toList
  noBackslash : '\\' ∉ out.toList
  noQuad : ∀ q, IsQuad q → ¬ q <:+: out.toList

/-- A quad in front, outside an IPv6 address, whose run of digits and dots goes on for
four more dots or more. -/
def LongQuad (s : List Char) : Prop :=
  ∃ q t, s = q ++ t ∧ IsQuad q ∧ 4 ≤ sepsAhead inIpv4 '.' t ∧ ipv6Rest s = none

variable {s t q v : List Char} {c : Char} {msg : String}

/-! ## Paths -/

/-- The texts put in hold neither digits, dots nor slashes. -/
theorem foreign_of (h : inIpv4 c = true ∨ isSlash c = true) : sanitizer.Foreign c := by
  have htexts : ("<path>".toList ++ "<ip>".toList).all (fun c => !inIpv4 c && !isSlash c) = true := by
    decide
  intro s text rest htoken hc
  have hmem : c ∈ "<path>".toList ++ "<ip>".toList := by
    obtain ⟨rfl, -⟩ | ⟨rfl, -⟩ := tokenAt_cases htoken
    · exact List.mem_append_left _ hc
    · exact List.mem_append_right _ hc
  have hneither := List.all_eq_true.mp htexts c hmem
  rw [Bool.and_eq_true, Bool.not_eq_true', Bool.not_eq_true'] at hneither
  rw [hneither.1, hneither.2] at h
  exact h.elim Bool.false_ne_true Bool.false_ne_true

theorem slash_notMem_sanitize (h : isSlash c = true) : c ∉ (sanitize msg).toList := by
  rw [sanitize, String.toList_ofList, Scanner.mem_scan_iff (foreign_of (.inr h))]
  rintro ⟨t, -, hnone⟩
  have hpath : pathRest (c :: t) ≠ none := by
    have hstart : headIs isSlash (c :: t) = true := headIs_iff.mpr ⟨c, t, rfl, h⟩
    rw [pathRest, hstart, Bool.true_or, if_pos rfl]
    exact Option.some_ne_none _
  exact hpath (tokenAt_eq_none.mp hnone).1

/-! ## Quads -/

theorem IsQuad.inIpv4 (h : IsQuad q) : ∀ c ∈ q, inIpv4 c = true := by
  obtain ⟨a, b, c, d, ha, hb, hc, hd, rfl⟩ := h
  have hdigits : ∀ {g}, Digits g → ∀ x ∈ g, XavierDB.inIpv4 x = true := fun hg x hx => by
    rw [XavierDB.inIpv4, hg.digit x hx, Bool.true_or]
  simp only [List.forall_mem_append, List.forall_mem_cons]
  exact ⟨hdigits ha, rfl, hdigits hb, rfl, hdigits hc, rfl, hdigits hd⟩

theorem Digits.count_dot {g : List Char} (h : Digits g) : g.count '.' = 0 := by
  refine List.count_eq_zero.mpr fun hdot => ?_
  cases h.digit _ hdot

theorem Digits.headIs {g : List Char} (h : Digits g) (w : List Char) :
    headIs Char.isDigit (g ++ w) = true := by
  obtain ⟨c, g, rfl⟩ := List.exists_cons_of_ne_nil h.ne
  exact headIs_iff.mpr ⟨c, g ++ w, rfl, h.digit c List.mem_cons_self⟩

theorem sepsAhead_append {inRun : Char → Bool} {sep : Char} (hv : ∀ c ∈ v, inRun c = true) :
    sepsAhead inRun sep (v ++ t) = v.count sep + sepsAhead inRun sep t := by
  rw [sepsAhead, List.takeWhile_append_of_pos hv, List.count_append, sepsAhead]

/-- A run that starts with no separator is longer than it has separators. -/
theorem sepsAhead_lt {inRun : Char → Bool} {sep : Char} (hin : inRun c = true) (hsep : c ≠ sep) :
    sepsAhead inRun sep (c :: s) < ((c :: s).takeWhile inRun).length := by
  rw [sepsAhead, List.takeWhile_cons_of_pos hin, List.count_cons_of_ne hsep, List.length_cons]
  exact Nat.lt_succ_of_le List.count_le_length

section Run

variable {start inRun : Char → Bool} {sep : Char} {enough : ℕ → Bool} {len : ℕ}

theorem runRest_of_not_enough (h : enough (sepsAhead inRun sep s) = false) :
    runRest start inRun sep enough len s = none := by
  rw [runRest, h, Bool.and_false, Bool.false_and, if_neg Bool.false_ne_true]

/-- Where a run starts with no separator, enough of them make a token. -/
theorem runRest_eq_none_iff (hstart : start c = true) (hin : inRun c = true) (hsep : c ≠ sep)
    (hlen : ∀ n, enough n = true → len ≤ n) :
    runRest start inRun sep enough len (c :: s) = none ↔
      enough (sepsAhead inRun sep (c :: s)) = false := by
  refine ⟨fun hnone => eq_false_of_ne_true fun henough => ?_, runRest_of_not_enough⟩
  have hlong : len < ((c :: s).takeWhile inRun).length :=
    lt_of_le_of_lt (hlen _ henough) (sepsAhead_lt hin hsep)
  have hhead : headIs start (c :: s) = true := headIs_iff.mpr ⟨c, s, rfl, hstart⟩
  rw [runRest, hhead, henough, decide_eq_true hlong, Bool.and_self, Bool.and_self,
    if_pos rfl] at hnone
  cases hnone

end Run

/-- With a digit in front, three dots make an address. -/
theorem ipv4Rest_eq_none_iff (h : headIs Char.isDigit s = true) :
    ipv4Rest s = none ↔ sepsAhead inIpv4 '.' s ≠ 3 := by
  obtain ⟨c, s, rfl, hc⟩ := headIs_iff.mp h
  have hin : inIpv4 c = true := by rw [inIpv4, hc, Bool.true_or]
  rw [ipv4Rest, runRest_eq_none_iff hc hin (by rintro rfl; cases hc)
    fun n hn => (of_decide_eq_true hn).ge, decide_eq_false_iff_not]

/-- With a digit in front, two colons make an address. -/
theorem ipv6Rest_eq_none_iff (h : headIs Char.isDigit s = true) :
    ipv6Rest s = none ↔ sepsAhead inIpv6 ':' s < 2 := by
  obtain ⟨c, s, rfl, hc⟩ := headIs_iff.mp h
  have hhex : isHexDigit c = true := by rw [isHexDigit, hc, Bool.true_or, Bool.true_or]
  have hin : inIpv6 c = true := by rw [inIpv6, hhex, Bool.true_or, Bool.true_or]
  rw [ipv6Rest, runRest_eq_none_iff (by rw [hhex, Bool.true_or]) hin (by rintro rfl; cases hc)
    fun n hn => of_decide_eq_true hn, decide_eq_false_iff_not, not_le]

/-- Digits and dots add no colon. -/
theorem colons_append (hv : ∀ c ∈ v, inIpv4 c = true) :
    sepsAhead inIpv6 ':' (v ++ t) = sepsAhead inIpv6 ':' t := by
  have hin : ∀ c ∈ v, inIpv6 c = true := fun c hc => by
    have := hv c hc
    rw [inIpv4, Bool.or_eq_true] at this
    obtain h | h := this
    · rw [inIpv6, isHexDigit, h]; rfl
    · rw [inIpv6, h, Bool.or_true]
  have hcolon : v.count ':' = 0 := List.count_eq_zero.mpr fun h => by cases hv _ h
  rw [sepsAhead_append hin, hcolon, Nat.zero_add]

theorem IsQuad.ne_nil (h : IsQuad q) : q ≠ [] := by
  obtain ⟨a, b, c, d, ha, -, -, -, rfl⟩ := h
  exact List.append_ne_nil_of_left_ne_nil ha.ne _

theorem IsQuad.headIs (h : IsQuad q) (w : List Char) : headIs Char.isDigit (q ++ w) = true := by
  obtain ⟨a, b, c, d, ha, -, -, -, rfl⟩ := h
  rw [List.append_assoc]
  exact ha.headIs _

/-- Digits and dots start no path and no bracket. -/
theorem not_start_of_inIpv4 (h : inIpv4 c = true) :
    isSlash c = false ∧ (c == '[') = false ∧ c.isAlpha = false := by
  rw [inIpv4, Bool.or_eq_true, beq_iff_eq] at h
  obtain h | rfl := h
  · have hne : ∀ x : Char, x.isDigit = false → (c == x) = false := fun x hx => by
      rw [beq_eq_false_iff_ne]
      rintro rfl
      cases h.symm.trans hx
    refine ⟨?_, hne '[' rfl, eq_false_of_ne_true fun halpha => ?_⟩
    · rw [isSlash, hne '/' rfl, hne '\\' rfl, Bool.or_self]
    · rw [isAlpha_iff] at halpha
      rw [isDigit_iff] at h
      omega
  · decide

theorem pathRest_of_inIpv4 (h : inIpv4 c = true) : pathRest (c :: s) = none := by
  obtain ⟨hslash, -, halpha⟩ := not_start_of_inIpv4 h
  have hhead : headIs isSlash (c :: s) = false := hslash
  have hdrive : isDrive (c :: s) = false := by
    unfold isDrive
    split
    case h_1 c' d s' hcons =>
      obtain ⟨rfl, -⟩ := List.cons.inj hcons
      rw [halpha, Bool.false_and]
    case h_2 => rfl
  rw [pathRest, hhead, hdrive, Bool.or_self, if_neg Bool.false_ne_true]

theorem bracketRest_of_inIpv4 (h : inIpv4 c = true) : bracketRest (c :: s) = none := by
  have hhead : headIs (· == '[') (c :: s) = false := (not_start_of_inIpv4 h).2.1
  rw [bracketRest, hhead, if_neg Bool.false_ne_true]

/-- **A quad is passed over** exactly if its run goes on for four more dots and it starts
no IPv6 address. -/
theorem keeps_quad_iff (hq : IsQuad q) :
    sanitizer.Keeps q t ↔ 4 ≤ sepsAhead inIpv4 '.' t ∧ ipv6Rest (q ++ t) = none := by
  have hin := hq.inIpv4
  rw [ipv6Rest_eq_none_iff (hq.headIs t), colons_append hin, Scanner.keeps_iff]
  constructor
  · intro hkeep
    have hcolons : sepsAhead inIpv6 ':' t < 2 := by
      have hnone := (tokenAt_eq_none.mp (hkeep [] q rfl hq.ne_nil)).2.2.1
      rwa [ipv6Rest_eq_none_iff (hq.headIs t), colons_append hin] at hnone
    -- the run of each group has other than three dots
    have hgroup : ∀ u g w, q = u ++ (g ++ w) → Digits g →
        w.count '.' + sepsAhead inIpv4 '.' t ≠ 3 := by
      intro u g w hsplit hg
      have hv : ∀ c ∈ g ++ w, inIpv4 c = true := fun c hc =>
        hin c (hsplit ▸ List.mem_append_right _ hc)
      have hnone := (tokenAt_eq_none.mp (hkeep u (g ++ w) hsplit
        (List.append_ne_nil_of_left_ne_nil hg.ne _))).2.2.2
      have hhead : headIs Char.isDigit ((g ++ w) ++ t) = true := by
        rw [List.append_assoc]
        exact hg.headIs _
      rw [ipv4Rest_eq_none_iff hhead, sepsAhead_append hv, List.count_append, hg.count_dot,
        Nat.zero_add] at hnone
      exact hnone
    obtain ⟨a, b, c, d, ha, hb, hc, hd, rfl⟩ := hq
    have h3 := hgroup [] a ('.' :: (b ++ '.' :: (c ++ '.' :: d))) rfl ha
    have h2 := hgroup (a ++ ['.']) b ('.' :: (c ++ '.' :: d)) (by simp) hb
    have h1 := hgroup (a ++ '.' :: b ++ ['.']) c ('.' :: d) (by simp) hc
    have h0 := hgroup (a ++ '.' :: b ++ '.' :: c ++ ['.']) d [] (by simp) hd
    simp only [List.count_append, List.count_cons_self, hb.count_dot, hc.count_dot, hd.count_dot,
      List.count_nil] at h0 h1 h2 h3
    exact ⟨by omega, hcolons⟩
  · rintro ⟨hdots, hcolons⟩ u v rfl hne
    obtain ⟨x, v, rfl⟩ := List.exists_cons_of_ne_nil hne
    have hv : ∀ c ∈ x :: v, inIpv4 c = true := fun c hc => hin c (List.mem_append_right _ hc)
    have hx := hv x List.mem_cons_self
    have hfew : decide (2 ≤ sepsAhead inIpv6 ':' (x :: v ++ t)) = false := by
      rw [decide_eq_false_iff_not, not_le, colons_append hv]
      exact hcolons
    have hmany : decide (sepsAhead inIpv4 '.' (x :: v ++ t) = 3) = false := by
      rw [decide_eq_false_iff_not, sepsAhead_append hv]
      omega
    exact tokenAt_eq_none.mpr ⟨pathRest_of_inIpv4 hx, bracketRest_of_inIpv4 hx,
      runRest_of_not_enough hfew, runRest_of_not_enough hmany⟩

/-- **What `sanitize` lets out** is clean exactly if the scan comes to no long quad. -/
theorem sanitize_clean_iff (msg : String) :
    Clean (sanitize msg) ↔ ∀ s, sanitizer.Reaches msg.toList s → ¬ LongQuad s := by
  have hquad : ∀ q, IsQuad q → (q <:+: (sanitize msg).toList ↔
      ∃ t, sanitizer.Reaches msg.toList (q ++ t) ∧
        4 ≤ sepsAhead inIpv4 '.' t ∧ ipv6Rest (q ++ t) = none) := by
    intro q hq
    rw [sanitize, String.toList_ofList,
      Scanner.infix_scan_iff hq.ne_nil fun c hc => foreign_of (.inl (hq.inIpv4 c hc))]
    exact exists_congr fun t => and_congr_right fun _ => keeps_quad_iff hq
  constructor
  · rintro hclean s hreach ⟨q, t, rfl, hq, hlong⟩
    exact hclean.noQuad q hq ((hquad q hq).mpr ⟨t, hreach, hlong⟩)
  · intro h
    refine ⟨slash_notMem_sanitize rfl, slash_notMem_sanitize rfl, fun q hq hinfix => ?_⟩
    obtain ⟨t, hreach, hlong⟩ := (hquad q hq).mp hinfix
    exact h _ hreach ⟨q, t, rfl, hq, hlong⟩

/-- An address at the end of a sentence, followed by an ellipsis, gets through. -/
theorem sanitize_ellipsis :
    sanitize "no answer from 10.1.2.3...." = "no answer from 10.1.2.3...." ∧
      ¬ Clean (sanitize "no answer from 10.1.2.3....") := by
  have hkeep : sanitizer.Keeps "no answer from 10.1.2.3....".toList [] := by decide +kernel
  have hout : sanitize "no answer from 10.1.2.3...." = "no answer from 10.1.2.3...." := by
    have := Scanner.scan_append hkeep
    rw [List.append_nil, Scanner.scan, List.append_nil] at this
    rw [sanitize, this, String.ofList_toList]
  refine ⟨hout, fun hclean => hclean.noQuad "10.1.2.3".toList ?_ ?_⟩
  · have hdigits : ∀ g, g ≠ [] → g.all Char.isDigit = true → Digits g := fun g hne hall =>
      ⟨hne, List.all_eq_true.mp hall⟩
    exact ⟨['1', '0'], ['1'], ['2'], ['3'], hdigits _ (by decide) (by decide),
      hdigits _ (by decide) (by decide), hdigits _ (by decide) (by decide),
      hdigits _ (by decide) (by decide), rfl⟩
  · rw [hout]
    exact ⟨"no answer from ".toList, "....".toList, by decide +kernel⟩

end XavierDB

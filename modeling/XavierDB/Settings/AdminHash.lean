import XavierDB.Base.Text
import XavierDB.Error

/-!
# Writing back the admin hash (`src/settings.rs`)

`update_password_hash` edits `server.yml` as text: the first line of a
`password_hash` key is replaced, or a line is put behind the first line that reads
`admin:`, or behind the first line of the file. Which block that line is in, the
code does not look at.
-/

namespace XavierDB.Settings

/-! ## The edit -/

/-- `password_hash: "…"`. -/
def hashEntry (phc : String) : String := "password_hash: \"" ++ phc ++ "\""

/-- The test of the loop. -/
def isHashLine (l : String) : Bool :=
  "password_hash:".toList.isPrefixOf (trimStart l).toList &&
    !("#".toList.isPrefixOf (trimStart l).toList)

/-- The white space in front. -/
def leading (l : String) : String := String.ofList (l.toList.takeWhile isWhiteSpace)

def isAdminLine (l : String) : Bool := trim l == "admin:"

/-- The line written, between the lines before and behind it. -/
structure Written where
  before : List String
  line : String
  after : List String
  deriving DecidableEq

def Written.lines (w : Written) : List String := w.before ++ w.line :: w.after

/-- The lines of the file, edited; `Vec::insert` panics past the end. -/
def writeHash (phc : String) (ls : List String) : Res Written :=
  match ls.dropWhile fun l => !isHashLine l with
  | old :: after =>
    .ok ⟨ls.takeWhile fun l => !isHashLine l, leading old ++ hashEntry phc, after⟩
  | [] =>
    let idx := (ls.findIdx? isAdminLine).getD 0
    if idx + 1 ≤ ls.length then
      .ok ⟨ls.take (idx + 1), "  " ++ hashEntry phc, ls.drop (idx + 1)⟩
    else .error .panic

/-- `update_password_hash`, from the text read to the text written. -/
def updatePasswordHash (text phc : String) : Res String :=
  (writeHash phc (lines text)).map fun w => "\n".intercalate w.lines

/-! ## Blocks -/

/-- A blank of YAML. -/
def isBlank (c : Char) : Bool := c == ' ' || c == '\t' || c == '\r'

/-- Neither blank nor a comment. -/
def isContent (l : String) : Bool :=
  match l.toList.dropWhile isBlank with
  | c :: _ => c != '#'
  | [] => false

/-- The spaces in front. -/
def indent (l : String) : ℕ := (l.toList.takeWhile (· == ' ')).length

/-- `admin:` at column 0, with a comment behind it at most. -/
def isAdminHeader (l : String) : Bool :=
  match stripPrefix "admin:" l with
  | some rest => !isContent rest && !("#".toList.isPrefixOf rest.toList)
  | none => false

/-- The next key of the block, if there is one, is indented by `n`. -/
def NextKey (after : List String) (n : ℕ) : Prop :=
  ∀ l, after.find? isContent = some l → indent l = 0 ∨ indent l = n

/-- A line indented by `n` at this place is a key of the top-level `admin` block: the last
line of content at column 0 before it is the header, and the keys around it, the first
of the block and the next one, are indented by `n` as well. -/
structure IsAdminKey (before after : List String) (n : ℕ) : Prop where
  pos : 0 < n
  inBlock : ∃ pre header body, before = pre ++ header :: body ∧ isAdminHeader header = true ∧
    (∀ l ∈ body, isContent l = true → 0 < indent l) ∧
    ∀ l, body.find? isContent = some l → indent l = n
  next : NextKey after n

/-- What the update makes of the lines. -/
structure Intact (ls : List String) (phc : String) (w : Written) : Prop where
  /-- so that these are the lines of the new text -/
  single : ∀ l ∈ w.lines, '\n' ∉ l.toList
  /-- one line replaced or inserted, or a header with it -/
  changed : (∃ old, ls = w.before ++ old :: w.after) ∨ ls = w.before ++ w.after ∨
    ∃ pre header, w.before = pre ++ [header] ∧ isAdminHeader header = true ∧ ls = pre ++ w.after
  key : ∃ n, w.line = String.ofList (List.replicate n ' ') ++ hashEntry phc ∧
    IsAdminKey w.before w.after n

/-- The update goes through and keeps the file intact. -/
def KeepsIntact (text phc : String) : Prop :=
  ∃ w, writeHash phc (lines text) = .ok w ∧
    updatePasswordHash text phc = .ok ("\n".intercalate w.lines) ∧ Intact (lines text) phc w

/-- The line goes to a place for a key of the `admin` block. Lines are read one by one:
`admin:` is the literal text, so a quoted key, or an anchor behind it, is no header, a
scalar over several lines counts as lines of its own, and line ends are not compared. -/
inductive Placed (ls : List String) : Prop where
  /-- The first hash line is such a key. -/
  | hashLine {before after : List String} {rest : String} {n : ℕ} :
      ls = before ++ (String.ofList (List.replicate n ' ') ++ ("password_hash:" ++ rest)) :: after →
      (∀ l ∈ before, isHashLine l = false) → IsAdminKey before after n → Placed ls
  /-- There is none, and the first line that reads `admin:` is the header. -/
  | header {pre post : List String} {l : String} : (∀ l ∈ ls, isHashLine l = false) →
      ls = pre ++ l :: post → (∀ l ∈ pre, isAdminLine l = false) → isAdminLine l = true →
      isAdminHeader l = true → NextKey post 2 → Placed ls
  /-- There is none, and the first line that reads `admin:` is in the block itself. -/
  | nested {pre post : List String} {l : String} : (∀ l ∈ ls, isHashLine l = false) →
      ls = pre ++ l :: post → (∀ l ∈ pre, isAdminLine l = false) → isAdminLine l = true →
      isAdminHeader l = false → IsAdminKey (pre ++ [l]) post 2 → Placed ls
  /-- There is neither, and the first line is the header, with a comment. -/
  | firstLine {header : String} {post : List String} : (∀ l ∈ ls, isHashLine l = false) →
      ls = header :: post → (∀ l ∈ ls, isAdminLine l = false) →
      isAdminHeader header = true → NextKey post 2 → Placed ls

variable {ls before after pre post : List String} {l old admin header phc rest text : String} {n : ℕ}

/-! ## What the edit does -/

theorem writeHash_hashLine (hbefore : ∀ l ∈ before, isHashLine l = false)
    (hold : isHashLine old = true) : writeHash phc (before ++ old :: after) =
      .ok ⟨before, leading old ++ hashEntry phc, after⟩ := by
  have hbefore' : ∀ l ∈ before, (!isHashLine l) = true := fun l hl => by rw [hbefore l hl]; rfl
  have hold' : ¬ (!isHashLine old) = true := by rw [hold]; exact Bool.false_ne_true
  have hdrop : (before ++ old :: after).dropWhile (fun l => !isHashLine l) = old :: after := by
    rw [List.dropWhile_append_of_pos hbefore']
    exact List.dropWhile_cons_of_neg hold'
  have htake : (before ++ old :: after).takeWhile (fun l => !isHashLine l) = before := by
    have hnil : (old :: after).takeWhile (fun l => !isHashLine l) = [] :=
      List.takeWhile_cons_of_neg hold'
    rw [List.takeWhile_append_of_pos hbefore', hnil, List.append_nil]
  rw [writeHash, hdrop, htake]

theorem writeHash_of_none (hno : ∀ l ∈ ls, isHashLine l = false) : writeHash phc ls =
    if (ls.findIdx? isAdminLine).getD 0 + 1 ≤ ls.length then
      .ok ⟨ls.take ((ls.findIdx? isAdminLine).getD 0 + 1), "  " ++ hashEntry phc,
        ls.drop ((ls.findIdx? isAdminLine).getD 0 + 1)⟩
    else .error .panic := by
  have hdrop : ls.dropWhile (fun l => !isHashLine l) = [] :=
    List.dropWhile_eq_nil_iff.mpr fun l hl => by rw [hno l hl]; rfl
  rw [writeHash, hdrop]

theorem writeHash_adminLine (hno : ∀ l ∈ pre ++ admin :: post, isHashLine l = false)
    (hpre : ∀ l ∈ pre, isAdminLine l = false) (hadmin : isAdminLine admin = true) :
    writeHash phc (pre ++ admin :: post) = .ok ⟨pre ++ [admin], "  " ++ hashEntry phc, post⟩ := by
  have hidx : (pre ++ admin :: post).findIdx? isAdminLine = some pre.length := by
    rw [List.findIdx?_append, List.findIdx?_eq_none_iff.mpr hpre, List.findIdx?_cons, if_pos hadmin,
      Option.none_or, Option.map_some, Nat.zero_add]
  have hlen : (pre ++ [admin]).length = pre.length + 1 := by rw [List.length_append]; rfl
  rw [writeHash_of_none hno, hidx, Option.getD_some, ← hlen, List.append_cons pre admin post,
    List.take_left, List.drop_left, if_pos (List.prefix_append _ _).length_le]

theorem writeHash_firstLine (hno : ∀ l ∈ header :: post, isHashLine l = false)
    (hadmin : ∀ l ∈ header :: post, isAdminLine l = false) :
    writeHash phc (header :: post) = .ok ⟨[header], "  " ++ hashEntry phc, post⟩ := by
  rw [writeHash_of_none hno, List.findIdx?_eq_none_iff.mpr hadmin, if_pos]
  · rfl
  · exact Nat.succ_le_of_lt (Nat.succ_pos _)

/-- An empty file panics. -/
theorem writeHash_nil : writeHash phc [] = .error .panic := rfl

/-! ## Hash lines -/

theorem leading_append_trimStart (l : String) : leading l ++ trimStart l = l := by
  rw [leading, trimStart, ← String.ofList_append, List.takeWhile_append_dropWhile,
    String.ofList_toList]

/-- A hash line is white space and the key. -/
theorem isHashLine_iff : isHashLine l = true ↔
    ∃ rest, l = leading l ++ ("password_hash:" ++ rest) := by
  have hsplit := leading_append_trimStart l
  rw [isHashLine, Bool.and_eq_true, List.isPrefixOf_iff_prefix]
  constructor
  · rintro ⟨⟨rest, hrest⟩, -⟩
    refine ⟨String.ofList rest, ?_⟩
    rw [← String.ofList_toList (s := "password_hash:"), ← String.ofList_append, hrest,
      String.ofList_toList, hsplit]
  · rintro ⟨rest, hrest⟩
    have htrim : trimStart l = "password_hash:" ++ rest :=
      String.append_right_inj (leading l) |>.mp (hsplit.trans hrest)
    rw [htrim, String.toList_append]
    exact ⟨List.prefix_append _ _, rfl⟩

theorem leading_spaces :
    leading (String.ofList (List.replicate n ' ') ++ ("password_hash:" ++ rest)) =
      String.ofList (List.replicate n ' ') := by
  have hspaces : ∀ c ∈ List.replicate n ' ', isWhiteSpace c = true := fun c hc => by
    rw [List.eq_of_mem_replicate hc]
    decide
  rw [leading, String.toList_append, String.toList_ofList, List.takeWhile_append_of_pos hspaces,
    String.toList_append]
  exact congrArg String.ofList (List.append_nil _)

/-! ## When the file stays intact -/

theorem isAdminKey_header (h : isAdminHeader header = true) :
    IsAdminKey (pre ++ [header]) post n ↔ 0 < n ∧ NextKey post n := by
  constructor
  · exact fun hkey => ⟨hkey.pos, hkey.next⟩
  · rintro ⟨hn, hnext⟩
    exact ⟨hn, ⟨pre, header, [], rfl, h, List.forall_mem_nil _, nofun⟩, hnext⟩

/-- Behind a single line there is a key only if that line is the header. -/
theorem isAdminKey_singleton :
    IsAdminKey [header] post n ↔ isAdminHeader header = true ∧ 0 < n ∧ NextKey post n := by
  constructor
  · intro hkey
    obtain ⟨pre, header', body, hsplit, hheader, -⟩ := hkey.inBlock
    cases pre with
    | nil =>
      obtain ⟨rfl, -⟩ := List.cons.inj hsplit
      exact ⟨hheader, hkey.pos, hkey.next⟩
    | cons l pre =>
      have hnil := (List.cons.inj hsplit).2
      exact absurd hnil.symm (List.append_ne_nil_of_right_ne_nil _ (List.cons_ne_nil _ _))
  · rintro ⟨hheader, h⟩
    exact (@isAdminKey_header [] post header n hheader).mpr h

/-- With one line changed, what is left to say is that the hash is one line and goes to
the place of a key. -/
theorem intact_iff {lead : String} (hlines : ∀ l ∈ before ++ after, '\n' ∉ l.toList)
    (hlead : '\n' ∉ lead.toList)
    (hchanged : (∃ old, ls = before ++ old :: after) ∨ ls = before ++ after) :
    Intact ls phc ⟨before, lead ++ hashEntry phc, after⟩ ↔ '\n' ∉ phc.toList ∧
      ∃ n, lead = String.ofList (List.replicate n ' ') ∧ IsAdminKey before after n := by
  have hentry : '\n' ∈ (lead ++ hashEntry phc).toList ↔ '\n' ∈ phc.toList := by
    have hkey : '\n' ∉ "password_hash: \"".toList ∧ '\n' ∉ "\"".toList := by decide
    have hsplit : (lead ++ hashEntry phc).toList =
        lead.toList ++ ("password_hash: \"".toList ++ phc.toList ++ "\"".toList) := by
      have hdef : hashEntry phc = "password_hash: \"" ++ phc ++ "\"" := rfl
      rw [hdef, String.toList_append, String.toList_append, String.toList_append]
    rw [hsplit, List.mem_append, List.mem_append, List.mem_append]
    constructor
    · rintro (h | (h | h) | h)
      · exact absurd h hlead
      · exact absurd h hkey.1
      · exact h
      · exact absurd h hkey.2
    · exact fun h => .inr (.inl (.inr h))
  constructor
  · intro h
    refine ⟨fun hphc => h.single _ (List.mem_append_right _ List.mem_cons_self)
      (hentry.mpr hphc), ?_⟩
    obtain ⟨n, hline, hkey⟩ := h.key
    exact ⟨n, String.append_left_inj _ |>.mp hline, hkey⟩
  · rintro ⟨hphc, n, rfl, hkey⟩
    refine ⟨?_, hchanged.imp_right .inl, n, rfl, hkey⟩
    intro l hl
    rw [Written.lines, List.mem_append, List.mem_cons] at hl
    obtain hl | rfl | hl := hl
    · exact hlines l (List.mem_append_left _ hl)
    · exact mt hentry.mp hphc
    · exact hlines l (List.mem_append_right _ hl)

theorem two_spaces : "  " = String.ofList (List.replicate 2 ' ') := by decide

/-- An inserted line is indented by two. -/
theorem intact_inserted_iff (hls : ∀ l ∈ before ++ after, '\n' ∉ l.toList) :
    Intact (before ++ after) phc ⟨before, "  " ++ hashEntry phc, after⟩ ↔
      '\n' ∉ phc.toList ∧ IsAdminKey before after 2 := by
  rw [intact_iff hls (by decide) (.inr rfl)]
  refine and_congr_right fun _ => ⟨?_, fun h => ⟨2, two_spaces, h⟩⟩
  rintro ⟨n, hn, h⟩
  have hlen := congrArg (fun s => s.toList.length) hn
  simp only [String.toList_ofList, List.length_replicate] at hlen
  obtain rfl : n = 2 := hlen.symm
  exact h

theorem leading_subset (l : String) : (leading l).toList ⊆ l.toList := by
  rw [leading, String.toList_ofList]
  exact (List.takeWhile_prefix _).subset

/-- A replaced line keeps the white space in front. -/
theorem intact_replaced_iff (hls : ∀ l ∈ before ++ old :: after, '\n' ∉ l.toList) :
    Intact (before ++ old :: after) phc ⟨before, leading old ++ hashEntry phc, after⟩ ↔
      '\n' ∉ phc.toList ∧
        ∃ n, leading old = String.ofList (List.replicate n ' ') ∧ IsAdminKey before after n := by
  rw [List.forall_mem_append, List.forall_mem_cons] at hls
  refine intact_iff (List.forall_mem_append.mpr ⟨hls.1, hls.2.2⟩) ?_ (.inl ⟨old, rfl⟩)
  exact fun h => hls.2.1 (leading_subset old h)

theorem placed_of_intact {w : Written} (hls : ∀ l ∈ ls, '\n' ∉ l.toList)
    (hw : writeHash phc ls = .ok w) (hintact : Intact ls phc w) :
    '\n' ∉ phc.toList ∧ Placed ls := by
  cases hhash : ls.find? isHashLine with
  | some old =>
    obtain ⟨hold, before, after, rfl, hbefore⟩ := List.find?_eq_some_iff_append.mp hhash
    simp only [Bool.not_eq_true'] at hbefore
    rw [writeHash_hashLine hbefore hold] at hw
    obtain rfl := Except.ok.inj hw
    obtain ⟨hphc, n, hlead, hkey⟩ := (intact_replaced_iff hls).mp hintact
    obtain ⟨rest, hrest⟩ := isHashLine_iff.mp hold
    exact ⟨hphc, .hashLine (by rw [← hlead, ← hrest]) hbefore hkey⟩
  | none =>
    have hno : ∀ l ∈ ls, isHashLine l = false := fun l hl =>
      eq_false_of_ne_true (List.find?_eq_none.mp hhash l hl)
    cases hadmin : ls.find? isAdminLine with
    | some admin =>
      obtain ⟨hline, pre, post, rfl, hpre⟩ := List.find?_eq_some_iff_append.mp hadmin
      simp only [Bool.not_eq_true'] at hpre
      rw [writeHash_adminLine hno hpre hline] at hw
      obtain rfl := Except.ok.inj hw
      rw [List.append_cons] at hls hintact
      obtain ⟨hphc, hkey⟩ := (intact_inserted_iff hls).mp hintact
      cases hheader : isAdminHeader admin with
      | true => exact ⟨hphc, .header hno rfl hpre hline hheader hkey.next⟩
      | false => exact ⟨hphc, .nested hno rfl hpre hline hheader hkey⟩
    | none =>
      have hnone : ∀ l ∈ ls, isAdminLine l = false := fun l hl =>
        eq_false_of_ne_true (List.find?_eq_none.mp hadmin l hl)
      cases ls with
      | nil =>
        rw [writeHash_nil] at hw
        cases hw
      | cons header post =>
        rw [writeHash_firstLine hno hnone] at hw
        obtain rfl := Except.ok.inj hw
        obtain ⟨hphc, hkey⟩ := (@intact_inserted_iff [header] post phc hls).mp hintact
        obtain ⟨hheader, -, hnext⟩ := isAdminKey_singleton.mp hkey
        exact ⟨hphc, .firstLine hno rfl hnone hheader hnext⟩

theorem Placed.intact (hls : ∀ l ∈ ls, '\n' ∉ l.toList) (hphc : '\n' ∉ phc.toList)
    (hplaced : Placed ls) : ∃ w, writeHash phc ls = .ok w ∧ Intact ls phc w := by
  cases hplaced with
  | hashLine hsplit hbefore hkey =>
    obtain rfl := hsplit
    refine ⟨_, writeHash_hashLine hbefore ?_,
      (intact_replaced_iff hls).mpr ⟨hphc, _, leading_spaces, hkey⟩⟩
    exact isHashLine_iff.mpr ⟨_, by rw [leading_spaces]⟩
  | header hno hsplit hpre hline hheader hnext =>
    obtain rfl := hsplit
    refine ⟨_, writeHash_adminLine hno hpre hline, ?_⟩
    rw [List.append_cons] at hls ⊢
    exact (intact_inserted_iff hls).mpr
      ⟨hphc, (isAdminKey_header hheader).mpr ⟨Nat.two_pos, hnext⟩⟩
  | nested hno hsplit hpre hline _ hkey =>
    obtain rfl := hsplit
    refine ⟨_, writeHash_adminLine hno hpre hline, ?_⟩
    rw [List.append_cons] at hls ⊢
    exact (intact_inserted_iff hls).mpr ⟨hphc, hkey⟩
  | firstLine hno hsplit hnone hheader hnext =>
    obtain rfl := hsplit
    exact ⟨_, writeHash_firstLine hno hnone, (@intact_inserted_iff [_] _ phc hls).mpr
      ⟨hphc, isAdminKey_singleton.mpr ⟨hheader, Nat.two_pos, hnext⟩⟩⟩

/-- **The admin hash is written back** as it should exactly if it is one line and goes to
the place of a key of the `admin` block. -/
theorem keepsIntact_iff (text phc : String) :
    KeepsIntact text phc ↔ '\n' ∉ phc.toList ∧ Placed (lines text) := by
  have hlines : ∀ l ∈ lines text, '\n' ∉ l.toList := fun l hl => notMem_of_mem_lines hl
  constructor
  · rintro ⟨w, hw, -, hintact⟩
    exact placed_of_intact hlines hw hintact
  · rintro ⟨hphc, hplaced⟩
    obtain ⟨w, hw, hintact⟩ := hplaced.intact hlines hphc
    refine ⟨w, hw, ?_, hintact⟩
    rw [updatePasswordHash, hw]
    rfl

/-- A file whose `admin` block is not the first, with a comment behind its header. -/
def commentedHeader : String :=
  "network:\n  port: 8080\nadmin: # dashboard\n  username: \"admin\"\n"

/-- An empty file panics; behind a comment the header is not found, and the hash goes to
the block at the top. -/
theorem not_keepsIntact :
    updatePasswordHash "" "h" = .error .panic ∧ ¬ KeepsIntact "" "h" ∧
      updatePasswordHash commentedHeader "h" = .ok ("network:\n  password_hash: \"h\"\n" ++
        "  port: 8080\nadmin: # dashboard\n  username: \"admin\"") ∧
      ¬ KeepsIntact commentedHeader "h" := by
  have hempty : writeHash "h" (lines "") = .error .panic := rfl
  have hwrite : writeHash "h" (lines commentedHeader) = .ok ⟨["network:"],
      "  password_hash: \"h\"", ["  port: 8080", "admin: # dashboard", "  username: \"admin\""]⟩ := by
    decide +kernel
  refine ⟨rfl, ?_, ?_, ?_⟩
  · rintro ⟨w, hw, -⟩
    cases hempty.symm.trans hw
  · rw [updatePasswordHash, hwrite]
    decide +kernel
  · rintro ⟨w, hw, -, hintact⟩
    obtain rfl := Except.ok.inj (hwrite.symm.trans hw)
    obtain ⟨n, -, hkey⟩ := hintact.key
    exact absurd (isAdminKey_singleton.mp hkey).1 (by decide)

end XavierDB.Settings

import XavierDB.Base.IpAddr
import XavierDB.Base.Text

/-!
# The client's address (`src/routes_q.rs`)

`effective_ip` names the throttle bucket of a request. Behind a trusted proxy it
is the last entry of an `X-Forwarded-For` line, but of the first such line, and
only when the whole line is visible ASCII.
-/

namespace XavierDB.Routes

/-- The header lines of a request in order, names in lower case. -/
abbrev HeaderMap := List (String × Bytes)

namespace HeaderMap

def getAll (headers : HeaderMap) (name : String) : List Bytes :=
  headers.filterMap fun p => if p.1 = name then some p.2 else none

/-- `HeaderMap::get`: the first line. -/
def get (headers : HeaderMap) (name : String) : Option Bytes := (headers.getAll name).head?

end HeaderMap

/-! ## The code -/

/-- Visible ASCII, the blank and the tab. -/
def isVisible (b : UInt8) : Bool := (32 ≤ b && b < 127) || b == 9

def asciiText (v : Bytes) : List Char := v.map fun b => Char.ofNat b.toNat

/-- `HeaderValue::to_str`. -/
def toStr (v : Bytes) : Option String :=
  if v.all isVisible then some (String.ofList (asciiText v)) else none

/-- What stands behind the last separator. -/
def lastPiece {α : Type} [DecidableEq α] (sep : α) (l : List α) : List α :=
  (l.reverse.takeWhile (· ≠ sep)).reverse

/-- `proxy_ip`. -/
def proxyIp (headers : HeaderMap) : Option IpAddr :=
  let real := (((headers.get "x-real-ip").bind toStr).map trim).filter fun v => !v.isEmpty
  match real.bind IpAddr.parse with
  | some ip => some ip
  | none => do
    let v ← (headers.get "x-forwarded-for").bind toStr
    IpAddr.parse (trim (String.ofList (lastPiece ',' v.toList)))

/-- `effective_ip`; `peer` is the address of the socket's peer. -/
def effectiveIp (trustProxyHeaders : Bool) (headers : HeaderMap) (peer : IpAddr) : String :=
  if trustProxyHeaders then
    match proxyIp headers with
    | some ip => ip.toText
    | none => peer.toText
  else peer.toText

/-- `SocketAddr::to_string`. -/
def socketText (ip : IpAddr) (port : UInt16) : String :=
  match ip with
  | .v4 .. => ip.toText ++ ":" ++ toString port
  | .v6 _ => "[" ++ ip.toText ++ "]:" ++ toString port

/-- `effective_addr`. -/
def effectiveAddr (trustProxyHeaders : Bool) (headers : HeaderMap) (peer : IpAddr)
    (port : UInt16) : String :=
  if trustProxyHeaders then
    match proxyIp headers with
    | some ip => ip.toText
    | none => socketText peer port
  else socketText peer port

/-! ## The entries -/

def isBlank (b : UInt8) : Bool := b == 32 || b == 9

/-- The last entry of a line, without the blanks around it. -/
def lineEntry (v : Bytes) : Bytes :=
  (((lastPiece 44 v).dropWhile isBlank).reverse.dropWhile isBlank).reverse

/-- The last entry over all `X-Forwarded-For` lines: what the proxy appended. -/
def lastEntry (headers : HeaderMap) : Option Bytes :=
  (headers.getAll "x-forwarded-for").getLast?.map lineEntry

/-- An entry as an address. -/
def entryIp (e : Bytes) : Option IpAddr := IpAddr.parse (String.ofList (asciiText e))

/-- What an entry stands for: an address, or else the peer's own. -/
def standsFor (peer : IpAddr) (entry : Option Bytes) : String :=
  ((entry.bind entryIp).map IpAddr.toText).getD peer.toText

/-- What the first `X-Forwarded-For` line is. -/
inductive FirstLine where
  | missing
  /-- with bytes that are no visible ASCII -/
  | unreadable
  /-- the only one, and so the proxy's -/
  | proxys
  /-- one that the client sent before the proxy's, with its last entry -/
  | clients (entry : Bytes)
  deriving DecidableEq

def firstLine (headers : HeaderMap) : FirstLine :=
  match headers.getAll "x-forwarded-for" with
  | [] => .missing
  | v :: behind =>
    if v.all isVisible then
      match behind with
      | [] => .proxys
      | _ :: _ => .clients (lineEntry v)
    else .unreadable

/-- The two first lines come to the same, where the proxy appended `entry`: a line of the
client's before the proxy's ends in what stands for the same address as the other request's
entry, and beside a line that cannot be read what is read stands for the peer. -/
def Unswayed (peer : IpAddr) (entry : Option Bytes) : FirstLine → FirstLine → Prop
  | .clients c, .clients c' => standsFor peer (some c) = standsFor peer (some c')
  | .clients c, .proxys | .proxys, .clients c => standsFor peer (some c) = standsFor peer entry
  | .clients c, .unreadable | .unreadable, .clients c => standsFor peer (some c) = peer.toText
  | .proxys, .unreadable | .unreadable, .proxys => standsFor peer entry = peer.toText
  | _, _ => True

/-! ## Bytes and characters -/

theorem isWhiteSpace_visible {b : UInt8} (h : isVisible b = true) :
    isWhiteSpace (Char.ofNat b.toNat) = isBlank b := by
  have hall : ∀ n < 256, isVisible (UInt8.ofNat n) = true →
      isWhiteSpace (Char.ofNat n) = isBlank (UInt8.ofNat n) := by decide +kernel
  have hb := hall b.toNat b.toNat_lt
  rw [UInt8.ofNat_toNat] at hb
  exact hb h

theorem ofNat_eq_comma (b : UInt8) : Char.ofNat b.toNat = ',' ↔ b = 44 := by
  have hall : ∀ n < 256, Char.ofNat n = ',' ↔ UInt8.ofNat n = 44 := by decide +kernel
  have hb := hall b.toNat b.toNat_lt
  rwa [UInt8.ofNat_toNat] at hb

theorem dropWhile_congr {α : Type} {p q : α → Bool} {l : List α} (h : ∀ a ∈ l, p a = q a) :
    l.dropWhile p = l.dropWhile q := by
  induction l with
  | nil => rfl
  | cons a l ih =>
    rw [List.forall_mem_cons] at h
    rw [List.dropWhile_cons, List.dropWhile_cons, h.1, ih h.2]

theorem dropWhile_asciiText {p : Bytes} (h : ∀ b ∈ p, isVisible b = true) :
    (asciiText p).dropWhile isWhiteSpace = asciiText (p.dropWhile isBlank) := by
  rw [asciiText, List.dropWhile_map]
  exact congrArg asciiText (dropWhile_congr fun b hb => isWhiteSpace_visible (h b hb))

/-- Trimming the text trims the blanks. -/
theorem trim_asciiText {p : Bytes} (h : ∀ b ∈ p, isVisible b = true) :
    trim (String.ofList (asciiText p)) =
      String.ofList (asciiText ((p.dropWhile isBlank).reverse.dropWhile isBlank).reverse) := by
  have hrev : ∀ l : Bytes, (asciiText l).reverse = asciiText l.reverse :=
    fun l => List.map_reverse.symm
  have hmem : ∀ b ∈ (p.dropWhile isBlank).reverse, isVisible b = true := fun b hb =>
    h b ((List.dropWhile_suffix _).subset (List.mem_reverse.mp hb))
  rw [trim, String.toList_ofList, dropWhile_asciiText h, hrev, dropWhile_asciiText hmem, hrev]

theorem lastPiece_asciiText (v : Bytes) :
    lastPiece ',' (asciiText v) = asciiText (lastPiece 44 v) := by
  have hsep : ((fun c => decide (c ≠ ',')) ∘ fun b : UInt8 => Char.ofNat b.toNat) =
      fun b => decide (b ≠ 44) := by
    funext b
    simp only [Function.comp_apply, ne_eq, ofNat_eq_comma]
  unfold lastPiece asciiText
  rw [← List.map_reverse, List.takeWhile_map, hsep, List.map_reverse]

theorem mem_lastPiece {v : Bytes} {b : UInt8} (h : b ∈ lastPiece 44 v) : b ∈ v :=
  List.mem_reverse.mp ((List.takeWhile_prefix _).subset (List.mem_reverse.mp h))

/-! ## The bucket -/

variable {headers h1 h2 : HeaderMap} {peer : IpAddr}

/-- The entry that is read: the last one of the first line, if the line can be read. -/
def readEntry (headers : HeaderMap) : Option Bytes :=
  ((headers.getAll "x-forwarded-for").head?.filter fun v => v.all isVisible).map lineEntry

/-- Without `X-Real-IP` the code reads the first line. -/
theorem proxyIp_eq (hreal : headers.get "x-real-ip" = none) :
    proxyIp headers = (readEntry headers).bind entryIp := by
  unfold proxyIp readEntry
  rw [hreal]
  dsimp only [Option.bind_none, Option.map_none, Option.filter_none]
  unfold HeaderMap.get
  cases (headers.getAll "x-forwarded-for").head? with
  | none => rfl
  | some v =>
    unfold toStr
    by_cases hv : v.all isVisible = true
    · have hmem : ∀ b ∈ lastPiece 44 v, isVisible b = true := fun b hb =>
        List.all_eq_true.mp hv b (mem_lastPiece hb)
      simp only [Option.bind_some, hv, if_true, Option.filter_some, bind, String.toList_ofList,
        lastPiece_asciiText, trim_asciiText hmem, Option.map_some]
      rfl
    · rw [Bool.not_eq_true] at hv
      simp only [Option.bind_some, hv, Bool.false_eq_true, if_false, Option.filter_some,
        Option.map_none, Option.bind_none]
      rfl

theorem effectiveIp_eq (hreal : headers.get "x-real-ip" = none) :
    effectiveIp true headers peer = standsFor peer (readEntry headers) := by
  unfold effectiveIp standsFor
  rw [proxyIp_eq hreal, if_pos rfl]
  cases (readEntry headers).bind entryIp <;> rfl

/-- Whose entry is read. -/
theorem readEntry_eq (headers : HeaderMap) : readEntry headers =
    match firstLine headers with
    | .missing | .unreadable => none
    | .proxys => lastEntry headers
    | .clients c => some c := by
  unfold readEntry firstLine lastEntry
  cases headers.getAll "x-forwarded-for" with
  | nil => rfl
  | cons v behind =>
    rw [List.head?_cons, Option.filter_some]
    dsimp only
    cases v.all isVisible with
    | false => rfl
    | true => cases behind <;> rfl

theorem firstLine_missing_iff (headers : HeaderMap) :
    firstLine headers = .missing ↔ lastEntry headers = none := by
  unfold firstLine lastEntry
  cases headers.getAll "x-forwarded-for" with
  | nil => simp
  | cons v behind =>
    refine iff_of_false ?_ (by simp)
    dsimp only
    cases v.all isVisible with
    | false => simp
    | true => cases behind <;> simp

/-- A request with the proxy's line alone. -/
theorem firstLine_of_one {v : Bytes} (h : headers.getAll "x-forwarded-for" = [v])
    (hv : v.all isVisible = true) : firstLine headers = .proxys := by
  simp [firstLine, h, hv]

/-- **Two requests with the same last entry share a bucket** exactly where no line before
the proxy's, and no byte that is not visible, sways it. -/
theorem effectiveIp_eq_iff (h1 h2 : HeaderMap) (peer : IpAddr)
    (hreal1 : h1.get "x-real-ip" = none) (hreal2 : h2.get "x-real-ip" = none)
    (hlast : lastEntry h1 = lastEntry h2) :
    effectiveIp true h1 peer = effectiveIp true h2 peer ↔
      Unswayed peer (lastEntry h1) (firstLine h1) (firstLine h2) := by
  have hmissing : firstLine h1 = .missing ↔ firstLine h2 = .missing := by
    rw [firstLine_missing_iff, firstLine_missing_iff, hlast]
  rw [effectiveIp_eq hreal1, effectiveIp_eq hreal2, readEntry_eq, readEntry_eq, ← hlast]
  cases hf1 : firstLine h1 with
  | missing =>
    rw [hmissing.mp hf1]
    exact iff_of_true rfl trivial
  | unreadable =>
    cases hf2 : firstLine h2 with
    | missing => simp [hf1, hf2] at hmissing
    | unreadable => exact iff_of_true rfl trivial
    | proxys => exact eq_comm
    | clients c => exact eq_comm
  | proxys =>
    cases hf2 : firstLine h2 with
    | missing => simp [hf1, hf2] at hmissing
    | unreadable => exact Iff.rfl
    | proxys => exact iff_of_true rfl trivial
    | clients c => exact eq_comm
  | clients c =>
    cases hf2 : firstLine h2 with
    | missing => simp [hf1, hf2] at hmissing
    | unreadable => exact Iff.rfl
    | proxys => exact Iff.rfl
    | clients c' => exact Iff.rfl

def peerSample : IpAddr := .v4 127 0 0 1

/-- What the proxy appended on a line of its own, behind a line of the client's. -/
def spoofed (client : String) : HeaderMap :=
  [("x-forwarded-for", utf8Bytes client), ("x-forwarded-for", utf8Bytes "203.0.113.7")]

/-- Entries before the proxy's on its own line count for nothing. -/
theorem effectiveIp_eq_iff_appended :
    effectiveIp true [("x-forwarded-for", utf8Bytes "6.6.6.6, 203.0.113.7")] peerSample =
      effectiveIp true [("x-forwarded-for", utf8Bytes "203.0.113.7")] peerSample := by
  refine (effectiveIp_eq_iff _ _ peerSample (by decide) (by decide) (by decide +kernel)).mpr ?_
  rw [firstLine_of_one rfl (by decide +kernel), firstLine_of_one rfl (by decide +kernel)]
  trivial

/-- The client names its bucket on a line before the proxy's. -/
theorem effectiveIp_spoofed :
    lastEntry (spoofed "6.6.6.6") = lastEntry (spoofed "6.6.6.7") ∧
    (spoofed "6.6.6.6").get "x-real-ip" = none ∧ (spoofed "6.6.6.7").get "x-real-ip" = none ∧
    effectiveIp true (spoofed "6.6.6.6") peerSample = "6.6.6.6" ∧
    effectiveIp true (spoofed "6.6.6.7") peerSample = "6.6.6.7" := by
  refine ⟨by decide +kernel, by decide +kernel, by decide +kernel, by decide +kernel,
    by decide +kernel⟩

end XavierDB.Routes

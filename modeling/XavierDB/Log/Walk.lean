import XavierDB.Log.Seq

/-!
# Walking back through the logs (`src/state.rs`)

The Logs tab reads the newest page and then, page by page, the lines before the
oldest entry it has. The numbers of a store that is not written to are its
positions, so each page is the end of what is left.
-/

namespace XavierDB.Log

/-- A request of a walk and the entries of its answer. -/
structure BackPage where
  before : Option Nat
  entries : List LogEntry

/-- The walk: it ends at an empty page or at one that begins with the entry 0. -/
def readBack (s : LogFileSink) (limit : Nat) : Nat → Option Nat → Option (List BackPage)
  | 0, _ => none
  | fuel + 1, before =>
    let page : BackPage := ⟨before, (s.read limit before).entries⟩
    match page.entries.head? with
    | none => some [page]
    | some oldest =>
      if oldest.seq = 0 then some [page]
      else (readBack s limit fuel (some oldest.seq)).map (page :: ·)

/-- A page as asked for: in order and without gaps, below `before`, within the limit. -/
structure BackPage.Proper (limit : Nat) (page : BackPage) : Prop where
  contiguous : ∃ first, page.entries.map LogEntry.seq = List.range' first page.entries.length
  below : ∀ e ∈ page.entries, ∀ b ∈ page.before, e.seq < b
  limited : page.entries.length ≤ limit

/-- What the pages of a walk are put together. -/
def together (pages : List BackPage) : List LogEntry := (pages.reverse.map (·.entries)).flatten

theorem together_cons (page : BackPage) (pages : List BackPage) :
    together (page :: pages) = together pages ++ page.entries := by
  simp [together]

theorem together_singleton (page : BackPage) : together [page] = page.entries := by
  simp [together]

/-! ## One page -/

theorem seq_entriesFrom (base : Nat) (ws : List Written) :
    (entriesFrom base ws).map LogEntry.seq = List.range' base ws.length := by
  have hsnd : (ws.zipIdx base).map Prod.snd = List.range' base ws.length :=
    List.zipIdx_map_snd base ws
  calc (entriesFrom base ws).map LogEntry.seq = (ws.zipIdx base).map Prod.snd := by
        rw [entriesFrom, List.map_map]
        rfl
    _ = List.range' base ws.length := hsnd

theorem drop_entriesFrom (base : Nat) {n : Nat} {ws : List Written} (hn : n ≤ ws.length) :
    (entriesFrom base ws).drop n = entriesFrom (base + n) (ws.drop n) := by
  have hlen : (ws.take n).length = n := by
    rw [List.length_take]
    omega
  have hcut := entriesFrom_append base (ws.take n) (ws.drop n)
  rw [List.take_append_drop, hlen] at hcut
  rw [hcut, List.drop_left' (by rw [length_entriesFrom, hlen])]

/-- The number of lines below `before`. -/
def upper (before : Option Nat) (n : Nat) : Nat := n - skipEnd before 0 n

/-- A page is the last lines of those below `before`. -/
theorem pageOf_entriesFrom {limit : Nat} (hlimit : 1 ≤ limit) (before : Option Nat)
    (ws : List Written) :
    pageOf limit before (entriesFrom 0 ws) =
      entriesFrom (upper before ws.length - limit)
        ((ws.take (upper before ws.length)).drop (upper before ws.length - limit)) := by
  have hle : upper before ws.length ≤ ws.length := Nat.sub_le ..
  have hlen : (ws.take (upper before ws.length)).length = upper before ws.length := by
    rw [List.length_take]
    omega
  rw [pageOf, if_neg (by omega), below_entriesFrom, ← upper, length_entriesFrom, hlen,
    drop_entriesFrom 0 (by omega), Nat.zero_add]

theorem upper_some {b n : Nat} (h : b ≤ n) : upper (some b) n = b := by
  show n - (n - (b - 0)) = b
  omega

/-! ## The walk -/

variable {s : LogFileSink} {ws : List Written} {limit : Nat}

/-- The last `limit` of the first `b` lines are a proper page. -/
theorem proper_last {before : Option Nat} {b : Nat} (hb : b ≤ ws.length)
    (hbefore : ∀ x ∈ before, b ≤ x) :
    BackPage.Proper limit
      ⟨before, entriesFrom (b - limit) ((ws.take b).drop (b - limit))⟩ := by
  have hlen : ((ws.take b).drop (b - limit)).length = min b limit := by
    rw [List.length_drop, List.length_take]
    omega
  have hseqs := seq_entriesFrom (b - limit) ((ws.take b).drop (b - limit))
  refine ⟨⟨b - limit, ?_⟩, fun e he x hx => ?_, ?_⟩
  · rw [hseqs, length_entriesFrom]
  · have hmem := List.mem_map_of_mem (f := LogEntry.seq) he
    have hx' := hbefore x hx
    rw [hseqs, List.mem_range'_1, hlen] at hmem
    omega
  · rw [length_entriesFrom, hlen]
    omega

theorem entriesFrom_take_append {b : Nat} (hb : b ≤ ws.length) (hlt : limit < b) :
    entriesFrom 0 (ws.take (b - limit)) ++
      entriesFrom (b - limit) ((ws.take b).drop (b - limit)) = entriesFrom 0 (ws.take b) := by
  have htake : (ws.take b).take (b - limit) = ws.take (b - limit) := by
    rw [List.take_take, Nat.min_eq_left (Nat.sub_le ..)]
  have hcut := entriesFrom_append 0 ((ws.take b).take (b - limit)) ((ws.take b).drop (b - limit))
  rw [List.take_append_drop, htake, List.length_take, Nat.min_eq_left (by omega),
    Nat.zero_add] at hcut
  exact hcut.symm

/-- From a `before` with `b` lines below it the walk gives these lines. -/
theorem readBack_eq (hread : ∀ limit before,
      (s.read limit before).entries = pageOf limit before (entriesFrom 0 ws))
    (hlimit : 1 ≤ limit) {b : Nat} (hb : b ≤ ws.length) {before : Option Nat}
    (hupper : upper before ws.length = b) (hbefore : ∀ x ∈ before, b ≤ x) :
    ∃ pages, (∀ fuel, b < fuel → readBack s limit fuel before = some pages) ∧
      (∀ page ∈ pages, page.Proper limit) ∧ together pages = entriesFrom 0 (ws.take b) := by
  induction b using Nat.strongRecOn generalizing before with
  | _ b ih =>
    have hpage := hread limit before
    rw [pageOf_entriesFrom hlimit, hupper] at hpage
    have hproper : BackPage.Proper limit ⟨before, (s.read limit before).entries⟩ :=
      hpage ▸ proper_last hb hbefore
    rcases Nat.lt_or_ge limit b with hlt | hge
    case inl =>
      -- the page begins with the entry `b - limit`, which is not 0
      obtain ⟨e, hhead, hseq⟩ : ∃ e, (s.read limit before).entries.head? = some e ∧
          e.seq = b - limit := by
        obtain ⟨w, rest, hrest⟩ := List.exists_cons_of_length_pos (by
          rw [List.length_drop, List.length_take]
          omega : 0 < ((ws.take b).drop (b - limit)).length)
        rw [hpage, hrest]
        exact ⟨_, rfl, rfl⟩
      obtain ⟨pages, hpages, hall, hput⟩ := ih (b - limit) (by omega) (by omega)
        (upper_some (by omega : b - limit ≤ ws.length)) fun x hx => by cases hx; exact Nat.le_refl _
      refine ⟨⟨before, (s.read limit before).entries⟩ :: pages, fun fuel hfuel => ?_,
        List.forall_mem_cons.mpr ⟨hproper, hall⟩, ?_⟩
      · obtain ⟨n, rfl⟩ : ∃ n, fuel = n + 1 := ⟨fuel - 1, by omega⟩
        rw [readBack, hhead]
        dsimp only
        rw [if_neg (by omega), hseq, hpages n (by omega), Option.map_some]
      · rw [together_cons, hput, hpage, entriesFrom_take_append hb hlt]
    case inr =>
      -- the page is all that is left
      have hall : (s.read limit before).entries = entriesFrom 0 (ws.take b) := by
        rw [hpage, Nat.sub_eq_zero_of_le hge, List.drop_zero]
      refine ⟨[⟨before, (s.read limit before).entries⟩], fun fuel hfuel => ?_,
        List.forall_mem_singleton.mpr hproper, by rw [together_singleton, hall]⟩
      obtain ⟨n, rfl⟩ : ∃ n, fuel = n + 1 := ⟨fuel - 1, by omega⟩
      rw [readBack, hall]
      cases ws.take b with
      | nil => rfl
      | cons w rest => rfl

/-- **Walking back** gives the entries of the whole store, each once, in proper pages. -/
theorem readBack_reassembles (files sizeBytes : Nat) (acts : List Act)
    (hacts : ∀ a ∈ acts, Journal.Newlineless a) (limit : Nat) (hlimit : 1 ≤ limit) :
    ∃ pages,
      (∀ fuel, (Journal.run files sizeBytes acts).store.kept.length < fuel →
        readBack (Journal.run files sizeBytes acts).sink limit fuel none = some pages) ∧
      (∀ page ∈ pages, page.Proper limit) ∧
      together pages = ((Journal.run files sizeBytes acts).sink.read 0 none).entries ∧
      (((Journal.run files sizeBytes acts).sink.read 0 none).entries.map LogEntry.seq).Nodup := by
  have hsound : Journal.Sound files (Journal.run files sizeBytes acts) := Journal.sound_run hacts
  have hread := hsound.holds.read_entries hsound.kept_clean
  have hall : upper none (Journal.run files sizeBytes acts).store.kept.length =
      (Journal.run files sizeBytes acts).store.kept.length := rfl
  obtain ⟨pages, hpages, hproper, hput⟩ :=
    readBack_eq hread hlimit (Nat.le_refl _) hall fun x hx => by cases hx
  refine ⟨pages, hpages, hproper, ?_, ?_⟩
  · rw [hput, hread, pageOf_all, List.take_length]
  · rw [hread, pageOf_all, seq_entriesFrom]
    exact List.nodup_range'

theorem readBack_reassembles_sample :
    ∃ pages,
      (∀ fuel, (Journal.run 1 0 [.write "a", .write "b"]).store.kept.length < fuel →
        readBack (Journal.run 1 0 [.write "a", .write "b"]).sink 1 fuel none = some pages) ∧
      (∀ page ∈ pages, page.Proper 1) ∧
      together pages = ((Journal.run 1 0 [.write "a", .write "b"]).sink.read 0 none).entries ∧
      (((Journal.run 1 0 [.write "a", .write "b"]).sink.read 0 none).entries.map
        LogEntry.seq).Nodup := by
  refine readBack_reassembles 1 0 _ ?_ 1 (Nat.le_refl 1)
  rintro a ha line rfl
  simp at ha
  rcases ha with rfl | rfl <;> decide

end XavierDB.Log

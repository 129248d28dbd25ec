import XavierDB.Base.Debounce

/-!
# Hot reload of the certificate (`src/tls.rs`, `src/main.rs`)

The certificate and the key have a watcher each; either one reloads both files and swaps the
acceptor, if the two fit. A renewal changes one file after the other, and the two watchers may
reload at the same time. `watch_file` watches the file that it finds when it begins and never
another one, so of a file that is moved to the path only its coming is noticed.
-/

namespace XavierDB.Tls

open Debounce Run

/-- What `rustls` and `rustls_pemfile` make of the contents of files. -/
structure Rustls (V Cert Key Config : Type) where
  certs : V → Except String (List Cert)
  privateKey : V → Except String (Option Key)
  withSingleCert : List Cert → Key → Except String Config

inductive Path where
  | cert
  | key
  deriving DecidableEq

variable {V Cert Key Config : Type}

/-- A file that is opened and read, or why it is not. -/
abbrev Content (V : Type) := Except String V

/-! ## The operations -/

/-- `load_server_config` up to the key file. -/
def readCerts (T : Rustls V Cert Key Config) (certPath : String) (cert : Content V) :
    Except String (List Cert) :=
  match cert with
  | .error e => .error s!"cannot open cert {certPath}: {e}"
  | .ok certFile =>
    match T.certs certFile with
    | .error e => .error s!"invalid certificate: {e}"
    | .ok [] => .error "no certificate found in file"
    | .ok (c :: certs) => .ok (c :: certs)

/-- The rest of `load_server_config`. -/
def withKey (T : Rustls V Cert Key Config) (keyPath : String) (certs : List Cert)
    (key : Content V) : Except String Config :=
  match key with
  | .error e => .error s!"cannot open key {keyPath}: {e}"
  | .ok keyFile =>
    match T.privateKey keyFile with
    | .error e => .error s!"invalid private key: {e}"
    | .ok none => .error "no private key found in file"
    | .ok (some key) =>
      match T.withSingleCert certs key with
      | .error e => .error s!"cert/key mismatch: {e}"
      | .ok cfg => .ok cfg

/-- `load_server_config`, on what the two files hold when it opens them. -/
def loadServerConfig (T : Rustls V Cert Key Config) (paths : Path → String)
    (cert key : Content V) : Except String Config :=
  match readCerts T (paths .cert) cert with
  | .error e => .error e
  | .ok certs => withKey T (paths .key) certs key

/-- `TlsState::reload` under way: an error ends it, and the acceptor is swapped at its end. -/
def reload (T : Rustls V Cert Key Config) (paths : Path → String) :
    List (Content V) → Verdict (Option Config)
  | [] => .more
  | [cert] =>
    match readCerts T (paths .cert) cert with
    | .error _ => .fail
    | .ok _ => .more
  | cert :: key :: _ =>
    match loadServerConfig T paths cert key with
    | .error _ => .fail
    | .ok cfg => .done (some cfg)

/-- The watchers of `start_watchers` for the two files. -/
def watchers (T : Rustls V Cert Key Config) (paths : Path → String) :
    System Path (Content V) (Option Config) where
  debounce := 1000
  order n := if n = 0 then .cert else .key
  verdict := reload T paths

/-- `TlsState::new`, and the watchers before they begin to watch. -/
def new (T : Rustls V Cert Key Config) (paths : Path → String) (files : Path → Content V)
    (now : ℕ) : Except String (State Path (Content V) (Option Config)) :=
  match loadServerConfig T paths (files .cert) (files .key) with
  | .error e => .error e
  | .ok cfg => .ok ⟨files, fun _ => ⟨.notYet, [], false, now, none⟩, some cfg, now⟩

/-! ## What a reload makes of the files -/

variable {T : Rustls V Cert Key Config} {paths : Path → String} {files : Path → Content V}
  {cfg : Config} {now : ℕ}

theorem readCerts_of_load {cert key : Content V} (h : loadServerConfig T paths cert key = .ok cfg) :
    ∃ certs, readCerts T (paths .cert) cert = .ok certs := by
  unfold loadServerConfig at h
  split at h
  case h_1 => cases h
  case h_2 certs hcerts => exact ⟨certs, hcerts⟩

theorem loads_of_load (h : loadServerConfig T paths (files .cert) (files .key) = .ok cfg) :
    (watchers T paths).Loads files (some cfg) := by
  obtain ⟨certs, hcerts⟩ := readCerts_of_load h
  refine ⟨2, ?_, fun m hm => ?_⟩
  · show reload T paths [files .cert, files .key] = .done (some cfg)
    rw [reload, h]
  · obtain rfl | rfl : m = 0 ∨ m = 1 := by omega
    · rfl
    · show reload T paths [files .cert] = .more
      rw [reload, hcerts]

/-- Only two files that fit are swapped in. -/
theorem load_of_reload {seen : List (Content V)} {acceptor : Option Config}
    (h : reload T paths seen = .done acceptor) :
    ∃ cfg cert key, acceptor = some cfg ∧ loadServerConfig T paths cert key = .ok cfg ∧
      seen[0]? = some cert ∧ seen[1]? = some key := by
  unfold reload at h
  split at h
  case h_1 => cases h
  case h_2 =>
    split at h
    · cases h
    · cases h
  case h_3 cert key rest =>
    split at h
    case h_1 => cases h
    case h_2 cfg hcfg =>
      cases h
      exact ⟨cfg, cert, key, rfl, hcfg, rfl, rfl⟩

/-! ## Any run -/

/-- A content that the file had at the start or was given in the run. -/
def Held (files : Path → Content V) (acts : List (ℕ × Act Path (Content V))) (p : Path)
    (v : Content V) : Prop :=
  v = files p ∨ ∃ a ∈ acts, a.2.Puts p v

variable {start s : State Path (Content V) (Option Config)} {acts : List (ℕ × Act Path (Content V))}

theorem new_ok (h : new T paths files now = .ok start) : ∃ cfg,
    loadServerConfig T paths (files .cert) (files .key) = .ok cfg ∧
      start = ⟨files, fun _ => ⟨.notYet, [], false, now, none⟩, some cfg, now⟩ := by
  unfold new at h
  split at h
  case h_1 => cases h
  case h_2 cfg hcfg => exact ⟨cfg, hcfg, (Except.ok.inj h).symm⟩

/-- **What is served is a pair of the files', and the present one once all is quiet.** In every
run of changes of the two files and of steps of their watchers, the acceptor is there, made of
a certificate and a key that fit and that were in the files; and when no event and no reload is
under way and the files as they are fit, it was made of these, provided that the last change was
an event and no reload ever took as long as the watchers wait. From a quiet moment on, what is
written to files that are not the watched ones is not served, unless some event comes. -/
theorem reload_follows (hnew : new T paths files now = .ok start)
    (hs : s = acts.foldl (watchers T paths).step start) :
    (∃ cfg cert key, s.served = some cfg ∧ loadServerConfig T paths cert key = .ok cfg ∧
      Held files acts .cert cert ∧ Held files acts .key key) ∧
      (Along (watchers T paths).step (watchers T paths).Prompt start acts →
        (watchers T paths).LastTold start acts → s.Quiet → ∀ cfg,
          loadServerConfig T paths (s.files .cert) (s.files .key) = .ok cfg →
            s.served = some cfg) ∧
      ∀ later : List (ℕ × Act Path (Content V)), s.Quiet → (∀ a ∈ later, s.Unseen a.2) →
        (later.foldl (watchers T paths).step s).served = s.served := by
  subst hs
  refine ⟨?_, fun hprompt htold hquiet cfg hcfg => ?_, fun later hquiet hlater =>
    (hquiet.run hlater).2⟩
  · have hstems : (watchers T paths).Stems (Held files acts) start := by
      obtain ⟨cfg, hcfg, rfl⟩ := new_ok hnew
      exact .start (fun p => .inl rfl) (fun _ => rfl) (loads_of_load hcfg)
    obtain ⟨seen, hdone, hread⟩ := (hstems.run fun a ha p v hv => .inr ⟨a, ha, hv⟩).served
    obtain ⟨cfg, cert, key, hserved, hcfg, hcert, hkey⟩ := load_of_reload hdone
    exact ⟨cfg, cert, key, hserved, hcfg, hread 0 cert hcert, hread 1 key hkey⟩
  · obtain ⟨cfg', hcfg', hstart⟩ := new_ok hnew
    have hinv : (watchers T paths).Inv start := by
      subst hstart
      exact .start (fun _ => rfl) (loads_of_load hcfg')
    exact (hinv.run (show 0 < 1000 by decide) hprompt htold).served_of_quiet hquiet
      (loads_of_load hcfg)

theorem prompt_of_path {a : ℕ × Act Path (Content V)} (h : ∀ p ∈ [Path.cert, .key],
    ∀ re ∈ (s.watchers p).reload, s.now + a.1 < re.started + 1000) :
    (watchers T paths).Prompt s a := by
  intro p re hre
  cases p with
  | cert => exact h .cert (by decide) re hre
  | key => exact h .key (by decide) re hre

/-- A renewal: the new certificate does not fit the old key, the new key, which is moved to its
place, then fits it. What is written to that key file later is not seen. -/
theorem reload_follows_renewal :
    let T : Rustls ℕ ℕ ℕ (ℕ × ℕ) :=
      ⟨fun file => .ok [file], fun file => .ok (some file), fun certs key =>
        if certs.head?.map (· / 10) = some (key / 10) then .ok (certs.headD 0, key)
        else .error "keys do not match"⟩
    let paths : Path → String := fun _ => "tls.pem"
    let start := State.mk (fun _ => .ok 10) (fun _ => ⟨.notYet, [], false, 0, none⟩)
      (some (10, 10)) 0
    let acts : List (ℕ × Act Path (Content ℕ)) :=
      [(1, .watch .cert true), (1, .watch .key true),
        (5, .write .cert (.ok 20)), (50, .receive .cert), (1100, .timeout .cert), (1, .work .cert),
        (1, .work .cert), (1, .work .cert), (9, .replace .key (.ok 21) true), (5, .receive .key),
        (1000, .timeout .key), (1, .work .key), (1, .work .key), (1, .work .key)]
    let later : List (ℕ × Act Path (Content ℕ)) :=
      [(9, .write .key (.ok 22)), (5, .receive .key), (1000, .timeout .key), (1, .work .key)]
    let s := acts.foldl (watchers T paths).step start
    s.served = some (20, 21) ∧ (later.foldl (watchers T paths).step s).served = some (20, 21) := by
  intro T paths start acts later s
  have hnew : new T paths (fun _ => .ok 10) 0 = .ok start := rfl
  have hcert : s.files .cert = .ok 20 := by
    simp [s, acts, start, files_step]
  have hkey : s.files .key = .ok 21 := by
    simp [s, acts, files_step]
  have hquiet : s.Quiet := by
    intro p
    cases p <;> exact ⟨by decide, by decide, Option.isNone_iff_eq_none.mp (by decide)⟩
  have hserved : s.served = some (20, 21) := by
    refine (reload_follows hnew rfl).2.1 ?_ ?_ hquiet (20, 21) (by rw [hcert, hkey]; rfl)
    · refine ⟨?_, ?_, ?_, ?_, ?_, ?_, ?_, ?_, ?_, ?_, ?_, ?_, ?_, ?_, trivial⟩ <;>
        exact prompt_of_path (by decide)
    · exact .of_change (acts.take 8) (show _ = _ ∧ _ by decide) rfl (by decide)
  have hgone : (s.watchers .key).watch = .gone := by decide
  have hlater : ∀ a ∈ later, s.Unseen a.2 := by
    clear_value s
    simpa [later, State.Unseen] using hgone
  exact ⟨hserved, ((reload_follows hnew rfl).2.2 later hquiet hlater).trans hserved⟩

end XavierDB.Tls

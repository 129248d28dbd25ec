import XavierDB.Base.Text

/-!
# Log entries (`src/state.rs`)

A line parsed into level, logger and message, and a message into the identity it
carries.
-/

namespace XavierDB.Log

structure LogEntry where
  seq : Nat
  raw : String
  level : String
  logger : String
  app : Option String
  name : Option String
  deriving DecidableEq

/-- Level, logger and message. -/
def parseLevelMsg (line : String) : String × String × String :=
  let rest := ((splitOnce " " line).map fun p => trimStart p.2).getD line
  let levelRest := (splitOnce " " rest).getD (rest, "")
  let loggerMsg := (splitOnce ": " levelRest.2).getD ("XavierDB", levelRest.2)
  (levelRest.1, loggerMsg.1, loggerMsg.2)

def identity (name app : String) : Option (String × String) :=
  if name.isEmpty || app.isEmpty || app.toList.contains ' ' then none else some (name, app)

/-- The name and the app of a login line. -/
def loginIdentity (msg : String) : Option (String × String) :=
  let rest := trim ((["login OK: ", "login failed: ", "login blocked: "].findSome?
    fun p => stripPrefix p msg).getD "")
  (rsplitOnce "@" rest).bind fun p =>
    identity p.1 (((splitOnce " from " p.2).map Prod.fst).getD p.2)

/-- The name and the app of a request line. -/
def requestIdentity (msg : String) : Option (String × String) :=
  let rest := ((rsplitOnce " as " msg).map fun p => trim p.2).getD ""
  (rsplitOnce "@" rest).bind fun p => identity p.1 p.2

/-- Name and app. -/
def logIdentify (msg : String) : Option String × Option String :=
  match (loginIdentity msg).orElse fun _ => requestIdentity msg with
  | some (n, a) => (some n, some a)
  | none => (none, none)

/-- The entry of a line. -/
def entryOf (seq : Nat) (line : String) : LogEntry :=
  let parsed := parseLevelMsg line
  let id := logIdentify parsed.2.2
  { seq := seq
    raw := line
    level := parsed.1
    logger := parsed.2.1
    app := id.2
    name := id.1 }

end XavierDB.Log

/-!
# API errors (`src/error.rs`)

`Res` is the outcome of a request handler: a value, an API error, or a panic
of the worker.
-/

namespace XavierDB

inductive ApiErrorKind where
  | badRequest | invalidCursor | invalidFilter | invalidSort | invalidLimit | invalidProjection
  | unauthorized | blocked | forbidden | notFound | tooManyRequests | conflict | internal
  | unavailable | timeout
  deriving DecidableEq, Repr

structure ApiError where
  kind : ApiErrorKind
  message : String
  deriving DecidableEq, Repr

namespace ApiError

def badRequest (msg : String) : ApiError := ⟨.badRequest, msg⟩

def internal (msg : String) : ApiError := ⟨.internal, msg⟩

end ApiError

inductive Fail where
  | api (e : ApiError)
  | panic
  deriving DecidableEq, Repr

abbrev Res (α : Type) := Except Fail α

/-- `Err(ApiError::new(kind, message))`. -/
def Res.err {α : Type} (kind : ApiErrorKind) (message : String) : Res α :=
  .error (.api ⟨kind, message⟩)

theorem eq_ok_of_toOption {ε α : Type} {x : Except ε α} {a : α} (h : x.toOption = some a) :
    x = .ok a := by
  cases x with
  | error e => cases h
  | ok b => rw [Option.some.inj h]

/-- A computation that goes through went through at each of its steps. -/
theorem bind_ok {ε α β : Type} {x : Except ε α} {g : α → Except ε β} {b : β}
    (h : (x >>= g) = .ok b) : ∃ a, x = .ok a ∧ g a = .ok b := by
  cases x with
  | error e => cases h
  | ok a => exact ⟨a, rfl, h⟩

theorem mapError_ok {ε ε' α : Type} {x : Except ε α} {f : ε → ε'} {a : α}
    (h : x.mapError f = .ok a) : x = .ok a := by
  cases x with
  | error e => cases h
  | ok b => rw [Except.ok.inj h]

theorem map_ok {ε α β : Type} {x : Except ε α} {f : α → β} {b : β} (h : x.map f = .ok b) :
    ∃ a, x = .ok a ∧ f a = b := by
  cases x with
  | error e => cases h
  | ok a => exact ⟨a, rfl, Except.ok.inj h⟩

end XavierDB

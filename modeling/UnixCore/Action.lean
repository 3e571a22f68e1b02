import UnixCore.Errno

/-! Computations on a state that may fail. What a computation did to the state before it failed
stays done, so that a failure in the middle of an operation is visible in the state it leaves. -/

namespace UnixCore

/-- A computation on a state `σ` that gives an `α` or fails, and leaves a state either way. -/
abbrev Action (σ α : Type) := EStateM Errno σ α

namespace Action

variable {σ τ α : Type}

def onPart (part : σ → τ) (put : τ → σ → σ) (act : Action τ α) : Action σ α := fun s =>
  match act (part s) with
  | .ok a t => .ok a (put t s)
  | .error e t => .error e (put t s)

/-- Runs a computation and reports how it ended instead of failing. -/
def outcome (act : Action σ α) : Action σ (Except Errno α) := fun s =>
  match act s with
  | .ok a t => .ok (.ok a) t
  | .error e t => .ok (.error e) t

def ofExcept : Except Errno α → Action σ α
  | .ok a => fun s => .ok a s
  | .error e => fun s => .error e s

def result (act : Action σ α) (s : σ) : Except Errno α × σ :=
  match act s with
  | .ok a t => (.ok a, t)
  | .error e t => (.error e, t)

@[simp] theorem ofExcept_ok (a : α) (s : σ) : (ofExcept (.ok a) : Action σ α) s = .ok a s := rfl

@[simp] theorem ofExcept_error (e : Errno) (s : σ) :
    (ofExcept (.error e) : Action σ α) s = .error e s := rfl

end Action

end UnixCore

import NativeExports.Error

/-!
# Computations with a log

Longer operations say what they do as they go. A `Logged` computation is an outcome together with
the entries written on the way, which are kept when it fails. Taking the outcome commutes with
sequencing, so what is proved about outcomes never mentions the log.
-/

namespace NativeExports

/-- How important a log entry is. -/
inductive LogLevel where
  | debug
  | info
  | warn
  deriving DecidableEq, Repr

structure LogEntry where
  level : LogLevel
  text : String
  deriving DecidableEq, Repr

/-- An outcome and the log entries written on the way to it, in order. -/
structure Logged (α : Type u) where
  entries : List LogEntry
  outcome : Except Error α

namespace Logged

/-- A computation that writes nothing. -/
def ofExcept (outcome : Except Error α) : Logged α :=
  ⟨[], outcome⟩

/-- One computation after another. -/
def andThen (x : Logged α) (f : α → Logged β) : Logged β :=
  match x.outcome with
  | .ok a =>
    let y := f a
    ⟨x.entries ++ y.entries, y.outcome⟩
  | .error e => ⟨x.entries, .error e⟩

instance : Monad Logged where
  pure a := ⟨[], .ok a⟩
  bind := andThen

instance : MonadExceptOf Error Logged where
  throw e := ⟨[], .error e⟩
  tryCatch x f :=
    match x.outcome with
    | .ok _ => x
    | .error e =>
      let y := f e
      ⟨x.entries ++ y.entries, y.outcome⟩

instance : MonadLift (Except Error) Logged where
  monadLift := ofExcept

def write (level : LogLevel) (text : String) : Logged Unit :=
  ⟨[⟨level, text⟩], .ok ()⟩

/-- Writes a debug entry. -/
def debug (text : String) : Logged Unit :=
  write .debug text

/-- Writes an entry on progress. -/
def info (text : String) : Logged Unit :=
  write .info text

def warn (text : String) : Logged Unit :=
  write .warn text

/-- An outcome together with a warning if the input turned out to be unsupported. -/
def explain (outcome : Except Error α) : Logged α :=
  match outcome with
  | .error (.unsupported variant) => ⟨[⟨.warn, variant.message⟩], outcome⟩
  | _ => ⟨[], outcome⟩

@[simp]
theorem outcome_pure (a : α) : (pure a : Logged α).outcome = .ok a :=
  rfl

@[simp]
theorem outcome_throw (e : Error) : (throw e : Logged α).outcome = .error e :=
  rfl

@[simp]
theorem outcome_bind (x : Logged α) (f : α → Logged β) :
    (x >>= f).outcome = x.outcome >>= fun a => (f a).outcome := by
  rcases x with ⟨entries, outcome⟩
  cases outcome <;> rfl

@[simp]
theorem outcome_monadLift (x : Except Error α) : (monadLift x : Logged α).outcome = x :=
  rfl

@[simp]
theorem outcome_write (level : LogLevel) (text : String) :
    (write level text).outcome = .ok () :=
  rfl

@[simp]
theorem outcome_explain (x : Except Error α) : (explain x).outcome = x := by
  unfold explain
  split <;> rfl

end Logged

end NativeExports

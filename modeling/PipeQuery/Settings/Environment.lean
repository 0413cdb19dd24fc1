-- SUMMARY: Environment variables, and the flags and levels they set.
import PipeQuery.Log.Level

/-! # Environment -/

namespace PipeQuery

/-- The variables that are set, with their values. -/
structure Environment where
  bindings : List (String × String)
  deriving DecidableEq, Repr

namespace Environment

/-- The environment in which nothing is set. -/
def empty : Environment := ⟨[]⟩

/-- The value of a variable. -/
def get? (env : Environment) (name : String) : Option String :=
  env.bindings.lookup name

/-- The flag that a value spells. No other spelling is accepted. -/
def parseFlag? : String → Option Bool
  | "true" => some true
  | "false" => some false
  | _ => none

/-- The flag that a variable sets, or else the default. -/
def flag (env : Environment) (name : String) (default : Bool) : Bool :=
  ((env.get? name).bind parseFlag?).getD default

/-- The level that a variable sets, or else the default. -/
def level (env : Environment) (name : String) (default : Level) : Level :=
  ((env.get? name).bind Level.ofVariable?).getD default

end Environment

end PipeQuery

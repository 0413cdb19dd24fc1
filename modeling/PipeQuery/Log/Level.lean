-- SUMMARY: Log levels, their order, and their names in output, in configuration and in the environment.

/-! # Log Levels -/

namespace PipeQuery

/-- How important an event is, the most important first. -/
inductive Level where
  | error
  | warning
  | info
  | debug
  deriving DecidableEq, Repr

namespace Level

def all : List Level := [.error, .warning, .info, .debug]

def rank : Level → Nat
  | .error => 0
  | .warning => 1
  | .info => 2
  | .debug => 3

/-- Whether events of a level pass a filter with this minimum. -/
def admits (minimum level : Level) : Bool := level.rank ≤ minimum.rank

/-- The name in log output. -/
def name : Level → String
  | .error => "ERROR"
  | .warning => "WARN"
  | .info => "INFO"
  | .debug => "DEBUG"

def ofName? (name : String) : Option Level :=
  all.find? (·.name == name)

/-- The word in configuration files. -/
def word : Level → String
  | .error => "error"
  | .warning => "warning"
  | .info => "info"
  | .debug => "debug"

def ofWord? (word : String) : Option Level :=
  all.find? (·.word == word)

/-- The level of a number, where all numbers from 3 on mean the last one. -/
def ofRank : Nat → Level
  | 0 => .error
  | 1 => .warning
  | 2 => .info
  | _ => .debug

/-- The level that an environment variable names: a word in any case, or a
number. Only ASCII letters have to be folded, since no other letter has one of
these as its lower-case form. -/
def ofVariable? (value : String) : Option Level :=
  match String.ofList (value.toList.map Char.toLower) with
  | "error" | "0" => some .error
  | "warning" | "warn" | "1" => some .warning
  | "info" | "2" => some .info
  | "debug" | "3" => some .debug
  | _ => none

end Level

end PipeQuery

-- SUMMARY: Writing JSON: the compact text of a value.
import PipeQuery.Json.Basic
import PipeQuery.Json.Compact

/-! # Writing JSON

The compact form, without blanks and with escapes for control characters, so that
a written value is a single line. -/

namespace PipeQuery.Json

/-! ## Strings -/

/-- What stands between the quotes of a string. Half a character stands for all
strings that are no texts. -/
def escapeText : Text → List Char
  | some s => s.toList.flatMap escape
  | none => "\\ud800".toList

def printText (t : Text) : List Char :=
  '"' :: (escapeText t ++ ['"'])

theorem printText_some (s : String) :
    printText (some s) = '"' :: (s.toList.flatMap escape ++ ['"']) := rfl

/-! ## Numbers -/

def Number.print (n : Number) : List Char :=
  (if n.negative then ['-'] else []) ++ Nat.toDigits 10 n.whole ++ n.tail

/-! ## Values -/

mutual

/-- The compact text of a value. -/
def print : Json → List Char
  | .null => "null".toList
  | .bool true => "true".toList
  | .bool false => "false".toList
  | .number n => n.print
  | .string t => printText t
  | .array items => '[' :: (printItems items ++ [']'])
  | .object members => '\x7b' :: (printMembers members ++ ['\x7d'])

def printItems : List Json → List Char
  | [] => []
  | [v] => print v
  | v :: w :: vs => print v ++ ',' :: printItems (w :: vs)

def printMembers : List (Text × Json) → List Char
  | [] => []
  | [(k, v)] => printText k ++ ':' :: print v
  | (k, v) :: m :: ms => printText k ++ ':' :: (print v ++ ',' :: printMembers (m :: ms))

end

section Print

@[simp] theorem print_null : print .null = ['n', 'u', 'l', 'l'] := rfl

@[simp] theorem print_bool (b : Bool) : print (.bool b) = (toString b).toList := by
  cases b <;> rfl

@[simp] theorem print_number (n : Number) : print (.number n) = n.print := rfl

@[simp] theorem print_string (t : Text) : print (.string t) = printText t := rfl

@[simp] theorem print_array (items : List Json) :
    print (.array items) = '[' :: (printItems items ++ [']']) := rfl

@[simp] theorem print_object (members : List (Text × Json)) :
    print (.object members) = '\x7b' :: (printMembers members ++ ['\x7d']) := rfl

end Print

/-- The compact text of a value, as a string. -/
def render (j : Json) : String :=
  String.ofList (print j)

end PipeQuery.Json

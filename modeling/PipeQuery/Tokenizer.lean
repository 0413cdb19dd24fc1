-- SUMMARY: The tokenizer: one token at a time from the unread text, recovery from text that no rule accepts, and whole runs.
import PipeQuery.Mode.Stack
import PipeQuery.Recognizer.Reach
import PipeQuery.Rule.Table
import PipeQuery.Token.Basic

/-! # Tokenizer

Every call makes progress, so a run ends with a single end-of-input token. Text
that no rule of the current mode accepts becomes one unknown token: as much as
some rule could still have completed, and the character it failed on. -/

namespace PipeQuery

/-- A run over a text, between two tokens. -/
structure Tokenizer where
  /-- The unread text. -/
  rest : List Char
  /-- Where the unread text begins. -/
  position : Position
  modes : ModeStack
  /-- Whether the end of input has been produced. -/
  finished : Bool
  deriving DecidableEq, Repr

namespace Tokenizer

/-- The beginning of a run that holds at most `maxDepth` modes. -/
def start (maxDepth : Nat) (text : List Char) : Tokenizer :=
  { rest := text, position := .start, modes := .withLimit maxDepth, finished := false }

def mode (t : Tokenizer) : Mode := t.modes.current

/-! ## Unknown Text -/

/-- How far the rules of a mode could still have completed a text. -/
def reach (rules : List Rule) (cs : List Char) : Nat :=
  rules.foldl (fun n rule => max n (rule.recognizer.reach cs)) 0

/-- How many characters of a text, which no rule matches, make the unknown token. -/
def unknownLength (rules : List Rule) (cs : List Char) : Nat :=
  reach rules cs + 1

/-! ## Tokens -/

/-- What the next token takes of the unread text: its kind, channel, length and
the actions that follow it. -/
structure Choice where
  kind : TokenKind
  channel : Channel
  length : Nat
  actions : List ModeAction
  deriving DecidableEq, Repr

/-- The choice for a text in a mode. -/
def choose (mode : Mode) (cs : List Char) : Choice :=
  match longestMatch mode.rules cs with
  | some (rule, n) => ⟨rule.kind, rule.channel, n, rule.actions⟩
  | none => ⟨.unknown, .default, unknownLength mode.rules cs, []⟩

/-- The next token and the run after it. At the end of the text every call gives
the end of input. -/
def next (t : Tokenizer) : Token × Tokenizer :=
  match t.rest with
  | [] => (.eof t.position, { t with finished := true })
  | cs@(_ :: _) =>
    let choice := choose t.mode cs
    let text := cs.take choice.length
    let stop := t.position.advanceOver text
    ({ kind := choice.kind
       text := String.ofList text
       span := ⟨t.position, stop⟩
       channel := choice.channel },
     { t with
       rest := cs.drop choice.length
       position := stop
       modes := t.modes.applyAll choice.actions })

/-- Every token takes some character. -/
theorem choose_length_pos (mode : Mode) (cs : List Char) : 0 < (choose mode cs).length := by
  unfold choose
  split
  case h_1 rule n h => exact (longestMatch_matches h).2.2
  case h_2 => exact Nat.succ_pos _

theorem next_of_rest_nil {t : Tokenizer} (h : t.rest = []) :
    t.next = (.eof t.position, { t with finished := true }) := by
  unfold next
  split
  case h_1 => rfl
  case h_2 c cs hc => simp [h] at hc

@[simp] theorem rest_next (t : Tokenizer) :
    t.next.2.rest = t.rest.drop (choose t.mode t.rest).length := by
  unfold next
  split
  case h_1 h => simp [h]
  case h_2 c cs h => simp [h]

theorem length_rest_next_lt {t : Tokenizer} (h : t.rest ≠ []) :
    t.next.2.rest.length < t.rest.length := by
  have pos := choose_length_pos t.mode t.rest
  have len := List.length_pos_iff.2 h
  simp only [rest_next, List.length_drop]
  omega

/-- The next token, or nothing once the end of input has been produced. -/
def next? (t : Tokenizer) : Option Token × Tokenizer :=
  if t.finished then (none, t)
  else
    let (token, t) := t.next
    (some token, t)

/-! ## Runs -/

/-- A token of a run with the mode it was read in and the mode stack after it. -/
structure Step where
  mode : Mode
  token : Token
  modes : ModeStack
  deriving DecidableEq, Repr

/-- Up to `count` more steps, in front of which stand `done`, the last one first. -/
def stepsFrom (done : List Step) : Nat → Tokenizer → List Step
  | 0, _ => done.reverse
  | count + 1, t =>
    if t.finished then done.reverse
    else
      let (token, u) := t.next
      stepsFrom ({ mode := t.mode, token, modes := u.modes } :: done) count u

/-- The first `count` steps of what is left of a run. -/
def firstSteps (count : Nat) (t : Tokenizer) : List Step :=
  stepsFrom [] count t

theorem stepsFrom_eq (done : List Step) (count : Nat) (t : Tokenizer) :
    stepsFrom done count t = done.reverse ++ t.firstSteps count := by
  induction count generalizing done t with
  | zero => simp [firstSteps, stepsFrom]
  | succ count ih =>
    simp only [firstSteps, stepsFrom]
    split
    · simp
    · rw [ih, ih [_]]
      simp

@[simp] theorem firstSteps_zero (t : Tokenizer) : t.firstSteps 0 = [] := rfl

theorem firstSteps_of_finished {t : Tokenizer} (h : t.finished = true) (count : Nat) :
    t.firstSteps count = [] := by
  cases count <;> simp [firstSteps, stepsFrom, h]

theorem firstSteps_succ {t : Tokenizer} (h : t.finished = false) (count : Nat) :
    t.firstSteps (count + 1) =
      { mode := t.mode, token := t.next.1, modes := t.next.2.modes } ::
        t.next.2.firstSteps count := by
  rw [firstSteps, stepsFrom, h]
  simp [stepsFrom_eq]

/-- The steps that are left of a run. Each but the last takes a character, so
there is no more than one for each character and the end of input. -/
def steps (t : Tokenizer) : List Step :=
  t.firstSteps (t.rest.length + 1)

def tokens (t : Tokenizer) : List Token :=
  t.steps.map (·.token)

end Tokenizer

end PipeQuery

-- SUMMARY: The constants that a profile is written as hold its limits, and with which profiles that pass their check logging can be started.
import PipeQuery.Proofs.Text.Digit
import PipeQuery.Session
import PipeQuery.Settings.Profile

/-! # Profiles at Work

The limits of a profile are checked when a library is built, and the constants written for
them are checked again when the library starts to work. The first check knows ceilings only,
the second one has floors of its own. -/

namespace PipeQuery

namespace Session

/-- Whether the limits of the analyzer hold does not depend on the session. -/
theorem value_checkLimits (limits : Limits) (now : Moment) (s : Session) :
    (s.checkLimits limits now).value = limits.checkLexical := by
  unfold checkLimits
  rw [Code.firstMissing?_lexical]
  split
  case h_1 hmissing => exact absurd hmissing nofun
  case h_2 defect _ hdefect => exact hdefect.symm
  case h_3 _ hok => exact hok.symm

/-- Logging is refused for its limits exactly if they fail their check. -/
theorem startLogging_eq_badLimits_iff {limits : Limits} {now : Moment} {s : Session}
    {defect : Limits.Defect} :
    (s.startLogging limits now).value = .error (.badLimits defect) ↔
      limits.checkLogging = .error defect := by
  unfold startLogging
  split
  case h_1 found _ hfound => simp [hfound]
  case h_2 hok _ => simp [hok]
  case h_3 hok _ => simp [hok, Code.firstMissing?_essential]

end Session

namespace Profile

/-! ## Declarations -/

/-- What the declaration of a constant begins with. -/
def declarationLead : List Char := "        pub const ".toList

/-- The name and the value of the constant that a line declares. -/
def declared? (line : List Char) : Option (String × Nat) :=
  if declarationLead.isPrefixOf line then
    let declaration := line.drop declarationLead.length
    let value := (declaration.dropWhile (· != '=')).drop 2
    some (String.ofList (declaration.takeWhile (· != ':')),
      Text.digitsValue 10 (value.takeWhile Char.isDigit))
  else none

/-- The constants that a source text declares, in order. -/
def declarations (text : List Char) : List (String × Nat) :=
  (text.splitOn '\n').filterMap declared?

/-- The limits that a source text declares. Of several declarations of a constant the last one
counts, so that a line in the name of a profile never does. -/
def declaredLimits? (text : String) : Option Limits := do
  let value? (name : String) := (declarations text.toList).reverse.lookup name
  return {
    maxInputSize := ← value? "MAX_INPUT_SIZE"
    maxTokenCount := ← value? "MAX_TOKEN_COUNT"
    maxModeDepth := ← value? "MAX_MODE_DEPTH"
    maxReportedDiagnostics := ← value? "MAX_REPORTED_DIAGNOSTICS"
    logBufferSize := ← value? "LOG_BUFFER_SIZE"
    maxLogMessageLength := ← value? "MAX_LOG_MESSAGE_LENGTH"
    securityMinLogLevel := ← value? "SECURITY_MIN_LOG_LEVEL" }

/-- Every line is read on its own. -/
theorem declarations_append_feed (text rest : List Char) :
    declarations (text ++ '\n' :: rest) = declarations text ++ declarations rest := by
  rw [declarations, List.splitOn_append_cons_self, List.filterMap_append, declarations,
    declarations]

section Constant

variable {name type : String}

/-- A declaration without its line end. -/
def declaration (name type : String) (value : Nat) : List Char :=
  declarationLead ++ (name.toList ++ ':' :: ' ' ::
    (type.toList ++ ' ' :: '=' :: ' ' :: (Nat.toDigits 10 value ++ [';'])))

theorem toList_constant (name type : String) (value : Nat) :
    (constant name type value).toList = declaration name type value ++ ['\n'] := by
  have hself : ∀ s : String, toString s = s := fun _ => rfl
  have hdigits : (toString value).toList = Nat.toDigits 10 value := String.toList_ofList
  unfold constant
  -- The number is named, so that its text is not worked out.
  generalize toString value = digits at hdigits ⊢
  simp only [hself, String.toList_append, hdigits]
  unfold declaration declarationLead
  simp

theorem declared?_declaration (hcolon : ':' ∉ name.toList)
    (hsign : '=' ∉ name.toList ++ type.toList) (value : Nat) :
    declared? (declaration name type value) = some (name, value) := by
  rw [List.mem_append, not_or] at hsign
  have hne : ∀ {c : Char} {cs : List Char}, c ∉ cs → ∀ d ∈ cs, (d != c) = true :=
    fun h d hd => bne_iff_ne.2 fun heq => h (heq ▸ hd)
  have hname : ∀ cs, (name.toList ++ ':' :: cs).takeWhile (· != ':') = name.toList := by
    intro cs
    rw [List.takeWhile_append_of_pos (hne hcolon)]
    simp
  have hvalue : ∀ cs, (name.toList ++ ':' :: ' ' :: (type.toList ++ ' ' :: '=' :: cs)).dropWhile
      (· != '=') = '=' :: cs := by
    intro cs
    rw [List.dropWhile_append_of_pos (hne hsign.1)]
    simp [List.dropWhile_append_of_pos (hne hsign.2)]
  have hdigits : (Nat.toDigits 10 value ++ [';']).takeWhile Char.isDigit =
      Nat.toDigits 10 value := by
    rw [List.takeWhile_append_of_pos Text.isDigit_of_mem_toDigits]
    simp
  have hlead : declarationLead.isPrefixOf (declaration name type value) = true :=
    List.isPrefixOf_iff_prefix.2 (List.prefix_append _ _)
  rw [declared?, if_pos hlead]
  simp only [declaration, List.drop_left, hname, hvalue, List.drop_succ_cons, List.drop_zero,
    hdigits, Text.digitsValue_toDigits, String.ofList_toList]

theorem notMem_declaration (hname : '\n' ∉ name.toList) (htype : '\n' ∉ type.toList) (value : Nat) :
    '\n' ∉ declaration name type value := by
  have hlead : '\n' ∉ declarationLead := by decide
  have hdigits : '\n' ∉ Nat.toDigits 10 value :=
    fun h => absurd (Text.isDigit_of_mem_toDigits _ h) (by decide)
  simp [declaration, hlead, hname, htype, hdigits]

/-- A constant is read off its declaration. -/
theorem declarations_constant (hmarks : ':' ∉ name.toList ∧ '=' ∉ name.toList ++ type.toList ∧
      '\n' ∉ name.toList ++ type.toList) (value : Nat) (rest : List Char) :
    declarations ((constant name type value).toList ++ rest) =
      (name, value) :: declarations rest := by
  obtain ⟨hcolon, hsign, hfeed⟩ := hmarks
  rw [List.mem_append, not_or] at hfeed
  have hline : declarations (declaration name type value) = [(name, value)] := by
    rw [declarations, List.splitOn_eq_singleton (notMem_declaration hfeed.1 hfeed.2 value)]
    simp [declared?_declaration hcolon hsign value]
  rw [toList_constant, List.append_assoc, List.singleton_append, declarations_append_feed, hline]
  rfl

end Constant

/-- Lines that declare nothing do not count. -/
theorem declarations_append_of_plain (text : String) (hfeed : text.toList.getLast? = some '\n')
    (hnone : declarations text.toList = []) (rest : List Char) :
    declarations (text.toList ++ rest) = declarations rest := by
  obtain ⟨front, hfront⟩ := List.getLast?_eq_some_iff.1 hfeed
  have hempty : declarations [] = [] := rfl
  rw [hfront, declarations_append_feed, hempty, List.append_nil] at hnone
  rw [hfront, List.append_assoc, List.singleton_append, declarations_append_feed, hnone,
    List.nil_append]

/-- The constants stand behind the first line, each with its limit. -/
theorem exists_declarations_constants (profile : String) (l : Limits) :
    ∃ front, declarations (constants profile l).toList = front ++
      [("MAX_INPUT_SIZE", l.maxInputSize), ("MAX_TOKEN_COUNT", l.maxTokenCount),
        ("MAX_MODE_DEPTH", l.maxModeDepth), ("MAX_REPORTED_DIAGNOSTICS", l.maxReportedDiagnostics),
        ("LOG_BUFFER_SIZE", l.logBufferSize), ("MAX_LOG_MESSAGE_LENGTH", l.maxLogMessageLength),
        ("SECURITY_MIN_LOG_LEVEL", l.securityMinLogLevel)] := by
  have hself : ∀ s : String, toString s = s := fun _ => rfl
  have hname : "\x60 profile; do not edit\n".toList =
      "\x60 profile; do not edit".toList ++ ['\n'] := rfl
  have hend : declarations "    \x7d\n\x7d\n".toList = [] := by decide
  refine ⟨declarations ("// Generated by build.rs from the \x60".toList ++
    (profile.toList ++ "\x60 profile; do not edit".toList)), ?_⟩
  unfold constants
  simp only [hself, String.toList_append, List.append_assoc, hname, List.cons_append,
    List.nil_append]
  -- The name of the profile may be any text, so nothing is said of the line that it stands in.
  rw [← List.append_assoc profile.toList, ← List.append_assoc, declarations_append_feed]
  rw [declarations_append_of_plain "pub mod compile_time \x7b\n" (by decide) (by decide),
    declarations_append_of_plain "    pub mod lexical \x7b\n" (by decide) (by decide),
    declarations_constant (by decide), declarations_constant (by decide),
    declarations_constant (by decide), declarations_constant (by decide),
    declarations_append_of_plain "    \x7d\n\n" (by decide) (by decide),
    declarations_append_of_plain "    pub mod logging \x7b\n" (by decide) (by decide),
    declarations_constant (by decide), declarations_constant (by decide),
    declarations_constant (by decide), hend]

/-- The constants of a profile are its limits. -/
theorem declaredLimits?_constants (profile : String) (l : Limits) :
    declaredLimits? (constants profile l) = some l := by
  obtain ⟨front, hfront⟩ := exists_declarations_constants profile l
  simp [declaredLimits?, hfront, List.lookup_cons]

/-! ## Checks -/

variable {profile : String} {l : Limits}

/-- No limit is missing from the ceilings, so that none may have any number. -/
theorem lookup_ceilings (l : Limits) :
    ∀ limit ∈ bounded l, ceilings.lookup limit.1 = some (ceiling limit.1) := by
  simp only [bounded, List.forall_mem_cons]
  exact ⟨rfl, rfl, rfl, rfl, rfl, rfl, nofun⟩

/-- Of a profile that passes its check every limit is positive and not above its ceiling, which
is listed. -/
theorem bounds_of_check (h : check profile l = .ok ()) :
    ∀ limit ∈ bounded l, ∃ ceiling, ceilings.lookup limit.1 = some ceiling ∧
      0 < limit.2 ∧ limit.2 ≤ ceiling := by
  intro limit hlimit
  refine ⟨_, lookup_ceilings l limit hlimit, ?_⟩
  unfold check at h
  split at h
  case h_1 => exact absurd h nofun
  case h_2 hnone =>
    have hbound : ¬(decide (limit.2 = 0) || decide (ceiling limit.1 < limit.2)) = true :=
      List.find?_eq_none.1 hnone _ hlimit
    simp only [Bool.or_eq_true, decide_eq_true_eq, not_or] at hbound
    exact ⟨Nat.pos_of_ne_zero hbound.1, Nat.not_lt.1 hbound.2⟩

theorem pos_of_check (h : check profile l = .ok ()) : ∀ limit ∈ bounded l, 0 < limit.2 := by
  intro limit hlimit
  obtain ⟨-, -, hpos, -⟩ := bounds_of_check h limit hlimit
  exact hpos

theorem logBufferSize_le_of_check (h : check profile l = .ok ()) : l.logBufferSize ≤ 100000 := by
  obtain ⟨ceiling, hceiling, -, hle⟩ :=
    bounds_of_check h ("log_buffer_size", l.logBufferSize) (by simp [bounded])
  obtain rfl : 100000 = ceiling := Option.some.inj hceiling
  exact hle

theorem checkLexical_of_check (h : check profile l = .ok ()) : l.checkLexical = .ok () := by
  have hpos := pos_of_check h
  simp only [bounded, List.forall_mem_cons] at hpos
  rw [Limits.checkLexical, if_neg]
  omega

/-- Such a profile has no buffer that is too large, so what is wrong with it is its size or the
length of its messages. -/
theorem checkLogging_of_check (h : check profile l = .ok ()) :
    l.checkLogging =
      if l.logBufferSize < 100 then .error (.bufferTooSmall l.logBufferSize)
      else if l.maxLogMessageLength < 64 then .error (.messageTooShort l.maxLogMessageLength)
      else .ok () := by
  rw [Limits.checkLogging, if_neg (Nat.not_lt.2 (logBufferSize_le_of_check h))]

/-- The limits that a checked profile is written with let the analyzer work and leave no buffer
too large. Logging can be started with them exactly if the buffer holds a hundred events and
messages may have 64 bytes, for which the check of the profile does not ask. -/
theorem starts_iff_of_check (h : check profile l = .ok ()) :
    declaredLimits? (constants profile l) = some l ∧
    (∀ now s, (Session.checkLimits l now s).value = .ok ()) ∧
    l.logBufferSize ≤ 100000 ∧
    (l.checkLogging = .ok () ↔ 100 ≤ l.logBufferSize ∧ 64 ≤ l.maxLogMessageLength) ∧
    ∀ now s defect, (Session.startLogging l now s).value = .error (.badLimits defect) ↔
      defect = .bufferTooSmall l.logBufferSize ∧ l.logBufferSize < 100 ∨
      defect = .messageTooShort l.maxLogMessageLength ∧ 100 ≤ l.logBufferSize ∧
        l.maxLogMessageLength < 64 := by
  have hlogging := checkLogging_of_check h
  refine ⟨declaredLimits?_constants profile l, fun now s => ?_, logBufferSize_le_of_check h, ?_,
    fun now s defect => ?_⟩
  · rw [Session.value_checkLimits, checkLexical_of_check h]
  -- The bounds of profiles and those of logging differ at the lower end only.
  · rw [hlogging]
    split
    case isTrue => simp; omega
    case isFalse => split <;> simp <;> omega
  · rw [Session.startLogging_eq_badLimits_iff, hlogging]
    split
    case isTrue hsmall => simp [hsmall, eq_comm, Nat.not_le.2 hsmall]
    case isFalse hlarge =>
      split
      case isTrue hshort => simp [hlarge, hshort, eq_comm, Nat.not_lt.1 hlarge]
      case isFalse hlong => simp [hlarge, hlong]

/-- The least buffer and the shortest messages do. -/
theorem starts_of_least :
    check "least" ⟨1, 1, 1, 1, 100, 64, 0⟩ = .ok () ∧
      Limits.checkLogging ⟨1, 1, 1, 1, 100, 64, 0⟩ = .ok () := by
  have hcheck : check "least" ⟨1, 1, 1, 1, 100, 64, 0⟩ = .ok () := rfl
  exact ⟨hcheck, (starts_iff_of_check hcheck).2.2.2.1.2 ⟨by decide, by decide⟩⟩

/-- A profile with a buffer for 99 events passes its check, and logging is never started with the
constants that are written for it. -/
theorem not_starts_of_small_buffer :
    let l : Limits := ⟨1, 1, 1, 1, 99, 64, 1⟩
    check "small" l = .ok () ∧ declaredLimits? (constants "small" l) = some l ∧
      ∀ now s, (Session.startLogging l now s).value = .error (.badLimits (.bufferTooSmall 99)) :=
  ⟨rfl, declaredLimits?_constants _ _, fun _ _ => Session.startLogging_eq_badLimits_iff.2 rfl⟩

end Profile

end PipeQuery

/-
  Ferry.Command.Arguments

  The words of a command line. Options are written `--name value`, `--name=value` or by one letter,
  `-n value`, `-nvalue`, `-n=value`; letters of options without a value may be written together.
  After `--` every word is an input. Options that are not repeatable may be given once.

  Words are read in order, so a question for help is answered unless something before it is wrong.
-/
import Ferry.Source.Literal

namespace Ferry.Command

/-- Options that are given without a value. -/
inductive Flag where
  | verbose
  | sequential
  | strict
  | denyWarnings
  | trace
  | stats
deriving DecidableEq, Repr

/-- Options that are given with a value. -/
inductive Setting where
  | outDir
  | lineLimit
  | indent
  | disablePass
  | suppress
  | refresh
  | report
deriving DecidableEq, Repr

inductive Opt where
  | flag (flag : Flag)
  | setting (setting : Setting)
  | help
deriving DecidableEq, Repr

inductive Verb where
  | translate
  | passes
deriving DecidableEq, Repr

def namedOptions : Verb → List (String × Opt)
  | .translate =>
    [("verbose", .flag .verbose), ("out-dir", .setting .outDir),
     ("line-limit", .setting .lineLimit), ("indent", .setting .indent),
     ("disable-pass", .setting .disablePass), ("sequential", .flag .sequential),
     ("strict", .flag .strict), ("deny-warnings", .flag .denyWarnings),
     ("suppress", .setting .suppress), ("refresh", .setting .refresh),
     ("report", .setting .report), ("trace", .flag .trace), ("stats", .flag .stats),
     ("help", .help)]
  | .passes =>
    [("verbose", .flag .verbose), ("disable-pass", .setting .disablePass), ("help", .help)]

def letteredOptions : Verb → List (Char × Opt)
  | .translate =>
    [('v', .flag .verbose), ('o', .setting .outDir), ('s', .flag .strict), ('h', .help)]
  | .passes => [('v', .flag .verbose), ('h', .help)]

/-! ## Words -/

inductive Piece where
  | flag (flag : Flag)
  | setting (setting : Setting) (value : String)
  | input (text : String)
  | help
deriving DecidableEq, Repr

inductive Word where
  /-- Everything after it is an input. -/
  | escape
  /-- `--name` or `--name=value`. -/
  | long (name : String) (value : Option String)
  /-- `-` and letters. -/
  | short (letters : List Char)
  | plain (text : String)

def Word.ofText (text : String) : Word :=
  match text.toList with
  | ['-', '-'] => .escape
  | '-' :: '-' :: cs =>
    let name := cs.takeWhile (· != '=')
    match cs.drop name.length with
    | _ :: value => .long (String.ofList name) (some (String.ofList value))
    | [] => .long (String.ofList name) none
  | '-' :: c :: cs => .short (c :: cs)
  | _ => .plain text

/-- What letters stand for, and the option at their end that still needs its value. Nothing after
the question for help is looked at. -/
def readLetters (verb : Verb) : List Char → Option (List Piece × Option Setting)
  | [] => some ([], none)
  | c :: cs => do
    match ← (letteredOptions verb).lookup c with
    | .flag flag =>
      let (pieces, unfinished) ← readLetters verb cs
      return (.flag flag :: pieces, unfinished)
    | .help => return ([.help], none)
    | .setting setting =>
      match cs with
      | [] => return ([], some setting)
      | '=' :: value => return ([.setting setting (String.ofList value)], none)
      | value => return ([.setting setting (String.ofList value)], none)

/-- What the words after a verb contribute in order, up to a question for help; none if they make no
sense. -/
def readPieces (verb : Verb) : List String → Option (List Piece)
  | [] => some []
  | text :: rest =>
    match Word.ofText text with
    | .escape => some (rest.map .input)
    | .plain text => do return .input text :: (← readPieces verb rest)
    | .long name value => do
      match ← (namedOptions verb).lookup name, value with
      | .flag flag, none => return .flag flag :: (← readPieces verb rest)
      | .help, none => return [.help]
      | .flag _, some _ | .help, some _ => none
      | .setting setting, some value => return .setting setting value :: (← readPieces verb rest)
      | .setting setting, none => withValue setting rest
    | .short letters => do
      let (pieces, unfinished) ← readLetters verb letters
      if pieces.contains .help then return pieces
      else
        match unfinished with
        | none => return pieces ++ (← readPieces verb rest)
        | some setting => return pieces ++ (← withValue setting rest)
where
  /-- What words contribute of which the first is the value of an option. -/
  withValue (setting : Setting) : List String → Option (List Piece)
  | [] => none
  | value :: rest =>
    match Word.ofText value with
    | .plain value => do return .setting setting value :: (← readPieces verb rest)
    | _ => none

/-! ## Command lines -/

/-- What to translate and how. -/
structure TranslateArguments where
  inputs : List String
  outDir : Option String := none
  lineLimit : Nat := 100
  indent : Nat := 4
  disabled : List String := []
  isSequential : Bool := false
  isStrict : Bool := false
  deniesWarnings : Bool := false
  suppressed : List Code := []
  refresh : Option String := none
  report : Option String := none
  isTraced : Bool := false
  showsStatistics : Bool := false

inductive Action where
  | translate (arguments : TranslateArguments)
  | passes (disabled : List String)

structure CommandLine where
  /-- How often more output was asked for. -/
  verbosity : Nat := 0
  action : Action

inductive Topic where
  | program
  | verb (verb : Verb)
  | help
deriving DecidableEq, Repr

/-- What the words of a command line ask for. -/
inductive Request where
  | run (line : CommandLine)
  | help (topic : Topic)
  | version

/-- How often a flag is given. -/
def timesGiven (flag : Flag) (pieces : List Piece) : Nat :=
  pieces.count (.flag flag)

def flagOnce? (flag : Flag) (pieces : List Piece) : Option Bool :=
  match timesGiven flag pieces with
  | 0 => some false
  | 1 => some true
  | _ => none

def valuesOf (setting : Setting) (pieces : List Piece) : List String :=
  pieces.filterMap fun
    | .setting other value => if other = setting then some value else none
    | _ => none

def valueOnce? (setting : Setting) (pieces : List Piece) : Option (Option String) :=
  match valuesOf setting pieces with
  | [] => some none
  | [value] => some (some value)
  | _ => none

def inputsOf (pieces : List Piece) : List String :=
  pieces.filterMap fun
    | .input text => some text
    | _ => none

/-- A path, which is not empty. -/
def path? (text : String) : Option String :=
  if text.isEmpty then none else some text

/-- A number of 64 bits. -/
def number? (text : String) : Option Nat := do
  let value ← Source.readNumeral? 10 text.toList
  if value < Nat.pow 2 64 then some value else none

/-- The verbosity is counted up to this. -/
def verbosityLimit : Nat := 255

/-- The arguments of `translate`, of which the inputs may be missing. -/
def translateArguments? (pieces : List Piece) : Option TranslateArguments := do
  return {
    inputs := ← (inputsOf pieces).mapM path?
    outDir := ← (← valueOnce? .outDir pieces).mapM path?
    lineLimit := ((← (← valueOnce? .lineLimit pieces).mapM number?).getD 100)
    indent := ((← (← valueOnce? .indent pieces).mapM number?).getD 4)
    disabled := valuesOf .disablePass pieces
    isSequential := ← flagOnce? .sequential pieces
    isStrict := ← flagOnce? .strict pieces
    deniesWarnings := ← flagOnce? .denyWarnings pieces
    suppressed := ← (valuesOf .suppress pieces).mapM Code.ofText?
    refresh := ← valueOnce? .refresh pieces
    report := ← (← valueOnce? .report pieces).mapM path?
    isTraced := ← flagOnce? .trace pieces
    showsStatistics := ← flagOnce? .stats pieces }

/-- The command a verb stands for with what is given to it. -/
def action? (verb : Verb) (pieces : List Piece) : Option Action :=
  match verb with
  | .translate => (translateArguments? pieces).map .translate
  | .passes =>
    if (inputsOf pieces).isEmpty then some (.passes (valuesOf .disablePass pieces)) else none

/-- Whether nothing is missing that a command needs. -/
def Action.isComplete : Action → Bool
  | translate arguments => !arguments.inputs.isEmpty
  | passes _ => true

def Verb.ofText? : String → Option Verb
  | "translate" => some .translate
  | "passes" => some .passes
  | _ => none

/-- What the words after `help` ask about; none if there is no such topic. -/
def Topic.ofWords? : List String → Option Topic
  | [] => some .program
  | ["help"] => some .help
  | [text] => (Verb.ofText? text).map .verb
  | _ => none

/-! ## Before the verb -/

/-- What a word before the verb asks for. -/
inductive Leading where
  /-- More output, so many times. -/
  | verbosity (times : Nat)
  | request (request : Request)

/-- What letters before the verb ask for; the first question is answered. -/
def Leading.ofLetters? : (times : Nat) → List Char → Option Leading
  | times, [] => some (.verbosity times)
  | times, 'v' :: cs => ofLetters? (times + 1) cs
  | _, 'h' :: _ => some (.request (.help .program))
  | _, 'V' :: _ => some (.request .version)
  | _, _ => none

/-- What a word before the verb asks for; none if it makes no sense there. -/
def Leading.ofText? (text : String) : Option Leading :=
  match Word.ofText text with
  | .long "verbose" none => some (.verbosity 1)
  | .long "help" none => some (.request (.help .program))
  | .long "version" none => some (.request .version)
  | .short letters => ofLetters? 0 letters
  | _ => none

/-- What the words after a verb ask for; `leading` is the verbosity asked for before the verb. What
is asked for after it counts instead. Help is given if nothing before the question is wrong. -/
def Request.ofPieces? (leading : Nat) (verb : Verb) (pieces : List Piece) : Option Request := do
  let action ← action? verb pieces
  if pieces.contains .help then return .help (.verb verb)
  else if action.isComplete then
    let own := timesGiven .verbose pieces
    return .run { verbosity := min (if own = 0 then leading else own) verbosityLimit, action }
  else none

/-- What the words of a command line ask for; `leading` is the verbosity asked for so far. -/
def Request.readFrom? (leading : Nat) : List String → Option Request
  | [] => none
  | text :: rest =>
    if text = "help" then (Topic.ofWords? rest).map .help
    else
      match Verb.ofText? text with
      | some verb => (readPieces verb rest).bind (Request.ofPieces? leading verb)
      | none =>
        match Leading.ofText? text with
        | some (.verbosity times) => Request.readFrom? (leading + times) rest
        | some (.request request) => some request
        | none => none

/-- What the words of a command line ask for; none if they cannot be understood. -/
def Request.read? (words : List String) : Option Request :=
  Request.readFrom? 0 words

/-- The command line that words are; none if they cannot be understood or only ask a question. -/
def CommandLine.read? (words : List String) : Option CommandLine :=
  match Request.read? words with
  | some (.run line) => some line
  | _ => none

/-- The least level of what is logged. -/
def CommandLine.logLevel (line : CommandLine) : String :=
  match line.action with
  | .translate { isTraced := true, .. } => "trace"
  | _ =>
    match line.verbosity with
    | 0 => "warn"
    | 1 => "info"
    | _ => "debug"

end Ferry.Command

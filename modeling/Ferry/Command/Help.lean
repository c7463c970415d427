/-
  Ferry.Command.Help

  The answers to questions about the command line. An answer says what something is for, how it is
  written, and what can be given to it; the descriptions in a list begin in one column.
-/
import Ferry.Command.Arguments

namespace Ferry.Command

def versionText : String := "tarn 0.4.0\n"

/-- A line of a list: what is described, and its description. -/
structure HelpEntry where
  term : String
  description : String

/-- Something that is described in parts, each a list under a heading. -/
structure HelpPage where
  about : String
  usage : String
  parts : List (String × List HelpEntry)

namespace HelpPage

/-- The lines of a list, with the descriptions in one column. -/
def entryLines (entries : List HelpEntry) : List String :=
  let width := entries.foldl (fun width entry => max width entry.term.length) 0
  entries.map fun entry =>
    let blanks := String.ofList (List.replicate (width + 2 - entry.term.length) ' ')
    "  " ++ entry.term ++ blanks ++ entry.description ++ "\n"

def text (page : HelpPage) : String :=
  let parts := page.parts.map fun (heading, entries) =>
    "\n" ++ heading ++ ":\n" ++ String.join (entryLines entries)
  page.about ++ "\n\nUsage: " ++ page.usage ++ "\n" ++ String.join parts

end HelpPage

def letterEntry (letter : Char) (name description : String) : HelpEntry where
  term := s!"-{letter}, --{name}"
  description

def nameEntry (name description : String) : HelpEntry where
  term := "    --" ++ name
  description

def verboseEntry : HelpEntry :=
  letterEntry 'v' "verbose..." "Log progress (repeat for debug output)"

def helpEntry : HelpEntry :=
  letterEntry 'h' "help" "Print help"

def Verb.about : Verb → String
  | translate => "Translate syntax trees (`*.ast.json`, or directories of them) to Kotlin"
  | passes => "Print the rewrite passes in execution order"

/-- What the word `help` is for. -/
def helpAbout : String :=
  "Print this message or the help of the given subcommand(s)"

/-- The options of a verb in the order in which they are listed. -/
def Verb.entries : Verb → List HelpEntry
  | translate =>
    [letterEntry 'o' "out-dir <DIR>" "Write `<name>.kt` files here instead of standard output",
     verboseEntry,
     nameEntry "line-limit <LINE_LIMIT>"
       "Render declarations and calls on one line while shorter than this [default: 100]",
     nameEntry "indent <INDENT>" "Spaces per indentation level [default: 4]",
     nameEntry "disable-pass <ID>" "Skip a rewrite pass (repeatable)",
     nameEntry "sequential" "Translate one file at a time",
     letterEntry 's' "strict" "Fail when any node could not be translated",
     nameEntry "deny-warnings" "Fail on warnings too",
     nameEntry "suppress <CODE>" "Hide diagnostics with this code (repeatable), e.g. `W4003`",
     nameEntry "refresh <CMD>"
       "Shell command that regenerates the side tables; run once if a query fails",
     nameEntry "report <PATH>" "Write a JSON summary of files and diagnostics",
     nameEntry "trace" "Log the IR after every pass (at trace level)",
     nameEntry "stats" "Print per-pass timing statistics",
     helpEntry]
  | passes =>
    [nameEntry "disable-pass <ID>" "Mark a pass as disabled in the listing",
     verboseEntry,
     helpEntry]

def Topic.page : Topic → HelpPage
  | program =>
    { about := "Command-line driver for the tarn translator"
      usage := "tarn [OPTIONS] <COMMAND>"
      parts :=
        [("Commands",
          [⟨"translate", Verb.about .translate⟩, ⟨"passes", Verb.about .passes⟩,
           ⟨"help", helpAbout⟩]),
         ("Options", [verboseEntry, helpEntry, letterEntry 'V' "version" "Print version"])] }
  | verb .translate =>
    { about := Verb.about .translate
      usage := "tarn translate [OPTIONS] <INPUTS>..."
      parts :=
        [("Arguments", [⟨"<INPUTS>...", "Syntax tree files or directories"⟩]),
         ("Options", Verb.entries .translate)] }
  | verb .passes =>
    { about := Verb.about .passes
      usage := "tarn passes [OPTIONS]"
      parts := [("Options", Verb.entries .passes)] }
  | help =>
    { about := helpAbout
      usage := "tarn help [COMMAND]..."
      parts := [("Arguments", [⟨"[COMMAND]...", "Print help for the subcommand(s)"⟩])] }

end Ferry.Command

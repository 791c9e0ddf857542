/-!
# The command line's interface

The program is invoked as `json-typemodel <COMMAND> [OPTIONS]`, with two commands: `compile`
turns schema documents into classes, and `resolve` prints the node a fragment path points at.
This module describes the commands and their options as data, and renders from that data the
help texts and the usage lines that error messages end with.

An option's place in the help listing is its rank, and options of equal rank are ordered by their
short letter, or by their long name when they have none. The `--verbose` switch belongs to the
program and is understood by every command, where it keeps the rank it has in the program.
-/

namespace SchemaModel.CommandLine

/-- What an option does when it is given. -/
inductive Action where
  /-- Sets a switch; given twice, it is refused. -/
  | flag
  /-- Takes exactly one value; given twice, it is refused. -/
  | single
  /-- Takes one value or more, and may be given again to add more. -/
  | several
  /-- Shows the help text instead of running. -/
  | help
  deriving DecidableEq, Repr

/-- An option of a command. -/
structure Parameter where
  /-- The long name, written after `--`; it also names the option in a parse. -/
  long : String
  /-- The short letter, written after `-`. -/
  short : Option Char := none
  /-- The placeholder of the value in help texts. -/
  valueName : String := ""
  action : Action
  /-- The one-line description. -/
  help : String
  /-- The values the option accepts; empty when it accepts any. -/
  choices : List String := []
  required : Bool := false
  /-- An empty value is refused: the value names a file. -/
  nonEmpty : Bool := false
  /-- The position in the help listing. -/
  rank : Nat
  deriving Repr

namespace Parameter

/-- Whether the option takes values. -/
def takesValue (p : Parameter) : Bool :=
  p.action == .single || p.action == .several

/-- The option as usage lines and messages name it: `--config <CONFIG>`, `--input <INPUT>...`. -/
def spec (p : Parameter) : String :=
  match p.action with
  | .single => s!"--{p.long} <{p.valueName}>"
  | .several => s!"--{p.long} <{p.valueName}>..."
  | _ => s!"--{p.long}"

/-- The key that orders options of equal rank: the short letter in lower case, marked by its
case, or the long name. -/
def sortKey (p : Parameter) : String :=
  match p.short with
  | some c => String.ofList [c.toLower, if c.isLower then '0' else '1']
  | none => p.long

/-- The option's switches as a help listing shows them: `-i, --input <INPUT>...`, or four blanks
in place of a missing short letter. -/
def switches (p : Parameter) : String :=
  (match p.short with
    | some c => s!"-{c}, "
    | none => "    ") ++ p.spec

/-- The description with the accepted values, if they are limited. -/
def description (p : Parameter) : String :=
  let values := ", ".intercalate p.choices
  if p.choices.isEmpty then p.help else p.help ++ s!" [possible values: {values}]"

end Parameter

/-- A command: the program itself or one of its subcommands. -/
structure Command where
  /-- The words that invoke it, the program's name first. -/
  path : List String
  about : String
  /-- The options, in the order they are searched for a similar name. -/
  parameters : List Parameter
  /-- The names of the subcommands, for the program itself. -/
  subcommands : List (String × String) := []
  /-- The long names of the options that form the command's group: the options declared
  together, which a usage line may show as one alternative. -/
  group : List String := []
  deriving Repr

namespace Command

/-- The words that invoke the command, as one text. -/
def name (c : Command) : String := " ".intercalate c.path

/-- The option with a long name. -/
def byLong? (c : Command) (long : String) : Option Parameter :=
  c.parameters.find? (·.long == long)

/-- The option with a short letter. -/
def byShort? (c : Command) (ch : Char) : Option Parameter :=
  c.parameters.find? (·.short == some ch)

/-- The options that must be given. -/
def required (c : Command) : List Parameter :=
  c.parameters.filter (·.required)

/-- Whether some option may be left out, so that usage lines show `[OPTIONS]`. -/
def hasOptional (c : Command) : Bool :=
  c.parameters.any fun p => !p.required && p.action != .help

/-- The subcommand names the program understands, `help` last. -/
def commandNames (c : Command) : List String :=
  c.subcommands.map (·.1)

/-- The usage line of the command: its name, `[OPTIONS]`, the options it requires and, for the
program, the subcommand. -/
def usage (c : Command) : String :=
  let words := [c.name] ++ (if c.hasOptional then ["[OPTIONS]"] else []) ++
    c.required.map (·.spec) ++ (if c.subcommands.isEmpty then [] else ["<COMMAND>"])
  " ".intercalate words

/-- The group as one alternative of a usage line: `<--input <INPUT>...|--config <CONFIG>|…>`. -/
def groupSpec (c : Command) : String :=
  "<" ++ "|".intercalate (c.group.filterMap fun long => (c.byLong? long).map (·.spec)) ++ ">"

/-- The usage line for a parse that has used some options: the required options and then the used
ones, each once, then the group when it is shown (its options are then not shown alone), and the
subcommand for the program. -/
def usageWith (c : Command) (used : List String) (withGroup : Bool) : String :=
  let shown := (c.required.map (·.long) ++ used).filter fun long => !(withGroup && c.group.contains long)
  let specs := shown.filterMap fun long => (c.byLong? long).map (·.spec)
  let once := specs.foldl (fun acc s => if acc.contains s then acc else acc ++ [s]) []
  " ".intercalate ([c.name] ++ once ++ (if withGroup then [c.groupSpec] else []) ++
    (if c.subcommands.isEmpty then [] else ["<COMMAND>"]))

/-- The options in the order of the help listing. -/
def listed (c : Command) : List Parameter :=
  c.parameters.mergeSort fun p q =>
    decide (p.rank < q.rank) || (p.rank == q.rank && decide (p.sortKey ≤ q.sortKey))

/-- Pads a text with blanks to a width. -/
def padTo (width : Nat) (s : String) : String :=
  s ++ String.ofList (List.replicate (width - s.length) ' ')

/-- The help text: the description, the usage line, the subcommands and the options, each
description starting two columns after the widest entry. -/
def helpText (c : Command) : String :=
  let commands :=
    if c.subcommands.isEmpty then ""
    else
      let width := c.subcommands.foldl (fun w (n, _) => max w n.length) 2
      "Commands:\n" ++ "\n".intercalate (c.subcommands.map fun (n, about) =>
        "  " ++ padTo (width + 2) n ++ about) ++ "\n\n"
  let width := c.parameters.foldl (fun w p => max w (p.spec.length + 4)) 2
  let options := "Options:\n" ++ "\n".intercalate (c.listed.map fun p =>
    "  " ++ padTo (width + 2) p.switches ++ p.description)
  s!"{c.about}\n\nUsage: {c.usage}\n\n" ++ commands ++ options ++ "\n"

end Command

/-- The name the program is invoked by. -/
def programName : String := "json-typemodel"

/-- The description of the `help` subcommand. -/
def helpAbout : String := "Print this message or the help of the given subcommand(s)"

/-- The usage line of the `help` subcommand. -/
def helpUsage : String := s!"{programName} help [COMMAND]..."

/-- The help text of the `help` subcommand. -/
def helpHelpText : String :=
  s!"{helpAbout}\n\nUsage: {helpUsage}\n\nArguments:\n  [COMMAND]...  Print help for the subcommand(s)\n"

/-- The switch for detailed logging, understood by every command. -/
def verboseSwitch : Parameter :=
  { long := "verbose", short := some 'v', action := .flag, rank := 2,
    help := "debug-level logging (RUST_LOG takes precedence)" }

/-- The switch that shows the help text. -/
def helpSwitch : Parameter :=
  { long := "help", short := some 'h', action := .help, rank := 999, help := "Print help" }

/-- The options of both commands that say where documents come from and how to read them. -/
def inputParameters : List Parameter :=
  [{ long := "input", short := some 'i', valueName := "INPUT", action := .several, required := true,
     rank := 0,
     help := "One or more schema documents. May be literal paths or quoted glob patterns" },
   { long := "config", valueName := "CONFIG", action := .single, nonEmpty := true, rank := 1,
     help := "settings file (JSON); command line flags override it" },
   { long := "ref-encoding", valueName := "REF_ENCODING", action := .single, rank := 2,
     help := "character encoding of percent-escapes in $ref paths" },
   { long := "strict-decoding", action := .flag, rank := 3,
     help := "fail on $ref segments that cannot be decoded instead of warning" }]

/-- The `compile` command. -/
def compileCommand : Command where
  path := [programName, "compile"]
  about := "compile each input document and print the generated classes"
  parameters := inputParameters ++
    [{ long := "class", valueName := "CLASS", action := .single, rank := 4,
       help := "root class name (defaults to each document's file name)" },
     { long := "package", valueName := "PACKAGE", action := .single, rank := 5,
       help := "package of the generated classes" },
     { long := "no-accessors", action := .flag, rank := 6,
       help := "public members without getter/setter pairs" },
     { long := "builders", action := .flag, rank := 7,
       help := "add fluent \x60with<Name>\x60 builder methods" },
     { long := "no-constraints", action := .flag, rank := 8,
       help := "skip pattern/range/size metadata" },
     { long := "annotator", valueName := "ANNOTATOR", action := .single, rank := 9,
       choices := ["json-editor", "none"], help := "presentation metadata strategy" },
     { long := "out", short := some 'o', valueName := "OUT", action := .single, nonEmpty := true,
       rank := 10, help := "output .json file (stdout if omitted)" },
     verboseSwitch, helpSwitch]
  group := inputParameters.map (·.long)

/-- The `resolve` command. -/
def resolveCommand : Command where
  path := [programName, "resolve"]
  about := "print the node a fragment path points at"
  parameters := inputParameters ++
    [{ long := "path", short := some 'p', valueName := "PATH", action := .single, required := true,
       rank := 4, help := "fragment path, e.g. '#/definitions/address'" },
     verboseSwitch, helpSwitch]
  group := inputParameters.map (·.long)

/-- The program itself, with its subcommands. -/
def programCommand : Command where
  path := [programName]
  about := "compile JSON Schema documents into a target-agnostic class model"
  parameters := [verboseSwitch, helpSwitch]
  subcommands := [("compile", compileCommand.about), ("resolve", resolveCommand.about),
    ("help", helpAbout)]
  group := ["verbose"]

/-- The subcommands with a command of their own. -/
def commands : List Command := [compileCommand, resolveCommand]

/-- The command a subcommand name invokes. -/
def commandNamed? (name : String) : Option Command :=
  commands.find? fun c => c.path.getLast? == some name

end SchemaModel.CommandLine

import SchemaModel.CommandLine.Similarity
import SchemaModel.CommandLine.Interface
/-!
# Reading the command line

The words after the program's name are read one at a time. The first word that names a
subcommand starts that subcommand's options; `help` instead shows the help of the subcommands
named after it. A word starting with `--` is a long option, `--name` or `--name=value`; a word
starting with a single `-` is a cluster of short options, where a letter that takes a value takes
the rest of the word as its value (after an optional `=`), or the following words when the word
ends there. After `--`, no word is an option.

An option that takes values collects the words that follow it until the next option, one word for
an option with a single value, and its values are checked when the next option arrives or the
words run out: that is when an empty value, a repeated option or a value outside the accepted ones
is refused. A word that is neither an option nor a value is refused, with the subcommand names
that resemble it.

Refusals are texts that end with the usage line of the command and a pointer to `--help` (the
`help` subcommand has no help switch, so its own refusals have no pointer); they go to standard
error with exit status 2. A request for help goes to standard output with status 0.

A usage line names the command and either `[OPTIONS]` with the required options, or, when the
refusal comes after some options were given, the required and the given ones. Which given options
count depends on the refusal. An unknown option counts every option given, the pending one
included, and the similar option it suggests. A value attached to a switch counts the options
given before the pending one and not required, and the switch; the command's group then stands
for the group's options as one alternative when one of them was given.
-/

namespace SchemaModel.CommandLine

/-- Why a command line is not run. -/
inductive Stop where
  /-- Help was asked for: the text goes to standard output and the exit status is 0. -/
  | help (text : String)
  /-- The command line is refused, or help is shown for want of any word: the text goes to
  standard error and the exit status is 2. -/
  | refuse (text : String)
  deriving Repr

/-- The options given to a command, by long name, each with its values, in the order they were
first given. -/
abbrev Given := List (String × List String)

/-- The pointer to the help text that ends every refusal. -/
def tryHelp : String := "\n\nFor more information, try '--help'.\n"

/-- A refusal with its message and, when it has one, the usage line to show. -/
def refusal (message : String) (usage : Option String) : Stop :=
  .refuse ("error: " ++ message ++ (match usage with
    | some u => "\n\nUsage: " ++ u
    | none => "") ++ tryHelp)

/-- A hint line of a refusal. -/
def tip (text : String) : String := "\n\n  tip: " ++ text

/-- The values of a list, quoted and separated by commas. -/
def quotedList (names : List String) : String :=
  ", ".intercalate (names.map fun n => s!"'{n}'")

/-- A refusal of a command that shows no help switch, so that nothing points to `--help`. -/
def bareRefusal (message : String) (usage : String) : Stop :=
  .refuse ("error: " ++ message ++ "\n\nUsage: " ++ usage ++ "\n")

/-- The refusal of a missing or empty value; an option with limited values lists them. -/
def emptyValue (p : Parameter) : Stop :=
  let spec := p.spec
  let values := ", ".intercalate p.choices
  let listing := if p.choices.isEmpty then "" else s!"\n  [possible values: {values}]"
  refusal (s!"a value is required for '{spec}' but none was supplied" ++ listing) none

/-- The refusal of a value outside the accepted ones, with the most similar accepted value. -/
def invalidValue (p : Parameter) (value : String) : Stop :=
  if value.isEmpty then emptyValue p
  else
    let spec := p.spec
    let values := ", ".intercalate p.choices
    let hint := match mostSimilar? value p.choices with
      | some v => tip s!"a similar value exists: '{v}'"
      | none => ""
    refusal (s!"invalid value '{value}' for '{spec}'\n  [possible values: {values}]" ++ hint) none

/-- The refusal of an option given twice. -/
def repeated (c : Command) (p : Parameter) : Stop :=
  let spec := p.spec
  refusal s!"the argument '{spec}' cannot be used multiple times" (some c.usage)

/-- The state of reading a command's words. -/
structure Scan where
  /-- The options given so far, with their checked values. -/
  given : Given := []
  /-- The option still collecting values, and the values it has. -/
  pending : Option (Parameter × List String) := none
  /-- Whether `--` has been seen, so that no further word is an option. -/
  trailing : Bool := false

namespace Scan

/-- Whether an option has been given. -/
def has (s : Scan) (long : String) : Bool :=
  s.given.any (·.1 == long)

/-- The options given so far that are not required, for a usage line. -/
def optionalUsed (c : Command) (s : Scan) : List String :=
  (s.given.map (·.1)).filter fun long => !((c.byLong? long).map (·.required)).getD false

/-- Whether an option of the command's group has been given. -/
def groupUsed (c : Command) (s : Scan) : Bool :=
  s.given.any fun (long, _) => c.group.contains long

/-- Records values for an option, adding to those it has. -/
def record (s : Scan) (long : String) (values : List String) : Scan :=
  if s.has long then
    { s with given := s.given.map fun (k, vs) => if k == long then (k, vs ++ values) else (k, vs) }
  else { s with given := s.given ++ [(long, values)] }

/-- Checks the values an option has collected and records them. -/
def commit (c : Command) (s : Scan) (p : Parameter) (values : List String) : Except Stop Scan := do
  if values.isEmpty then throw (emptyValue p)
  if p.action == .single && s.has p.long then throw (repeated c p)
  for v in values do
    if !p.choices.isEmpty && !p.choices.contains v then throw (invalidValue p v)
    if p.nonEmpty && v.isEmpty then throw (emptyValue p)
  pure (s.record p.long values)

/-- Checks and records the option still collecting values, if there is one. -/
def settle (c : Command) (s : Scan) : Except Stop Scan :=
  match s.pending with
  | none => pure s
  | some (p, values) => commit c { s with pending := none } p values

/-- Settles the pending option where a refusal is coming anyway, so that its own failure is not
reported. An option without values is not given; an option given again is taken back; values
outside the accepted ones are kept, since the option was given. -/
def settleQuietly (s : Scan) : Scan :=
  match s.pending with
  | none => s
  | some (p, values) =>
    let s := { s with pending := none }
    if values.isEmpty then s
    else if p.action == .single && s.has p.long then { s with given := s.given.filter (·.1 != p.long) }
    else s.record p.long values

/-- Gives an option that takes no value: the pending option is settled first, help stops the
reading, and a switch given twice is refused. -/
def switch (c : Command) (s : Scan) (p : Parameter) : Except Stop Scan := do
  let s ← s.settle c
  if p.action == .help then throw (.help c.helpText)
  if s.has p.long then throw (repeated c p)
  pure (s.record p.long [])

/-- Gives an option that takes values, with its attached value if the word had one. -/
def startValues (c : Command) (s : Scan) (p : Parameter) (attached : Option String) :
    Except Stop Scan := do
  match attached with
  | some v =>
    let s ← s.settle c
    commit c s p [v]
  | none =>
    let s ← s.settle c
    pure { s with pending := some (p, []) }

/-- Whether the pending option takes the next plain word as a value. -/
def wantsValue (s : Scan) : Bool :=
  match s.pending with
  | some (p, values) => p.action == .several || values.isEmpty
  | none => false

end Scan

/-- The refusal of an unknown long option, with the most similar option of the command or, failing
that, of a subcommand named later on the line. -/
def unknownLong (c : Command) (s : Scan) (name : String) (later : List String) : Stop :=
  let own := mostSimilar? name (c.parameters.map (·.long))
  let fromSub : Option (String × String) :=
    if own.isSome || c.subcommands.isEmpty then none
    else
      let found := commands.filterMap fun sub =>
        match mostSimilar? name (sub.parameters.map (·.long)), later.idxOf? (sub.path.getLastD "") with
        | some cand, some place => some (place, (sub.path.getLastD "", cand))
        | _, _ => none
      (found.foldl (fun best x => match best with
        | some b => if x.1 < b.1 then some x else some b
        | none => some x) none).map (·.2)
  let used := s.given.map (·.1) ++ own.toList
  let hint := match own, fromSub with
    | some o, _ => tip s!"a similar argument exists: '--{o}'"
    | none, some (sub, cand) => tip s!"'{sub} --{cand}' exists"
    | none, none => ""
  refusal (s!"unexpected argument '--{name}' found" ++ hint)
    (some (if used.isEmpty then c.usage else c.usageWith used false))

/-- The refusal of a plain word that is not a value: for the program, a subcommand name that does
not exist. -/
def unexpectedWord (c : Command) (s : Scan) (word : String) : Stop :=
  if s.trailing && c.commandNames.contains word then
    refusal (s!"unexpected argument '{word}' found" ++
      tip s!"subcommand '{word}' exists; to use it, remove the '--' before it") (some c.usage)
  else if c.subcommands.isEmpty then
    refusal s!"unexpected argument '{word}' found" (some c.usage)
  else
    match similar word c.commandNames with
    | [] => refusal s!"unrecognized subcommand '{word}'" (some c.usage)
    | [one] => refusal (s!"unrecognized subcommand '{word}'" ++
        tip s!"a similar subcommand exists: '{one}'") (some c.usage)
    | many => refusal (s!"unrecognized subcommand '{word}'" ++
        tip ("some similar subcommands exist: " ++ quotedList many)) (some c.usage)

/-- Reads a long option, `--name` or `--name=value`. -/
def readLong (c : Command) (s : Scan) (body : String) (later : List String) : Except Stop Scan :=
  let name := String.ofList (body.toList.takeWhile (· ≠ '='))
  let attached : Option String :=
    if body.toList.contains '=' then
      some (String.ofList ((body.toList.dropWhile (· ≠ '=')).drop 1))
    else none
  match c.byLong? name with
  | none => .error (unknownLong c s.settleQuietly name later)
  | some p =>
    if p.takesValue then Scan.startValues c s p attached
    else
      match attached with
      | some v =>
        let used := Scan.optionalUsed c s ++ [p.long]
        let spec := p.spec
        .error (refusal s!"unexpected value '{v}' for '{spec}' found; no more were expected"
          (some (c.usageWith used (Scan.groupUsed c s))))
      | none => Scan.switch c s p

/-- Reads a cluster of short options, the letters after the `-`. -/
def readShorts (c : Command) : Scan → List Char → Except Stop Scan
  | s, [] => pure s
  | s, ch :: rest =>
    match c.byShort? ch with
    | none =>
      .error (refusal s!"unexpected argument '-{ch}' found" (some c.usage))
    | some p =>
      if p.takesValue then
        match rest with
        | [] => Scan.startValues c s p none
        | '=' :: value => Scan.startValues c s p (some (String.ofList value))
        | value => Scan.startValues c s p (some (String.ofList value))
      else do
        let s ← Scan.switch c s p
        readShorts c s rest

/-- What reading a command's words ends with: the options given, and the subcommand named with
the words after it, if one was. -/
structure Reading where
  given : Given
  subcommand : Option (String × List String)

/-- Reads the words of a command up to the end or to a subcommand's name. -/
def readWords (c : Command) : Scan → List String → Except Stop Reading
  | s, [] => do
    let s ← s.settle c
    pure ⟨s.given, none⟩
  | s, w :: rest =>
    if !s.trailing && c.commandNames.contains w then pure ⟨s.given, some (w, rest)⟩
    else if !s.trailing && w == "--" then readWords c { s with trailing := true } rest
    else if !s.trailing && w.startsWith "--" then do
      let s ← readLong c s (String.ofList (w.toList.drop 2)) rest
      readWords c s rest
    else if !s.trailing && w.startsWith "-" && w.length > 1 then do
      let s ← readShorts c s (w.toList.drop 1)
      readWords c s rest
    else if !s.trailing && s.wantsValue then
      match s.pending with
      | some (p, values) => readWords c { s with pending := some (p, values ++ [w]) } rest
      | none => readWords c s rest
    else .error (unexpectedWord c s.settleQuietly w)

/-- The refusal of a command that misses required options. -/
def missingRequired (c : Command) (given : Given) : Option Stop :=
  let missing := c.required.filter fun p => !given.any (·.1 == p.long)
  if missing.isEmpty then none
  else
    let lines := String.join (missing.map fun p => "\n  " ++ p.spec)
    let used := given.map (·.1) ++ missing.map (·.long)
    some (refusal ("the following required arguments were not provided:" ++ lines)
      (some (c.usageWith used false)))

/-- Shows the help of the subcommand the words after `help` name. -/
def helpFor : List String → Except Stop Unit
  | [] => .error (.help programCommand.helpText)
  | [w] =>
    if w == "help" then .error (.help helpHelpText)
    else match commandNamed? w with
      | some sub => .error (.help sub.helpText)
      | none => .error (refusal s!"unrecognized subcommand '{w}'" (some programCommand.usage))
  | w :: next :: _ =>
    if w == "help" then .error (bareRefusal s!"unrecognized subcommand '{next}'" helpUsage)
    else match commandNamed? w with
      | some sub => .error (refusal s!"unrecognized subcommand '{next}'" (some sub.usage))
      | none => .error (refusal s!"unrecognized subcommand '{w}'" (some programCommand.usage))

/-- The refusal of a program invoked without a subcommand. -/
def missingSubcommand : Stop :=
  let names := ", ".intercalate programCommand.commandNames
  refusal (s!"'{programName}' requires a subcommand but one was not provided\n  [subcommands: {names}]")
    (some programCommand.usage)

/-- Reads the words after the program's name: the subcommand and the options given to it. -/
def readCommandLine (words : List String) : Except Stop (Command × Given) := do
  let top ← readWords programCommand {} words
  match top.subcommand with
  | none =>
    if top.given.isEmpty then throw (.refuse programCommand.helpText)
    else throw missingSubcommand
  | some (name, rest) =>
    if name == "help" then
      helpFor rest
      throw (.help programCommand.helpText)
    else
      match commandNamed? name with
      | none => throw missingSubcommand
      | some sub =>
        let r ← readWords sub {} rest
        match missingRequired sub r.given with
        | some stop => throw stop
        | none => pure (sub, r.given)

end SchemaModel.CommandLine

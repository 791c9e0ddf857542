import SchemaModel.CommandLine.Arguments
import SchemaModel.CommandLine.Expand
import SchemaModel.Json.Read
import SchemaModel.Json.Write
import SchemaModel.Settings.Reader
import SchemaModel.Compile.Class
/-!
# Running the command line

A run reads the command line, then settles the settings: those of the settings file if one is
named, then the options that override them. `compile` compiles each input document in a fresh
session and prints the classes of all of them as one JSON array, or writes it to the output file;
`resolve` prints, for each input document, the node the fragment path points at.

A failure ends the run with exit status 1 and a message that starts with `error:` and joins what
was being done and each cause of the failure with `: `; the lines printed before it stay printed.

Documents come from the host. A compilation runs over the documents read so far; when it stops at
a document it has not been given, the document is read and the compilation starts again. Since a
compilation takes documents only when it needs them and does the same with the same documents,
the last compilation is the one that reads each document as it goes.
-/

namespace SchemaModel.CommandLine

/-- What a run shows: its exit status, its standard output, the lines on standard error before the
last, and the last line when the run failed (for a refused command line, the whole refusal). -/
structure Report where
  exit : Nat
  stdout : String
  status : List String
  error : Option String
  deriving Repr

/-- What a run has shown so far. -/
structure Progress where
  stdout : String := ""
  status : List String := []

/-- The steps of a run: they may fail with a chain of messages, the outermost first. -/
abbrev RunM (m : Type → Type) := ExceptT (List String) (StateT Progress m)

variable {m : Type → Type} [Monad m]

/-- Prints to standard output. -/
def say (text : String) : RunM m Unit :=
  modify fun p => { p with stdout := p.stdout ++ text }

/-- Prints a progress line to standard error; a text with line breaks counts as several lines. -/
def note (line : String) : RunM m Unit :=
  modify fun p => { p with status := p.status ++ line.splitOn "\n" }

/-- Runs a host operation. -/
def onHost {α : Type} (x : m α) : RunM m α :=
  ExceptT.lift (StateT.lift x)

/-- The value of an option given once. -/
def Given.value? (g : Given) (long : String) : Option String :=
  (g.lookup long).bind (·.head?)

/-- The values of an option. -/
def Given.values (g : Given) (long : String) : List String :=
  (g.lookup long).getD []

/-- Whether a switch was given. -/
def Given.flag (g : Given) (long : String) : Bool :=
  (g.lookup long).isSome

/-- The settings the options for reading documents give: the settings file's, or the defaults,
with the fragment encoding and strictness the options ask for. -/
def baseSettings (host : Host m) (g : Given) : RunM m Settings := do
  let mut s : Settings := {}
  if let some path := g.value? "config" then
    match ← onHost (host.read path) with
    | .error e => throw [(ConfigurationError.invalid path e.message).message]
    | .ok text =>
      match Settings.parse path text with
      | .ok v => s := v
      | .error e => throw [e.message]
  if let some enc := g.value? "ref-encoding" then
    s := { s with refEncoding := enc }
    if let .error e := s.encoding then throw [e.message]
  if g.flag "strict-decoding" then s := { s with decodePolicy := .strict }
  pure s

/-- The settings of `compile`: the base settings with the options that override them. -/
def compileSettings (host : Host m) (g : Given) : RunM m Settings := do
  let mut s ← baseSettings host g
  if let some package := g.value? "package" then s := { s with targetPackage := package }
  if g.flag "no-accessors" then s := { s with includeAccessors := false }
  if g.flag "builders" then s := { s with generateBuilders := true }
  if g.flag "no-constraints" then s := { s with includeConstraints := false }
  match g.value? "annotator" with
  | some "none" => s := { s with annotator := .none }
  | some _ => s := { s with annotator := .formEditor }
  | none => pure ()
  pure s

/-- The documents the inputs stand for. -/
def documents (host : Host m) (g : Given) : RunM m (List String) := do
  match ← onHost (expandInputs host (g.values "input")) with
  | .ok docs => pure docs
  | .error e => throw ["failed to resolve input file paths", e]

/-- A document as the host gives it: its tree, or why there is none. A locator with a scheme
other than `file://` is refused, and a `file://` prefix is dropped. -/
def fetchDocument (host : Host m) (doc : String) : m (Except ResolutionError Value) := do
  if (doc.splitOn "://").length > 1 && !doc.startsWith "file://" then
    return .error (.documentLoad doc "only local files can be loaded")
  let path := dropPrefixes "file://" doc.length doc
  match ← host.read path with
  | .error .notFound => return .error (.documentNotFound doc)
  | .error e => return .error (.documentLoad doc e.message)
  | .ok text =>
    match Value.read text with
    | .ok v => return .ok v
    | .error e => return .error (.documentLoad doc e.message)
where
  /-- Drops every leading copy of a prefix. -/
  dropPrefixes (pre : String) : Nat → String → String
    | 0, s => s
    | fuel + 1, s =>
      if pre.length > 0 && s.startsWith pre then dropPrefixes pre fuel (String.ofList (s.toList.drop pre.length))
      else s

/-- The most times a compilation starts again for documents it has not been given. -/
def documentLimit : Nat := 100000

/-- Compiles a document over the documents read so far, reading each document the compilation
stops at and starting again, at most `fuel` times. Gives the documents read with the result. -/
def compileReading (host : Host m) (c : Compiler) (doc : String) (className : Option String) :
    Nat → Source → m (Source × Except CompileError (Option (List ClassModel)))
  | 0, src => return (src, attempt src)
  | fuel + 1, src => do
    let r := attempt src
    match r with
    | .error e =>
      match e.cause with
      | .resolution (.documentNotFound missing) =>
        if src.entries.any (·.1 == missing) then return (src, r)
        else
          let fetched ← fetchDocument host missing
          compileReading host c doc className fuel ⟨src.entries ++ [(missing, fetched)]⟩
      | _ => return (src, r)
    | _ => return (src, r)
where
  /-- One compilation over the documents of a source. -/
  attempt (src : Source) : Except CompileError (Option (List ClassModel)) :=
    match c.session src with
    | .error e => .error (.configuration e)
    | .ok sess => ((c.compileDocument doc className).run.run sess).1

/-- Runs `compile`. -/
def runCompile (host : Host m) (g : Given) : RunM m Unit := do
  let settings ← compileSettings host g
  let c := Compiler.ofSettings settings
  let docs ← documents host g
  let mut src : Source := ⟨[]⟩
  let mut compiled : List Value := []
  for doc in docs do
    let (read, r) ← onHost (compileReading host c doc (g.value? "class") documentLimit src)
    src := read
    match r with
    | .error e => throw (s!"failed to compile {doc}" :: e.chain)
    | .ok none => throw [s!"failed to compile {doc}", "the class queue did not drain"]
    | .ok (some classes) =>
      note s!"compiled {doc} ({classes.length} classes)"
      compiled := compiled ++ [.object [("document", .string doc),
        ("classes", .array (classes.map ClassModel.toValue))]]
  let text := (Value.array compiled).pretty
  match g.value? "out" with
  | none => say (text ++ "\n")
  | some out =>
    createAll host (parentOf out) out.length
    match ← onHost (host.write out text) with
    | .error e => throw [s!"failed to write {out}", e.message]
    | .ok () => note s!"wrote {out}"
where
  /-- The components of the directory a path is in: the path's components but the last, where
  empty components and `.` ones after the first do not count. -/
  parentOf (path : String) : List String :=
    let ps := path.splitOn "/"
    (ps.head?.toList ++ (ps.drop 1).filter (fun p => p != "" && p != ".")).dropLast
  /-- Makes a directory and the directories it is in, as far as they are missing. -/
  createAll (host : Host m) (dir : List String) : Nat → RunM m Unit
    | 0 => pure ()
    | fuel + 1 => do
      if dir.isEmpty || dir == [""] then return
      let path := "/".intercalate dir
      match ← onHost (host.makeDirectory path) with
      | .ok () => pure ()
      | .error .notFound =>
        createAll host dir.dropLast fuel
        match ← onHost (host.makeDirectory path) with
        | .ok () => pure ()
        | .error e => if !(← onHost (host.isDirectory path)) then throw [e.message]
      | .error e => if !(← onHost (host.isDirectory path)) then throw [e.message]

/-- Runs `resolve`. -/
def runResolve (host : Host m) (g : Given) : RunM m Unit := do
  let settings ← baseSettings host g
  let enc ← match settings.encoding with
    | .ok e => pure e
    | .error e => throw [e.message]
  let path := (g.value? "path").getD ""
  let docs ← documents host g
  for doc in docs do
    let text ← match ← onHost (host.read doc) with
      | .ok t => pure t
      | .error e => throw [s!"failed to read {doc}", e.message]
    let tree ← match Value.read text with
      | .ok v => pure v
      | .error e => throw [s!"failed to parse JSON source file ({doc})", e.message]
    let fragment := String.ofList (path.toList.dropWhile (· = '#'))
    match Pointer.resolve enc settings.decodePolicy tree path with
    | .ok node => say (node.pretty ++ "\n")
    | .error e => throw [s!"{doc}#{fragment}", e.message]

/-- Runs the command line: the words after the program's name. -/
def run (host : Host m) (words : List String) : m Report := do
  match readCommandLine words with
  | .error (.help text) => return ⟨0, text, [], none⟩
  | .error (.refuse text) => return ⟨2, "", [], some text⟩
  | .ok (cmd, g) =>
    let steps : RunM m Unit :=
      if cmd.path.getLast? == some "compile" then runCompile host g else runResolve host g
    let (r, p) ← (steps.run).run {}
    match r with
    | .ok () => return ⟨0, p.stdout, p.status, none⟩
    | .error chain =>
      -- The message is the last line on standard error; lines it has before that come first.
      let lines := ("error: " ++ ": ".intercalate chain).splitOn "\n"
      return ⟨1, p.stdout, p.status ++ lines.dropLast, lines.getLast?⟩

end SchemaModel.CommandLine

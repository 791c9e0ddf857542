import SchemaModel.CommandLine.Run
/-!
# The program

`json-typemodel` runs the command line against the real file system: paths are relative to the
working directory, the output goes to standard output, progress and errors to standard error, and
the exit status is the run's.
-/

namespace SchemaModel.Program

open SchemaModel.CommandLine

/-- A failure of the operating system, by its error number. -/
def failureOf (e : IO.Error) : IoError :=
  match e with
  | .noFileOrDirectory _ _ _ => .notFound
  | .alreadyExists _ _ _ => .alreadyExists
  | .inappropriateType _ code details =>
    if code == 21 then .isDirectory else if code == 20 then .notDirectory
    else .other code.toNat details
  | .permissionDenied _ code details => .other code.toNat details
  | .otherError code details => .other code.toNat details
  | .invalidArgument _ code details => .other code.toNat details
  | .resourceExhausted _ code details => .other code.toNat details
  | .noSuchThing _ code details => .other code.toNat details
  | other => .other 0 (toString other)

/-- Runs a file system operation, catching its failure. -/
def attempt {α : Type} (x : IO α) : IO (Except IoError α) := do
  try return .ok (← x) catch e => return .error (failureOf e)

/-- The text of a file. -/
def readText (path : String) : IO (Except IoError String) := do
  match ← attempt (IO.FS.readBinFile (System.mkFilePath [path])) with
  | .ok bytes =>
    match String.fromUTF8? bytes with
    | some text => return .ok text
    | none => return .error .notText
  | .error e => return .error e

/-- The entries of a directory, each with whether it is a directory. -/
def entriesOf (path : String) : IO (Except IoError (List (String × Bool))) := do
  match ← attempt (System.mkFilePath [path]).readDir with
  | .error e => return .error e
  | .ok items =>
    let mut out := []
    for item in items do
      let dir ← (System.mkFilePath [joinPath path item.fileName]).isDir
      out := out ++ [(item.fileName, dir)]
    return .ok out

/-- The file system of the machine the program runs on. -/
def machine : Host IO where
  read := readText
  present path := (System.mkFilePath [path]).pathExists
  isDirectory path := (System.mkFilePath [path]).isDir
  entries := entriesOf
  makeDirectory path := attempt (IO.FS.createDir (System.mkFilePath [path]))
  write path text := attempt (IO.FS.writeFile (System.mkFilePath [path]) text)

end SchemaModel.Program

open SchemaModel.CommandLine SchemaModel.Program in
/-- Runs the command line and reports its outcome. -/
def main (args : List String) : IO UInt32 := do
  let report ← run machine args
  IO.print report.stdout
  for line in report.status do
    IO.eprintln line
  match report.error with
  | some text => if report.exit == 2 then IO.eprint text else IO.eprintln text
  | none => pure ()
  return report.exit.toUInt32

/-!
# What a run needs from its machine

The command line reads schema documents and settings files, expands patterns against
directories, and may write its output to a file. `Host` gathers these operations for any monad,
so that one definition of a run serves both the real file system and a workspace held in memory.

Failures of the file system are reported the way the operating system words them, with their
error number.
-/

namespace SchemaModel.CommandLine

/-- A failure of a file system operation. -/
inductive IoError where
  /-- No file or directory has the path (error 2). -/
  | notFound
  /-- The path names a directory where a file is needed (error 21). -/
  | isDirectory
  /-- A component of the path is not a directory (error 20). -/
  | notDirectory
  /-- Something has the path already (error 17). -/
  | alreadyExists
  /-- A file that is not UTF-8 text. -/
  | notText
  /-- Any other failure, with its error number and description. -/
  | other (code : Nat) (description : String)
  deriving Repr, DecidableEq

/-- The message of a failure: its description and error number. -/
def IoError.message : IoError → String
  | .notFound => "No such file or directory (os error 2)"
  | .isDirectory => "Is a directory (os error 21)"
  | .notDirectory => "Not a directory (os error 20)"
  | .alreadyExists => "File exists (os error 17)"
  | .notText => "stream did not contain valid UTF-8"
  | .other code description => s!"{description} (os error {code})"

/-- The file system operations of a run, in a monad `m`. -/
structure Host (m : Type → Type) where
  /-- The text of a file. -/
  read : String → m (Except IoError String)
  /-- Whether a path names a file or a directory. -/
  present : String → m Bool
  /-- Whether a path names a directory. -/
  isDirectory : String → m Bool
  /-- The entries of a directory, each name with whether it is a directory. -/
  entries : String → m (Except IoError (List (String × Bool)))
  /-- Makes a directory whose parent exists. -/
  makeDirectory : String → m (Except IoError Unit)
  /-- Writes a file, replacing what it held. -/
  write : String → String → m (Except IoError Unit)

end SchemaModel.CommandLine

import SchemaModel.CommandLine.Host
/-!
# A workspace in memory

A workspace is a directory tree held as data: every file and directory below the root, keyed by
the names of its path's components. Paths are followed the way the operating system follows
them: empty and `.` components stay where they are, `..` goes up, and a component after a file
is an error of its own. The workspace lies in directories it knows nothing of: `..` from its root
and an absolute path lead to them, and of those all that is known is that they are directories
with no entries the workspace can see.

Running the command line against a workspace gives the workspace it leaves behind, and
`Workspace.changedSince` lists the files the run wrote.
-/

namespace SchemaModel.CommandLine

/-- What a path of a workspace holds. -/
inductive Node where
  | file (text : String)
  | directory
  deriving Repr, DecidableEq

/-- A directory tree: each file and directory below the root with its path's components. -/
structure Workspace where
  nodes : List (List String × Node) := []
  deriving Repr

namespace Workspace

/-- What a path, given by its components from the root, holds. -/
def node? (ws : Workspace) (key : List String) : Option Node :=
  if key.isEmpty then some .directory else ws.nodes.lookup key

/-- Sets what a path holds, keeping the place of a path already there. -/
def put (ws : Workspace) (key : List String) (n : Node) : Workspace :=
  if ws.nodes.any (·.1 == key) then
    { nodes := ws.nodes.map fun (k, m) => if k == key then (k, n) else (k, m) }
  else { nodes := ws.nodes ++ [(key, n)] }

/-- Where a path leads: to a node of the workspace, or to a directory around it, of which all the
workspace knows is that it is a directory. -/
inductive Place where
  | inside (key : List String)
  | around
  deriving Repr, DecidableEq

/-- Follows components from a place to the place they lead to. -/
def follow (ws : Workspace) : Place → List String → Except IoError Place
  | here, [] => .ok here
  | .around, part :: rest =>
    if part == "" || part == "." || part == ".." then follow ws .around rest else .error .notFound
  | .inside here, part :: rest =>
    match ws.node? here with
    | some .directory =>
      if part == "" || part == "." then follow ws (.inside here) rest
      else if part == ".." then
        if here.isEmpty then follow ws .around rest else follow ws (.inside here.dropLast) rest
      else
        match ws.node? (here ++ [part]) with
        | some _ => follow ws (.inside (here ++ [part])) rest
        | none => .error .notFound
    | some (.file _) => .error .notDirectory
    | none => .error .notFound

/-- The place a path starts from and its components; an empty path names nothing. -/
def parts (path : String) : Option (Place × List String) :=
  if path.isEmpty then none
  else if path.startsWith "/" then some (.around, path.splitOn "/")
  else some (.inside [], path.splitOn "/")

/-- The place a path leads to. -/
def locate (ws : Workspace) (path : String) : Except IoError Place :=
  match parts path with
  | some (start, ps) => ws.follow start ps
  | none => .error .notFound

/-- The directory a new entry goes in and the entry's name: the path without its last
component, followed, and that component. -/
def placeOf (ws : Workspace) (path : String) : Except IoError (Place × String) :=
  match parts path with
  | none => .error .notFound
  | some (start, ps) =>
    match ws.follow start ps.dropLast with
    | .error e => .error e
    | .ok .around => .ok (.around, ps.getLastD "")
    | .ok (.inside dir) =>
      match ws.node? dir with
      | some .directory => .ok (.inside dir, ps.getLastD "")
      | _ => .error .notDirectory

/-- The text of a file. -/
def read (ws : Workspace) (path : String) : Except IoError String :=
  match ws.locate path with
  | .error e => .error e
  | .ok .around => .error .isDirectory
  | .ok (.inside key) =>
    match ws.node? key with
    | some (.file text) => .ok text
    | _ => .error .isDirectory

/-- Whether a path names a file or a directory. -/
def present (ws : Workspace) (path : String) : Bool :=
  (ws.locate path).toOption.isSome

/-- Whether a path names a directory. -/
def isDirectory (ws : Workspace) (path : String) : Bool :=
  match ws.locate path with
  | .ok .around => true
  | .ok (.inside key) => ws.node? key == some .directory
  | .error _ => false

/-- The entries of a directory, each name with whether it is a directory; the directories around
the workspace show none. -/
def entries (ws : Workspace) (path : String) : Except IoError (List (String × Bool)) :=
  match ws.locate path with
  | .error e => .error e
  | .ok .around => .ok []
  | .ok (.inside key) =>
    match ws.node? key with
    | some .directory =>
      .ok (ws.nodes.filterMap fun (k, n) =>
        if k.dropLast == key && k.length == key.length + 1 then some (k.getLastD "", n == .directory)
        else none)
    | _ => .error .notDirectory

/-- A path without the slashes it ends with. -/
def trimSlashes (path : String) : String :=
  String.ofList (path.toList.reverse.dropWhile (· = '/')).reverse

/-- Makes a directory whose parent exists. A directory around the workspace takes the new
directory without the workspace holding it. -/
def makeDirectory (ws : Workspace) (path : String) : Except IoError Workspace := do
  let (dir, name) ← ws.placeOf (trimSlashes path)
  if name == "" || name == "." || name == ".." then throw .alreadyExists
  match dir with
  | .around => pure ws
  | .inside dir =>
    match ws.node? (dir ++ [name]) with
    | some _ => throw .alreadyExists
    | none => pure (ws.put (dir ++ [name]) .directory)

/-- Writes a file, replacing what it held; the directory it goes in must exist, and a path
ending in `/` names a directory. A directory around the workspace takes the file without the
workspace holding it. -/
def write (ws : Workspace) (path : String) (text : String) : Except IoError Workspace := do
  if path.endsWith "/" then
    let (dir, name) ← ws.placeOf (trimSlashes path)
    match dir with
    | .inside dir =>
      match ws.node? (dir ++ [name]) with
      | some (.file _) => throw .notDirectory
      | _ => throw .isDirectory
    | .around => throw .isDirectory
  let (dir, name) ← ws.placeOf path
  if name == "" || name == "." || name == ".." then throw .isDirectory
  match dir with
  | .around => pure ws
  | .inside dir =>
    match ws.node? (dir ++ [name]) with
    | some .directory => throw .isDirectory
    | _ => pure (ws.put (dir ++ [name]) (.file text))

/-- A workspace holding files at relative paths, with the directories they are in; a path ending
in `/` makes an empty directory. -/
def ofFiles (files : List (String × String)) : Workspace :=
  files.foldl (fun ws (path, text) =>
    let ps := (path.splitOn "/").filter (· ≠ "")
    let dirs := if path.endsWith "/" then ps else ps.dropLast
    let ws := (List.range dirs.length).foldl (fun ws i =>
      if ws.node? (dirs.take (i + 1)) == none then ws.put (dirs.take (i + 1)) .directory else ws) ws
    if path.endsWith "/" then ws else ws.put ps (.file text)) {}

/-- The files of a workspace, each path with its text, sorted by path. -/
def files (ws : Workspace) : List (String × String) :=
  let all := ws.nodes.filterMap fun (k, n) =>
    match n with
    | .file text => some ("/".intercalate k, text)
    | .directory => none
  all.mergeSort fun a b => decide (a.1 ≤ b.1)

/-- The files that are new since an earlier state of the workspace, or hold other text. -/
def changedSince (ws before : Workspace) : List (String × String) :=
  ws.files.filter fun (path, text) => (before.files.lookup path) != some text

/-- The operations of a run on a workspace, which the run carries as its state. -/
def host : Host (StateM Workspace) where
  read path := do return (← get).read path
  present path := do return (← get).present path
  isDirectory path := do return (← get).isDirectory path
  entries path := do return (← get).entries path
  makeDirectory path := do
    match (← get).makeDirectory path with
    | .ok ws => set ws; return .ok ()
    | .error e => return .error e
  write path text := do
    match (← get).write path text with
    | .ok ws => set ws; return .ok ()
    | .error e => return .error e

end Workspace

end SchemaModel.CommandLine

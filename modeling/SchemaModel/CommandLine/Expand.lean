import SchemaModel.CommandLine.Host
import SchemaModel.CommandLine.Glob
/-!
# Expanding inputs

The inputs of a command are paths or patterns. A path is taken as it is written, whether or not
anything has it; a pattern stands for the paths it matches, found by walking directories, and a
pattern that matches nothing is an error.

The walk keeps a stack of paths still to look at, each with the component of the pattern it is to
be matched against. A directory's entries go on the stack so that the first name comes off first,
so the matches of one pattern come out in sorted order, depth first. A component without wildcards
is looked up directly instead of searched for.
-/

namespace SchemaModel.CommandLine

/-- A path below a directory. -/
def joinPath (dir name : String) : String :=
  if dir.isEmpty then name else if dir.endsWith "/" then dir ++ name else dir ++ "/" ++ name

/-- The last component of a path, unless the path ends in `.` or `..`. -/
def fileName? (path : String) : Option String :=
  match ((path.splitOn "/").filter (· ≠ "")).getLast? with
  | some "." | some ".." | none => none
  | some name => some name

/-- What the walk has still to look at: a path with the index of the component to match it
against, or with nothing when it is known to match the whole pattern; or a directory that could
not be read. -/
abbrev Todo := Except (String × IoError) (String × Option Nat)

variable {m : Type → Type} [Monad m]

/-- Puts on the stack the paths below `path` that component `idx` of a pattern may match: the one
path a component without wildcards names, if it exists, or the entries of a directory. A path that
matches the last component is marked as a match; one that matches another component is looked
into at once. -/
def fill (host : Host m) (comps : Array Pattern) : Nat → Nat → String → List Todo → m (List Todo)
  | 0, _, _, todo => pure todo
  | fuel + 1, idx, path, todo => do
    match comps[idx]? with
    | none => pure todo
    | some pat =>
      let isDir ← host.isDirectory path
      let curdir := path == "."
      let last := idx + 1 == comps.size
      match pat.literal? with
      | some s =>
        let special := s == "." || s == ".."
        let next := if curdir then s else joinPath path s
        let found ← if special then pure isDir else host.present next
        if !found then pure todo
        else if last then pure (.ok (next, none) :: todo)
        else fill host comps fuel (idx + 1) next todo
      | none =>
        if !isDir then pure todo
        else
          match ← host.entries path with
          | .error e => pure (.error (path, e) :: todo)
          | .ok children =>
            let names := (children.map (·.1)).mergeSort fun a b => decide (a ≤ b)
            let todo := names.map (fun n => .ok (if curdir then n else joinPath path n, some idx)) ++
              todo
            if pat.tokens.head? matches some (.char '.') then
              let specials := [".", ".."].filter pat.fits
              specials.foldlM (fun todo special =>
                let next := joinPath path special
                if last then pure (.ok (next, none) :: todo)
                else fill host comps fuel (idx + 1) next todo) todo
            else pure todo

/-- The index of the last of the `**` components that start at `idx`. -/
def lastRecursive (comps : Array Pattern) : Nat → Nat → Nat
  | 0, idx => idx
  | fuel + 1, idx =>
    match comps[idx + 1]? with
    | some p => if p.recursive then lastRecursive comps fuel (idx + 1) else idx
    | none => idx

/-- Takes paths off the stack until it is empty, giving the matches in the order they are found,
or the first directory that could not be read. -/
def drain (host : Host m) (comps : Array Pattern) (directoriesOnly : Bool) :
    Nat → List Todo → List String → m (Except String (List String))
  | 0, _, acc => pure (.ok acc.reverse)
  | _ + 1, [], acc => pure (.ok acc.reverse)
  | fuel + 1, item :: todo, acc => do
    match item with
    | .error (path, e) =>
      let reason := e.message
      pure (.error s!"attempting to read \x60{path}\x60 resulted in an error: {reason}")
    | .ok (path, none) =>
      if directoriesOnly && !(← host.isDirectory path) then drain host comps directoriesOnly fuel todo acc
      else drain host comps directoriesOnly fuel todo (path :: acc)
    | .ok (path, some idx) =>
      let isDir ← host.isDirectory path
      let lastIdx := comps.size - 1
      let recursive := (comps[idx]?.map (·.recursive)).getD false
      let next := lastRecursive comps comps.size idx
      -- A `**` component matches a directory and everything below it.
      let (todo, acc, matchAt) ← if !recursive then pure (todo, acc, some idx)
        else if isDir then do
          let todo ← fill host comps comps.size next path todo
          if next == lastIdx then pure (todo, path :: acc, none) else pure (todo, acc, some (next + 1))
        else if next == lastIdx then pure (todo, acc, none)
        else pure (todo, acc, some (next + 1))
      match matchAt with
      | none => drain host comps directoriesOnly fuel todo acc
      | some i =>
        match fileName? path, comps[i]? with
        | some name, some pat =>
          if pat.fits name then
            if i == lastIdx then
              if !directoriesOnly || isDir then drain host comps directoriesOnly fuel todo (path :: acc)
              else drain host comps directoriesOnly fuel todo acc
            else do
              let todo ← fill host comps comps.size (i + 1) path todo
              drain host comps directoriesOnly fuel todo acc
          else drain host comps directoriesOnly fuel todo acc
        | _, _ => drain host comps directoriesOnly fuel todo acc

/-- The most paths a walk looks at. -/
def walkLimit : Nat := 1000000

/-- The paths a pattern matches, in the order the walk finds them. -/
def Glob.expand (host : Host m) (g : Glob) : m (Except String (List String)) := do
  let comps := g.components.toArray
  if comps.isEmpty then return .ok []
  let todo ← fill host comps comps.size 0 g.start []
  drain host comps g.directoriesOnly walkLimit todo []

/-- The paths the inputs stand for: each path itself, each pattern the paths it matches. -/
def expandInputs (host : Host m) : List String → m (Except String (List String))
  | [] => pure (.ok [])
  | input :: rest => do
    let here ← if !isPattern input then pure (.ok [input])
      else match Glob.read input with
        | .error e => pure (.error e.message)
        | .ok g => do
          match ← g.expand host with
          | .ok [] => pure (.error s!"glob pattern matched no files: {input}")
          | r => pure r
    match here with
    | .error e => pure (.error e)
    | .ok paths =>
      match ← expandInputs host rest with
      | .ok more => pure (.ok (paths ++ more))
      | .error e => pure (.error e)

end SchemaModel.CommandLine

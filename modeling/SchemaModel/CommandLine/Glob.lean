/-!
# Glob patterns

An input may be a pattern that names files by wildcards: `?` stands for one character, `*` for
any run of characters within a path component, `**` for any run of components, `[abc]` or
`[a-z]` for one of a set of characters and `[!abc]` for one character outside a set. A pattern is
read as a whole first and then component by component, and either reading can refuse it, naming
the position of the fault counted in characters.

Matches are found by walking the directories the pattern's components lead to, taking the
entries of each directory in the order of their names, so the matches come out sorted
component-wise. A component without wildcards is not searched for: the path it leads to is kept
when it exists. Paths under the current directory are written without a leading `./`.
-/

namespace SchemaModel.CommandLine

/-- What one character of a set can be. -/
inductive CharClass where
  | single (c : Char)
  | range (lo hi : Char)
  deriving Repr

/-- Whether a character is in a set. -/
def CharClass.admits (cls : List CharClass) (c : Char) : Bool :=
  cls.any fun
    | .single d => d == c
    | .range lo hi => lo ≤ c && c ≤ hi

/-- A piece of a pattern. -/
inductive Token where
  /-- One character, itself. -/
  | char (c : Char)
  /-- Any one character. -/
  | anyChar
  /-- Any run of characters. -/
  | anyRun
  /-- Any run of path components. -/
  | anyComponents
  /-- One character of a set. -/
  | within (cls : List CharClass)
  /-- One character outside a set. -/
  | outside (cls : List CharClass)
  deriving Repr

/-- Why a pattern is refused, and where. -/
structure PatternError where
  position : Nat
  reason : String
  deriving Repr

/-- The message of a refused pattern. -/
def PatternError.message (e : PatternError) : String :=
  s!"Pattern syntax error near position {e.position}: {e.reason}"

/-- A pattern read into tokens. -/
structure Pattern where
  tokens : List Token
  /-- Whether the pattern is a `**` component. -/
  recursive : Bool
  deriving Repr

namespace Pattern

/-- The fault of a run of three or more stars. -/
def wildcardReason : String := "wildcards are either regular \x60*\x60 or recursive \x60**\x60"

/-- The fault of a `**` that shares its component with other characters. -/
def recursiveReason : String := "recursive wildcards must form a single path component"

/-- The fault of a bracket that opens no well-formed set. -/
def rangeReason : String := "invalid range pattern"

/-- The members of a set, written between its brackets: `a-z` is a range, anything else a single
character. -/
def classes : List Char → List CharClass
  | a :: '-' :: b :: rest => .range a b :: classes rest
  | c :: rest => .single c :: classes rest
  | [] => []

/-- The position of the first `]` in a list. -/
def closing? (cs : List Char) : Option Nat := cs.idxOf? ']'

/-- Reads the tokens of a pattern from position `i` on; the whole pattern is `all`. -/
def tokensFrom (all : Array Char) : Nat → Nat → List Token → Bool →
    Except PatternError (List Token × Bool)
  | 0, _, acc, rec => .ok (acc.reverse, rec)
  | fuel + 1, i, acc, rec =>
    if h : i < all.size then
      let c := all[i]
      if c = '?' then tokensFrom all fuel (i + 1) (.anyChar :: acc) rec
      else if c = '*' then
        let run := ((all.toList.drop i).takeWhile (· = '*')).length
        let j := i + run
        if run > 2 then .error ⟨i + 2, wildcardReason⟩
        else if run = 2 then
          let startsComponent := j == 2 || all.getD (i - 1) ' ' == '/'
          if !startsComponent then .error ⟨i - 1, recursiveReason⟩
          else
            let next :=
              if j < all.size && all.getD j ' ' == '/' then some (j + 1)
              else if j == all.size then some j
              else none
            match next with
            | none => .error ⟨j, recursiveReason⟩
            | some k =>
              let collapse := match acc with
                | .anyComponents :: _ :: _ => true
                | _ => false
              if collapse then tokensFrom all fuel k acc rec
              else tokensFrom all fuel k (.anyComponents :: acc) true
        else tokensFrom all fuel j (.anyRun :: acc) rec
      else if c = '[' then
        let rest := all.toList.drop i
        if i + 4 ≤ all.size && all.getD (i + 1) ' ' == '!' then
          match closing? (rest.drop 3) with
          | some k =>
            let members := (rest.drop 2).take (k + 1)
            tokensFrom all fuel (i + k + 4) (.outside (classes members) :: acc) rec
          | none => .error ⟨i, rangeReason⟩
        else if i + 3 ≤ all.size && all.getD (i + 1) ' ' != '!' then
          match closing? (rest.drop 2) with
          | some k =>
            let members := (rest.drop 1).take (k + 1)
            tokensFrom all fuel (i + k + 3) (.within (classes members) :: acc) rec
          | none => .error ⟨i, rangeReason⟩
        else .error ⟨i, rangeReason⟩
      else tokensFrom all fuel (i + 1) (.char c :: acc) rec
    else .ok (acc.reverse, rec)

/-- Reads a pattern. -/
def read (text : String) : Except PatternError Pattern :=
  let all := text.toList.toArray
  match tokensFrom all (all.size + 1) 0 [] false with
  | .ok (tokens, recursive) => .ok ⟨tokens, recursive⟩
  | .error e => .error e

/-- The text of a pattern without wildcards, the only name it matches. -/
def literal? (p : Pattern) : Option String :=
  (p.tokens.mapM fun
    | Token.char c => some c
    | _ => none).map String.ofList

/-- Whether the tokens match the whole of a name. -/
def matchesFrom : List Token → List Char → Bool
  | [], name => name.isEmpty
  | .anyRun :: rest, name => anyTail rest name
  | .anyComponents :: rest, name => anyTail rest name
  | .char c :: rest, d :: name => c == d && matchesFrom rest name
  | .anyChar :: rest, _ :: name => matchesFrom rest name
  | .within cls :: rest, d :: name => CharClass.admits cls d && matchesFrom rest name
  | .outside cls :: rest, d :: name => !CharClass.admits cls d && matchesFrom rest name
  | _ :: _, [] => false
where
  /-- Whether the tokens match some tail of a name. -/
  anyTail (rest : List Token) : List Char → Bool
    | [] => matchesFrom rest []
    | d :: name => matchesFrom rest (d :: name) || anyTail rest name

/-- Whether a pattern matches a whole name. -/
def fits (p : Pattern) (name : String) : Bool :=
  matchesFrom p.tokens name.toList

end Pattern

/-- Whether an input is a pattern rather than a path: it has `*`, `?` or `[`. -/
def isPattern (input : String) : Bool :=
  input.toList.any fun c => c = '*' || c = '?' || c = '['

/-- A pattern cut into its components, each read as a pattern of its own. -/
structure Glob where
  /-- The directory the walk starts from: `/` for an absolute pattern, else `.`. -/
  start : String
  components : List Pattern
  /-- Whether the pattern ends in `/`, so that it matches only directories. -/
  directoriesOnly : Bool

/-- Reads a pattern: first whole, then component by component. -/
def Glob.read (text : String) : Except PatternError Glob := do
  let _ ← Pattern.read text
  let absolute := text.startsWith "/"
  let body := if absolute then String.ofList (text.toList.dropWhile (· = '/')) else text
  let parts := body.splitOn "/"
  let parts := if parts.getLast? == some "" then parts.dropLast else parts
  let mut components := []
  for part in parts do
    components := components ++ [← Pattern.read part]
  if body.isEmpty then components := components ++ [⟨[], false⟩]
  pure ⟨if absolute then "/" else ".", components, text.endsWith "/"⟩

end SchemaModel.CommandLine

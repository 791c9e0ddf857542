/-!
# Similar names

A mistyped subcommand, option or value is answered with the known names that resemble it. Two
names resemble each other when their Jaro similarity is above `0.7`: the share of characters they
have in common within a window, corrected for common characters that appear in another order.

The similarity is computed in doubles, in the order the formula is written, so that a name lying
right at the threshold is judged the same way every time.
-/

namespace SchemaModel.CommandLine

/-- Marks the characters of `b` that the characters of `a` match: each character of `a` takes the
first unmarked equal character of `b` whose position lies within `window` of its own. Gives the
marks on `a` and the marks on `b`. -/
def jaroMarks (a b : Array Char) (window : Nat) : List Bool × Array Bool :=
  let step := fun (acc : List Bool × Array Bool) (i : Nat) =>
    let (marksA, marksB) := acc
    let lo := i - window
    let hi := min b.size (i + window + 1)
    let c := a.getD i ' '
    match (List.range' lo (hi - lo)).find? (fun j => b.getD j ' ' == c && !marksB.getD j true) with
    | some j => (true :: marksA, marksB.setIfInBounds j true)
    | none => (false :: marksA, marksB)
  let (marksA, marksB) := (List.range a.size).foldl step ([], Array.replicate b.size false)
  (marksA.reverse, marksB)

/-- The characters of a list whose mark is set. -/
def marked (cs : List Char) (marks : List Bool) : List Char :=
  (cs.zip marks).filterMap fun (c, m) => if m then some c else none

/-- The Jaro similarity of two names, from `0` (nothing in common) to `1` (equal). -/
def jaro (a b : String) : Float :=
  let xs := a.toList.toArray
  let ys := b.toList.toArray
  if xs.size = 0 && ys.size = 0 then 1.0
  else if xs.size = 0 || ys.size = 0 then 0.0
  else
    let window := max xs.size ys.size / 2 - 1
    let (marksA, marksB) := jaroMarks xs ys window
    let common := marksA.count true
    if common = 0 then 0.0
    else
      let inA := marked xs.toList marksA
      let inB := marked ys.toList marksB.toList
      let swaps := ((inA.zip inB).countP fun (x, y) => x != y) / 2
      let m := common.toFloat
      ((m / xs.size.toFloat) + (m / ys.size.toFloat) + ((common - swaps).toFloat / m)) / 3.0

/-- The candidates that resemble a word, least similar first; equally similar ones keep their
order. -/
def similar (word : String) (candidates : List String) : List String :=
  let scored := candidates.filterMap fun c =>
    let s := jaro word c
    if s > 0.7 then some (s, c) else none
  (scored.mergeSort fun x y => decide (x.1 ≤ y.1)).map (·.2)

/-- The candidate that resembles a word most; of equally similar ones, the last. -/
def mostSimilar? (word : String) (candidates : List String) : Option String :=
  (similar word candidates).getLast?

end SchemaModel.CommandLine

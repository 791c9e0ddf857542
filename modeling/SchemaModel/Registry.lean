import SchemaModel.Json.Value
import Std.Data.TreeSet
import Std.Data.TreeMap
/-!
# The class registry

The classes a compilation still has to generate, in the order they were found, with the names
given out so far and the schemas already bound to a class. A new class takes the name asked for
if no class has it, and otherwise that name followed by `_1`, `_2`, …, the first one free. A
schema bound to a class is compiled once: later references to it name that class.

The search for a free name resumes, for each name asked for, after the candidate it gave last:
names are never given back, so every candidate before that one is still taken, and the search
finds the same name as one from the start would, without walking the taken ones again.
-/

namespace SchemaModel

/-- A class waiting to be generated: its name, its schema node and the schema it lies in. -/
structure Pending where
  name : String
  node : Value
  context : Nat
  deriving Inhabited

/-- Names given out, schemas bound to classes, and classes waiting. The waiting classes are
`front` followed by `back` reversed, so that queueing and taking are both cheap. -/
structure Registry where
  names : Std.TreeSet String compare := {}
  /-- For each name asked for, the number of the candidate its next search starts from; every
  candidate before it is taken. -/
  resume : Std.TreeMap String Nat compare := {}
  bindings : List (Nat × String) := []
  front : List Pending := []
  back : List Pending := []
  deriving Inhabited

namespace Registry

/-- The classes waiting, the one that has waited longest first. -/
def queue (r : Registry) : List Pending := r.front ++ r.back.reverse

/-- The class a schema is bound to. -/
def bound (r : Registry) (id : Nat) : Option String := r.bindings.lookup id

/-- The `n`-th candidate for a name: the name itself, then the name with `_n`. -/
def candidate (name : String) (n : Nat) : String :=
  if n = 0 then name else name ++ "_" ++ toString n

/-- The number of the first candidate from the `n`-th on that is not taken; `fuel` more
candidates are tried. -/
def firstFree (taken : Std.TreeSet String compare) (name : String) : Nat → Nat → Nat
  | 0, n => n
  | fuel + 1, n => if taken.contains (candidate name n) then firstFree taken name fuel (n + 1) else n

/-- The number of the first candidate for a name that is not taken, searched from where the last
search for the name stopped; of `size + 1` candidates at least one is free. -/
def freeNumber (r : Registry) (name : String) : Nat :=
  firstFree r.names name (r.names.size + 1) (r.resume.getD name 0)

/-- A name not given out yet. -/
def unique (r : Registry) (name : String) : String :=
  candidate name (r.freeNumber name)

/-- Queues a class under a fresh name and binds the schema `identity`, if given, to it. -/
def schedule (r : Registry) (name : String) (node : Value) (context : Nat)
    (identity : Option Nat) : String × Registry :=
  let n := r.freeNumber name
  let u := candidate name n
  let bindings := match identity with
    | some id => (id, u) :: r.bindings.filter (·.1 != id)
    | none => r.bindings
  (u, { r with names := r.names.insert u, resume := r.resume.insert name (n + 1), bindings,
               back := ⟨u, node, context⟩ :: r.back })

/-- Takes the class that has waited longest. -/
def next (r : Registry) : Option Pending × Registry :=
  match r.front with
  | p :: rest => (some p, { r with front := rest })
  | [] =>
    match r.back.reverse with
    | [] => (none, r)
    | p :: rest => (some p, { r with front := rest, back := [] })

/-- The number of classes waiting. -/
def pendingCount (r : Registry) : Nat := r.front.length + r.back.length

end Registry

end SchemaModel

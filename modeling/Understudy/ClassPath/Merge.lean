import Understudy.ClassPath.Resource

/-!
Several sources of locations read as one. Sources are read to their end one after the other, each
location is told only once, and nothing is read before it is asked for.
-/

namespace Understudy

/-- A source of locations: what it still holds, and how often it has been asked. -/
structure Merge.Source where
  rest : List Resource
  asked : Nat
  deriving DecidableEq, Repr

/-- Sources being read as one. `spent` tells how often each source that has come to its end was
asked, `live` holds the others, and `seen` the locations told so far. -/
structure Merge where
  spent : List Nat
  live : List Merge.Source
  seen : List Resource.Key
  deriving DecidableEq, Repr

namespace Merge

/-- The sources before anything is asked of them. -/
def ofSources (sources : List (List Resource)) : Merge :=
  ⟨[], sources.map (⟨·, 0⟩), []⟩

/-- How often each source has been asked. -/
def asked (m : Merge) : List Nat := m.spent ++ m.live.map (·.asked)

/-- Asks one source until it tells a location that is new: that location and what follows it, or
none, and how often the source has been asked by then. -/
def pull (seen : List Resource.Key) : List Resource → Nat →
    Option (Resource × List Resource) × Nat
  | [], asked => (none, asked + 1)
  | item :: rest, asked =>
    if seen.contains item.key then pull seen rest (asked + 1) else (some (item, rest), asked + 1)

/-- Asks the sources in order for a location that is new. -/
def nextFrom (spent : List Nat) (seen : List Resource.Key) :
    List Merge.Source → Option Resource × Merge
  | [] => (none, ⟨spent, [], seen⟩)
  | source :: others =>
    match pull seen source.rest source.asked with
    | (some (item, rest), asked) => (some item, ⟨spent, ⟨rest, asked⟩ :: others, item.key :: seen⟩)
    | (none, asked) => nextFrom (spent ++ [asked]) seen others

/-- The next location. -/
def next (m : Merge) : Option Resource × Merge :=
  nextFrom m.spent m.seen m.live

/-- The next `n` locations, or all if there are fewer. -/
def take : Nat → Merge → List Resource
  | 0, _ => []
  | n + 1, m =>
    match m.next with
    | (some item, rest) => item :: take n rest
    | (none, _) => []

/-- All locations that some sources tell when they are read as one. -/
def collect (sources : List (List Resource)) : List Resource :=
  (ofSources sources).take sources.flatten.length

end Merge

end Understudy

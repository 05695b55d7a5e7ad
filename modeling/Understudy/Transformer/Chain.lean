import Understudy.ClassFile.Basic
import Understudy.Identity

/-!
Chains of transformers. A class passes the units of a chain in order; each is asked first whether it
takes the class in the form its predecessors left, and only then changes it. The first failure ends
the pass. Besides its result a pass yields the visits it made, so that it can be told afterwards
which units were asked and which were run. What a unit remembers from one call to the next, or asks
loaders for while it is run, is left out.
-/

namespace Understudy

/-- What a transformer knows about the load that it takes part in. -/
structure Transformer.Context where
  className : String
  loader : LoaderId
  suppressStatic : Bool
  deriving DecidableEq, Repr

/-- A unit of a chain. `notes` is what it writes into the journal each time it is run. -/
structure Transformer where
  name : String
  accepts : ClassFile → Transformer.Context → Bool
  transform : ClassFile → Transformer.Context → Except Error ClassFile
  notes : Transformer.Context → List String := fun _ => []

/-- A unit that was asked about a class, and whether it took it and so was run. -/
structure Visit where
  unit : Transformer
  context : Transformer.Context
  given : ClassFile
  accepted : Bool

/-- What the unit wrote into the journal at this visit. -/
def Visit.notes (visit : Visit) : List String :=
  if visit.accepted then visit.unit.notes visit.context else []

/-- Transformers in the order in which classes pass them. -/
abbrev Chain := List Transformer

namespace Chain

/-- The names of the units. -/
def names (chain : Chain) : List String := chain.map (·.name)

/-- Passes a class through a chain: the visits made, and the class that comes out or the failure of
the unit that ended the pass. -/
def apply (chain : Chain) (file : ClassFile) (context : Transformer.Context) :
    List Visit × Except Error ClassFile :=
  match chain with
  | [] => ([], .ok file)
  | unit :: rest =>
    if unit.accepts file context then
      let visit : Visit := ⟨unit, context, file, true⟩
      match unit.transform file context with
      | .error cause => ([visit], .error (.transformation context.className unit.name cause))
      | .ok changed =>
        let (visits, result) := apply rest changed context
        (visit :: visits, result)
    else
      let (visits, result) := apply rest file context
      (⟨unit, context, file, false⟩ :: visits, result)

/-- The chain in one line. -/
def describe (chain : Chain) : String :=
  "TransformerChain \x7b units: " ++ Quoted.texts chain.names ++ " \x7d"

end Chain

end Understudy

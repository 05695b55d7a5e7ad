import Understudy.Selection.Policy

/-!
A policy in use. Names are put to it, and ignores are appended to it, in any order. Each answer is
the decision of the policy as it is at that moment.
-/

namespace Understudy.Policy

/-- What is done with a policy. -/
inductive Call where
  | addIgnore (pattern : String)
  | decide (name : String)
  deriving DecidableEq, Repr

/-- Makes calls in order: the decisions, each with its name, and the policy that results. -/
def run : List Call → Policy → List (String × Decision) × Policy
  | [], policy => ([], policy)
  | .addIgnore pattern :: rest, policy => run rest (policy.addIgnore pattern)
  | .decide name :: rest, policy =>
    let (decisions, last) := run rest policy
    ((name, policy.decide name) :: decisions, last)

/-- The decisions on one name, in order. -/
def decisionsOn (name : String) (calls : List Call) (policy : Policy) : List Decision :=
  ((run calls policy).1.filter (·.1 == name)).map Prod.snd

end Understudy.Policy

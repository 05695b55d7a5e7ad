import Understudy.Error
import Understudy.Identity
import Understudy.Text.Quoted

/-!
Interceptors stand before a loader's own rules. One that claims a name decides how the request for
it ends: another loader is asked, or the request is refused. Anything else that could decide about
names, and make up answers of its own, is left out.
-/

namespace Understudy

/-- Names by their beginnings, and the loader that is asked for them. -/
structure Route where
  leads : List String
  target : LoaderId
  deriving DecidableEq, Repr

namespace Route

/-- Whether a name begins in one of the ways listed. -/
def covers (leads : List String) (name : String) : Bool :=
  leads.any fun lead => lead.toList.isPrefixOf name.toList

/-- The route in one line. -/
def describe (label : LoaderId → String) (route : Route) : String :=
  "PrefixInterceptor \x7b prefixes: " ++ Quoted.texts route.leads
    ++ ", target: " ++ route.target.describe label ++ " \x7d"

end Route

/-- What stands before a loader's own rules. -/
inductive Interceptor where
  | route (route : Route)
  | refuse (name : String) (error : Error)
  deriving DecidableEq, Repr

/-- Whether the interceptor decides about a name. -/
def Interceptor.claims : Interceptor → String → Bool
  | route r, name => Route.covers r.leads name
  | refuse refused _, name => refused == name

end Understudy

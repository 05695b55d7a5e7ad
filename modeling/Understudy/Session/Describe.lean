import Understudy.Session.State

/-!
Loaders in one line. `label` tells what stands for the number of a loader.
-/

namespace Understudy.Session

/-- A loader in one line. -/
def describeLoader (s : Session) (label : LoaderId → String) (id : LoaderId) : String :=
  match s.loader? id with
  | some (.host host) =>
    "HostClassLoader \x7b id: " ++ id.describe label
      ++ ", pool: " ++ (s.classPathOf host.entries).describe
      ++ ", defined: " ++ toString host.table.length ++ " \x7d"
  | some (.selective loader) =>
    "MockClassLoader \x7b id: " ++ id.describe label
      ++ ", policy: " ++ loader.policy.describe
      ++ ", chain: " ++ Chain.describe loader.chain
      ++ ", deferred: " ++ loader.deferred.describe label
      ++ ", interceptors: " ++ toString loader.interceptors.length
      ++ ", defined: " ++ toString loader.table.length ++ " \x7d"
  | _ => id.describe label

end Understudy.Session

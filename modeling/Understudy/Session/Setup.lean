import Understudy.ClassPath.Basic
import Understudy.Session.DefinedClass
import Understudy.Selection.Policy

/-!
What a selective loader is set up from: patterns, class path, and edits that are made to the class
path before it is first used. The edits are listed beforehand; to choose them by what the class path
holds by then is left out.
-/

namespace Understudy

/-- An edit of a class path that is being set up. -/
inductive ClassPathEdit where
  | append (entry : EntryId)
  | synthesize (name : String)
  | appendDirectory (root : String)
  | fail (error : Error)
  deriving DecidableEq, Repr

/-- The set-up of a selective loader. `adjuster` holds the edits to make to the class path, if
there is anyone to make them. -/
structure Setup where
  prepare : Patterns := []
  ignore : Patterns := []
  loadUnmodified : Patterns := []
  suppressStatic : Patterns := []
  directories : List String := []
  adjuster : Option (List ClassPathEdit) := none
  defaultIgnores : Bool := true
  domain : ProtectionDomain := {}
  deriving DecidableEq, Repr

namespace Setup

/-- The policy that the patterns make. -/
def policy (config : Setup) : Policy where
  builtin := if config.defaultIgnores then Patterns.ofStrings Policy.defaultIgnored else []
  ignore := config.ignore
  prepare := config.prepare
  loadUnmodified := config.loadUnmodified

/-- Adds the directories that the class path variable lists. -/
def withSystemClassPath (config : Setup) (value : Option String) : Setup :=
  { config with directories := config.directories ++ systemClassPath value }

/-- The set-up in one line. -/
def describe (config : Setup) : String :=
  "LoaderConfig \x7b prepare: " ++ Patterns.describe config.prepare
    ++ ", ignore: " ++ Patterns.describe config.ignore
    ++ ", load_unmodified: " ++ Patterns.describe config.loadUnmodified
    ++ ", suppress_static: " ++ Patterns.describe config.suppressStatic
    ++ ", class_path: " ++ Quoted.texts config.directories
    ++ ", adjuster: " ++ toString config.adjuster.isSome
    ++ ", default_ignores: " ++ toString config.defaultIgnores ++ " \x7d"

end Setup

end Understudy

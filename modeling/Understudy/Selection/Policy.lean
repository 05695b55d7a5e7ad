import Understudy.Selection.Pattern

/-!
Which classes a loader takes on itself. Built-in ignores always defer. Then come the classes to load
unmodified, unless the caller ignores them. With a match-all pattern to prepare, everything else is
modified unless the caller ignores it. Otherwise exactly the classes that a pattern asks to prepare
are modified, and the rest is deferred.
-/

namespace Understudy

/-- What a loader does with a class. -/
inductive Decision where
  | modify
  | loadUnmodified
  | defer
  deriving DecidableEq, Repr

namespace Decision

/-- All decisions. -/
def all : List Decision := [modify, loadUnmodified, defer]

/-- The name of a decision. -/
def name : Decision → String
  | modify => "modify"
  | loadUnmodified => "load_unmodified"
  | defer => "defer"

/-- Whether the loader defines the class itself. -/
def isOwn : Decision → Bool
  | defer => false
  | _ => true

end Decision

/-- The patterns that decide. -/
structure Policy where
  builtin : Patterns
  ignore : Patterns
  prepare : Patterns
  loadUnmodified : Patterns
  deriving DecidableEq, Repr

namespace Policy

/-- What no loader with the default ignores takes on itself: the platform's own classes and the
test frameworks. -/
def defaultIgnored : List String :=
  ["java.*", "javax.accessibility.*", "jdk.internal.*", "sun.*", "com.sun.*", "org.junit.*",
    "junit.*", "org.testng.*", "org.hamcrest.*", "org.pitest.*", "org.jacoco.agent.rt.*"]

/-- Whether everything is to be prepared. -/
def modifiesAll (policy : Policy) : Bool := policy.prepare.coverAll

/-- The decision for a class: the first rule that applies. -/
def decide (policy : Policy) (name : String) : Decision :=
  if policy.builtin.matchAny name then .defer
  else if policy.loadUnmodified.matchAny name && !policy.ignore.matchAny name then
    .loadUnmodified
  else if policy.modifiesAll then
    if policy.ignore.matchAny name then .defer else .modify
  else if policy.prepare.matchAny name then .modify
  else .defer

/-- Whether a class is to be modified. -/
def shouldModify (policy : Policy) (name : String) : Bool :=
  policy.decide name == .modify

/-- Appends a pattern to the caller's ignores. -/
def addIgnore (policy : Policy) (pattern : String) : Policy :=
  { policy with ignore := policy.ignore ++ [Pattern.ofString pattern] }

/-- The texts of all ignores, the built-in ones first. -/
def ignoreTexts (policy : Policy) : List String :=
  policy.builtin.texts ++ policy.ignore.texts

/-- The policy in one line. -/
def describe (policy : Policy) : String :=
  "DeferralPolicy \x7b ignore: " ++ Quoted.texts policy.ignoreTexts
    ++ ", prepare: " ++ Patterns.describe policy.prepare
    ++ ", load_unmodified: " ++ Patterns.describe policy.loadUnmodified
    ++ ", modify_all: " ++ toString policy.modifiesAll ++ " \x7d"

end Policy

end Understudy

import Understudy.Text.Hex

/-!
Everything that can go wrong while classes are read, transformed, defined or looked up, and the one
line of text that each failure is reported with.
-/

namespace Understudy

/-- Why the bytes of a class file do not form a class header. -/
inductive Malformation where
  | badMagic (word : Nat)
  | unknownTag (tag slot : Nat)
  | poolOverflow (count : Nat)
  | notClassReference (slot : Nat)
  | nameNotText (slot nameSlot : Nat)
  | described (text : String)
  deriving DecidableEq, Repr

/-- Why a file could not be read. -/
inductive FileFault where
  | notFound
  | notDirectory
  | isDirectory
  | nameTooLong
  | tooManyLinks
  | nulInPath
  | described (text : String)
  deriving DecidableEq, Repr

/-- The place a malformation was reported from, where its reporter tells one. -/
structure ReportedAt where
  file : String
  line : Nat
  deriving DecidableEq, Repr

/-- Causes of failure. Transforming and adjusting wrap the failure that they met. -/
inductive Error where
  | classNotFound (name : String)
  | transformation (className transformer : String) (cause : Error)
  | adjusterFailure (cause : Error)
  | duplicateDefinition (name : String)
  | classNameMismatch (expected found : String)
  | malformed (what : Malformation) (place : Option ReportedAt)
  | outOfBounds
  | file (fault : FileFault)
  | other (text : String)
  deriving DecidableEq, Repr

/-- The text of a malformation. -/
def Malformation.message : Malformation → String
  | badMagic word => "Invalid class file magic - 0x" ++ Hex.upper 8 word
  | unknownTag tag slot =>
    "Unknown constant pool tag " ++ toString tag ++ " at entry " ++ toString slot
  | poolOverflow count =>
    "8-byte constant overflows constant pool of " ++ toString count ++ " entries"
  | notClassReference slot =>
    "Constant pool entry " ++ toString slot ++ " is not a class reference"
  | nameNotText slot nameSlot =>
    "Class reference " ++ toString slot ++ " points to non-UTF8 entry " ++ toString nameSlot
  | described text => text

/-- The text of a file fault, with the system's number for it where it has one. -/
def FileFault.message : FileFault → String
  | notFound => "No such file or directory (os error 2)"
  | notDirectory => "Not a directory (os error 20)"
  | isDirectory => "Is a directory (os error 21)"
  | nameTooLong => "File name too long (os error 36)"
  | tooManyLinks => "Too many levels of symbolic links (os error 40)"
  | nulInPath => "file name contained an unexpected NUL byte"
  | described text => text

/-- The text that introduces a malformation: where it was reported, if that is known. -/
def ReportedAt.lead : Option ReportedAt → String
  | none => ""
  | some place => place.file ++ ":" ++ toString place.line ++ ": "

namespace Error

/-- The line an error is reported with. -/
def message : Error → String
  | classNotFound name => "Class not found - " ++ name
  | transformation className transformer cause =>
    "Transformer '" ++ transformer ++ "' failed on " ++ className ++ ": " ++ cause.message
  | adjusterFailure cause => "Class path adjuster failed: " ++ cause.message
  | duplicateDefinition name => "Duplicate class definition - " ++ name
  | classNameMismatch expected found =>
    "Class bytes define " ++ found ++ ", expected " ++ expected
  | malformed what place => "Malformed - " ++ ReportedAt.lead place ++ what.message
  | outOfBounds => "Out of Bound read would have occurred!"
  | file fault => fault.message
  | other text => text

/-- Only a missing class counts as not found: a transformer that misses one does not. -/
def isNotFound : Error → Bool
  | classNotFound _ => true
  | _ => false

end Error

end Understudy

import Understudy.ClassFile.Basic

/-!
Edits of a class file in place. Any number of them may follow one another; one that fails is
reported to its caller, and the next works on the file as that one left it.
-/

namespace Understudy.ClassFile

/-- What can be done to a class file that was read. -/
inductive Edit where
  | setAccessFlags (flags : AccessFlags)
  | setVersion (version : ClassVersion)
  | replaceBytes (bytes : Bytes)
  deriving DecidableEq, Repr

/-- Performs one edit. -/
def Edit.perform : Edit → ClassFile → Edited
  | setAccessFlags flags, file => file.setAccessFlags flags
  | setVersion version, file => file.setVersion version
  | replaceBytes bytes, file => file.replaceBytes bytes

/-- The file after edits performed in order. -/
def after (edits : List Edit) (file : ClassFile) : ClassFile :=
  edits.foldl (fun file edit => (edit.perform file).2) file

end Understudy.ClassFile

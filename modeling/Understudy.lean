import Understudy.Transformer.Unseal
import Understudy.Session.Change
import Understudy.Session.Describe
import Understudy.Session.Load
import Understudy.Session.Resources
import Understudy.Proofs.Session.Tables
import Understudy.Proofs.ClassFile.Parsed
import Understudy.Proofs.Session.Growth
import Understudy.Proofs.Session.Consistency
import Understudy.Proofs.Session.Permanence
import Understudy.Proofs.Selection.Meaning
import Understudy.ClassFile.Edit
import Understudy.Proofs.Bytes.BigEndian
import Understudy.Proofs.Bytes.Cursor
import Understudy.Proofs.ClassFile.ConstantPool
import Understudy.Proofs.ClassFile.Edits
import Understudy.ClassFile.Grammar
import Understudy.Proofs.ClassFile.Slots
import Understudy.Proofs.ClassFile.Grammar
import Understudy.Selection.Lifetime
import Understudy.Proofs.Selection.Rules
import Understudy.Proofs.ClassPath.Merge
import Understudy.Proofs.Session.Deferral
import Understudy.Proofs.Session.Resources
import Understudy.Proofs.Transformer.Passes
import Understudy.Proofs.Session.Modified
import Understudy.Proofs.Session.Asking
import Understudy.Proofs.Session.Search
import Understudy.Proofs.Session.Failure
import Understudy.Proofs.Selection.Precedence
import Understudy.Proofs.Session.Policies
import Understudy.Proofs.Session.Protection
import Understudy.Proofs.Session.Unmodified
import Understudy.Proofs.Session.Answers
import Understudy.Proofs.Session.Commitment
import Understudy.Session.Use
import Understudy.Proofs.ClassPath.Renaming
import Understudy.Proofs.Session.Serving
import Understudy.Proofs.Session.Use
import Understudy.Proofs.Session.Mirror
import Understudy.Proofs.Session.Matching
import Understudy.Proofs.Session.Isolation
import Understudy.Proofs.ClassPath.Faults
import Understudy.Proofs.Session.Repetition
import Understudy.Proofs.Session.Resolution
import Understudy.Proofs.Session.Order
import Understudy.Proofs.Session.Bookkeeping
import Understudy.Proofs.Files.Lookup
import Understudy.Proofs.ClassPath.Absence
import Understudy.Proofs.Session.Absence
import Understudy.Proofs.Session.Changes
import Understudy.Proofs.Session.Causes
import Understudy.Proofs.Session.Agreement
import Understudy.Proofs.Session.Reordering
import Understudy.Proofs.Session.Statistics
import Understudy.Proofs.ClassFile.Truncation
import Understudy.Proofs.Text.LossyUtf8
import Understudy.Proofs.ClassFile.Stub
import Understudy.Proofs.ClassPath.Reading
import Understudy.Proofs.Session.Window
import Understudy.Proofs.Transformer.Sequence
import Understudy.Proofs.Files.Path
import Understudy.Proofs.Files.Descent
import Understudy.Proofs.ClassPath.Confinement
import Understudy.Proofs.Files.Passage
import Understudy.Proofs.Files.Naming
import Understudy.Proofs.Session.Locations
import Understudy.Proofs.ClassPath.Spelling
import Understudy.Proofs.ClassPath.ClassResources
import Understudy.Proofs.Session.Keeping
import Understudy.Proofs.ClassFile.Name
import Understudy.Proofs.ClassPath.Location
import Understudy.Proofs.Transformer.Unseal
import Understudy.Proofs.ClassPath.Appending
import Understudy.Proofs.Session.Appending
import Understudy.Proofs.Session.Synthesis
import Understudy.Proofs.Text.Faithful
import Understudy.Proofs.Session.NameCheck
import Understudy.Bytes.Head
import Understudy.Bytes.Request
import Understudy.Proofs.Bytes.Head
import Understudy.Proofs.Bytes.Request
import Understudy.Proofs.Files.Segments
import Understudy.Proofs.ClassPath.DirectoryPaths

import Understudy.Transformer.Chain

/-!
The transformer that opens final classes, so that doubles can extend them. Interfaces are left
alone.
-/

namespace Understudy.Unseal

/-- Whether a class is final and no interface. -/
def applies (file : ClassFile) : Bool :=
  file.accessFlags.contains .finalBit && !file.accessFlags.contains .interfaceBit

/-- Takes the final flag away. -/
def transform (file : ClassFile) : Except Error ClassFile :=
  file.withAccessFlags (file.accessFlags.difference .finalBit)

/-- The transformer itself. -/
def transformer : Transformer where
  name := "definalize"
  accepts file _ := applies file
  transform file _ := transform file

end Understudy.Unseal

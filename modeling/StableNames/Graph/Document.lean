-- Documents describe the classes of one version: each class with its
-- members, and with the classes that are written inside it.
import StableNames.Symbol

namespace StableNames

/-- The bits of an access word that matter here. -/
def privateBit : UInt32 := 0x0002
def staticBit : UInt32 := 0x0008
def bridgeBit : UInt32 := 0x0040
def interfaceBit : UInt32 := 0x0200

structure FieldDecl where
  name : String
  desc : String
  access : UInt32 := 0
deriving DecidableEq, Repr, Inhabited

/-- A method. Its related methods are its bridges, their targets and its erasures. -/
structure MethodDecl where
  name : String
  desc : String
  access : UInt32 := 0
  related : List Member := []
deriving DecidableEq, Repr, Inhabited

/-- A class. Without an explicit mark, its name tells whether it is anonymous. -/
structure ClassDecl where
  name : String
  access : UInt32 := 0
  superName? : Option String := none
  interfaceNames : List String := []
  anonymous? : Option Bool := none
  fields : List FieldDecl := []
  methods : List MethodDecl := []
  inner : List ClassDecl := []
deriving Repr, Inhabited

structure Document where
  classes : List ClassDecl := []
deriving Repr, Inhabited

/-! ## Building a class -/

namespace ClassDecl

/-- The class with a superclass. -/
def withSuper (d : ClassDecl) (name : String) : ClassDecl :=
  { d with superName? := some name }

/-- The class with one more interface. -/
def withInterface (d : ClassDecl) (name : String) : ClassDecl :=
  { d with interfaceNames := d.interfaceNames ++ [name] }

/-- The class marked as an interface. -/
def asInterface (d : ClassDecl) : ClassDecl :=
  { d with access := d.access ||| interfaceBit }

/-- The class with one more field. -/
def withField (d : ClassDecl) (f : FieldDecl) : ClassDecl :=
  { d with fields := d.fields ++ [f] }

/-- The class with one more method. -/
def withMethod (d : ClassDecl) (m : MethodDecl) : ClassDecl :=
  { d with methods := d.methods ++ [m] }

/-- The class with one more class inside it. -/
def withInner (d : ClassDecl) (i : ClassDecl) : ClassDecl :=
  { d with inner := d.inner ++ [i] }

end ClassDecl

/-! ## The order of the classes -/

mutual

/-- A class and the classes inside it, each with the number of the class around it. The
class gets the number `id`, and each class inside it the next free one, in order. -/
def ClassDecl.outline (outer? : Option ClassId) (id : ClassId) :
    ClassDecl → List (Option ClassId × ClassDecl)
  | d@⟨_, _, _, _, _, _, _, inner⟩ => (outer?, d) :: outlineAll (some id) (id + 1) inner

/-- Classes that stand side by side, and all that is inside them. -/
def outlineAll (outer? : Option ClassId) (id : ClassId) :
    List ClassDecl → List (Option ClassId × ClassDecl)
  | [] => []
  | d :: rest =>
    let first := d.outline outer? id
    first ++ outlineAll outer? (id + first.length) rest

end

/-- All classes of a document by their numbers, each with the number of the class around it. -/
def Document.outline (doc : Document) : List (Option ClassId × ClassDecl) :=
  outlineAll none 0 doc.classes

end StableNames

-- The class graph of one version. Classes, fields and methods stand in
-- one list each and point at one another by number. Classes that the
-- graph does not hold, such as those of a library, are left out of every
-- link.
import StableNames.Graph.Document
import StableNames.Text.Search

namespace StableNames

/-- A class of a graph, with the names it was written with and the numbers of its parts. -/
structure ClassInfo where
  name : String
  access : UInt32 := 0
  superName? : Option String := none
  interfaceNames : List String := []
  anonymous? : Option Bool := none
  outer? : Option ClassId := none
  inner : List ClassId := []
  fields : List FieldId := []
  methods : List MethodId := []
deriving Repr, Inhabited

structure FieldInfo where
  owner : ClassId
  name : String
  desc : String
deriving Repr, Inhabited

structure MethodInfo where
  owner : ClassId
  name : String
  desc : String
  access : UInt32 := 0
deriving Repr, Inhabited

/-- The classes that a class is linked to directly. A class that names an interface twice
is twice among its implementers. -/
structure Kin where
  super? : Option ClassId := none
  interfaces : List ClassId := []
  subclasses : List ClassId := []
  implementers : List ClassId := []
deriving Repr, Inhabited

structure Graph where
  classes : Array ClassInfo := #[]
  fields : Array FieldInfo := #[]
  methods : Array MethodInfo := #[]
  kin : Array Kin := #[]
  related : Array (List MethodId) := #[]
deriving Repr, Inhabited

namespace ClassInfo

def isInterface (c : ClassInfo) : Bool := c.access &&& interfaceBit != 0

/-- Whether the class is anonymous: as its mark says, or else if only digits, and at least
one, follow the last dollar sign of its name. -/
def isAnonymous (c : ClassInfo) : Bool :=
  match c.anonymous? with
  | some mark => mark
  | none =>
    let simple := Text.afterLast '$' c.name.toList
    c.name.toList.contains '$' && !simple.isEmpty && simple.all fun d => '0' ≤ d && d ≤ '9'

end ClassInfo

namespace MethodInfo

/-- What the method goes by inside its class. -/
def key (m : MethodInfo) : String := methodKey m.name m.desc

/-- Private and static methods take no part in overriding. -/
def isFixed (m : MethodInfo) : Bool := m.access &&& (privateBit ||| staticBit) != 0

def isBridge (m : MethodInfo) : Bool := m.access &&& bridgeBit != 0

def isInitializer (m : MethodInfo) : Bool := StableNames.isInitializer m.name

end MethodInfo

namespace Graph

def classCount (g : Graph) : Nat := g.classes.size

def methodCount (g : Graph) : Nat := g.methods.size

def classIds (g : Graph) : List ClassId := List.range g.classCount

def classInfo (g : Graph) (c : ClassId) : ClassInfo := g.classes.getD c default

def field (g : Graph) (f : FieldId) : FieldInfo := g.fields.getD f default

def method (g : Graph) (m : MethodId) : MethodInfo := g.methods.getD m default

def className (g : Graph) (c : ClassId) : String := (g.classInfo c).name

def kinOf (g : Graph) (c : ClassId) : Kin := g.kin.getD c default

/-- The classes that stand inside no other, in order. -/
def roots (g : Graph) : List ClassId :=
  g.classIds.filter fun c => (g.classInfo c).outer?.isNone

/-- The class of this name. -/
def classOf? (g : Graph) (name : String) : Option ClassId :=
  g.classes.findIdx? (·.name == name)

/-- The method that a class declares under a key: the last one, if there are several. -/
def methodIn? (g : Graph) (c : ClassId) (key : String) : Option MethodId :=
  (g.classInfo c).methods.reverse.find? fun m => (g.method m).key == key

/-- The method of this owner, name and descriptor. -/
def methodOf? (g : Graph) (m : Member) : Option MethodId :=
  (g.classOf? m.owner).bind fun c => g.methodIn? c (methodKey m.name m.desc)

/-- The bridges, bridge targets and erasures of a method. -/
def relatedTo (g : Graph) (m : MethodId) : List MethodId := g.related.getD m []

end Graph

end StableNames

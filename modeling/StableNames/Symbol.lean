-- The symbols of a program: its classes, fields and methods. Inside one
-- graph they go by number; across versions a member goes by its owner,
-- name and descriptor.
import StableNames.Category

namespace StableNames

/-- Classes, fields and methods are numbered from 0, each kind on its own. -/
abbrev ClassId := Nat
abbrev FieldId := Nat
abbrev MethodId := Nat

/-- A numbered symbol of a graph. -/
inductive Symbol where
  | ofClass (id : ClassId)
  | ofField (id : FieldId)
  | ofMethod (id : MethodId)
deriving DecidableEq, Repr

/-- The symbol in messages. -/
def Symbol.label : Symbol → String
  | .ofClass id => "class#" ++ toString id
  | .ofField id => "field#" ++ toString id
  | .ofMethod id => "method#" ++ toString id

/-- A field or method by its owner, name and descriptor. -/
structure Member where
  owner : String
  name : String
  desc : String
deriving DecidableEq, Repr, Inhabited

namespace Member

def label (m : Member) : String := m.owner ++ "." ++ m.name ++ m.desc

/-- The order of members: by owner, then name, then descriptor. -/
def compare (a b : Member) : Ordering :=
  (Ord.compare a.owner b.owner).then <|
    (Ord.compare a.name b.name).then (Ord.compare a.desc b.desc)

/-- The members in order. -/
def sort (ms : List Member) : List Member :=
  ms.mergeSort (fun a b => (a.compare b).isLE)

end Member

/-- What a method goes by inside its class: its name followed by its descriptor. -/
def methodKey (name desc : String) : String := name ++ desc

/-! ## Which names are scrambled -/

/-- A scrambled name: at most two characters, or two and an underscore. -/
def isShortName (name : String) : Bool :=
  match name.toList with
  | [] | [_] | [_, _] => true
  | [_, _, c] => c == '_'
  | _ => false

/-- Whether a field gets a new name. -/
def isScrambledField (name : String) : Bool := isShortName name

/-- Initializers start with this sign. -/
def isInitializer (name : String) : Bool := name.toList.head? = some '<'

/-- Whether a method gets a new name: initializers never do. -/
def isScrambledMethod (name : String) : Bool := isShortName name && !isInitializer name

end StableNames

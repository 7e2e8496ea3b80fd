-- Names of classes and fields. A class that is not scrambled keeps its
-- name, and so does a nested one that is not anonymous: its name shows the
-- nesting that scrambling left alone. Any other class takes the last part
-- of its earlier name, or a fresh name, behind the name of the class around
-- it or the target namespace.
import StableNames.Session.Basic

namespace StableNames

/-- The new name of a class in two parts: what it stands in, and what it is called there. A
class that keeps its name has the whole of it in the first part. -/
structure Target where
  place : String
  name : String
deriving DecidableEq, Repr, Inhabited

def Target.full (t : Target) : String := t.place ++ t.name

namespace Session

/-- Whether a class keeps its name. -/
def keepsName (settings : Settings) (c : ClassInfo) : Bool :=
  !settings.isObfuscated c.name || (c.name.toList.contains '$' && !c.isAnonymous)

/-- The package of a class, with the slash at its end. -/
def packageOf (name : String) : String := String.ofList (Text.uptoLast '/' name.toList)

/-- The place of a renamed class, which stands in its own package if packages are kept. -/
def placeOf (settings : Settings) (name place : String) : String :=
  if settings.keepPackage && settings.targetNamespace.toList.isPrefixOf place.toList then
    packageOf name
  else place

/-- The new name of a class that is put behind `around`. -/
def classTarget (settings : Settings) (l : Lineage) (c : ClassId) (around : String) :
    Step Naming Target := do
  let node := l.graph.classInfo c
  if keepsName settings node then return ⟨node.name, ""⟩
  let symbol := Symbol.ofClass c
  match l.chain.lookupClass node.name with
  | none =>
    let name ← Naming.allocate symbol .ofClass
    return ⟨placeOf settings node.name around, name⟩
  | some earlier =>
    let own := String.ofList (Text.afterLast '$' earlier.toList)
    if Category.ofClass.owns own then
      let place := if earlier.toList.contains '$' then around else ""
      return ⟨placeOf settings node.name place, own⟩
    else
      let name ← Naming.replace own symbol .ofClass
      modify fun n => { n with tally := { n.tally with renamed := n.tally.renamed + 1 } }
      return ⟨placeOf settings node.name around, name⟩

/-- The new name of a scrambled field. -/
def fieldName (l : Lineage) (f : FieldId) : Step Naming String := do
  let node := l.graph.field f
  let symbol := Symbol.ofField f
  match l.chain.lookupMember ⟨l.graph.className node.owner, node.name, node.desc⟩ with
  | none => Naming.allocate symbol .ofField
  | some earlier =>
    if Category.ofField.owns earlier.name then return earlier.name
    else
      let name ← Naming.replace earlier.name symbol .ofField
      modify fun n => { n with tally := { n.tally with renamed := n.tally.renamed + 1 } }
      return name

end Session

end StableNames

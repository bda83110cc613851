import LazyClasses.Hierarchy
import LazyClasses.PropertyScope.Basic
/-! # Inherited property scopes

The scope map of a registered class. Properties of objects that the class can see are reached
through the class itself, whoever declared them; a private property of an ancestor is reached
through that ancestor. A private property is filed under `NUL class NUL name`, a protected one
under `NUL * NUL name`, and each under its plain name as well.

* `visibleProperties`: what the class can see, of each name the nearest.
* `Registry.propertyScopes`: the map. -/

namespace LazyClasses

/-- A property with the class that declares it. -/
structure OwnedProperty where
  declaring : String
  property : Property
deriving DecidableEq, Repr

namespace Property

/-- Whether only the declaring class sees the property. -/
def isPrivate (p : Property) : Bool := p.visibility = .privateAccess

/-- The name under which objects keep a private property of the class. -/
def privateKey (cls name : String) : String := "\x00" ++ cls ++ "\x00" ++ name

/-- The name under which objects keep a protected property. -/
def protectedKey (name : String) : String := "\x00*\x00" ++ name

end Property

/-- The properties of objects that the class declares. -/
def ClassDecl.objectProperties (c : ClassDecl) : List OwnedProperty :=
  (c.properties.filter fun p => !p.isStatic).map (⟨c.name, ·⟩)

/-- The properties of the list whose names are not in `seen`, the first of each name. -/
def firstOfEachName (seen : List String) (l : List OwnedProperty) : List OwnedProperty :=
  firstBy (·.property.name) seen l

/-- What a class sees of its own properties and of those its ancestors pass on. -/
def visibleProperties (c : ClassDecl) (ancestors : List ClassDecl) : List OwnedProperty :=
  firstOfEachName [] (c.objectProperties ++
    (ancestors.flatMap ClassDecl.objectProperties).filter fun p => !p.property.isPrivate)

/-- Files a property that the class `owner` sees. -/
def fileVisible (owner : String) (m : ScopeMap) (p : OwnedProperty) : ScopeMap :=
  let name := p.property.name
  let scope : PropertyScope :=
    ⟨owner, name, if p.property.isReadonly then some p.declaring else none⟩
  match p.property.visibility with
  | .privateAccess => (m.insert (Property.privateKey owner name) scope).insert name scope
  | .protectedAccess => (m.insert name scope).insert (Property.protectedKey name) scope
  | .publicAccess => m.insert name scope

/-- Files a private property of an ancestor; its plain name yields to those that are visible or
nearer. -/
def fileHidden (m : ScopeMap) (p : OwnedProperty) : ScopeMap :=
  let name := p.property.name
  let scope : PropertyScope :=
    ⟨p.declaring, name, if p.property.isReadonly then some p.declaring else none⟩
  (m.insert (Property.privateKey p.declaring name) scope).insertIfNew name scope

/-- The scope map of a class with the given ancestors. -/
def scopesOf (c : ClassDecl) (ancestors : List ClassDecl) : ScopeMap :=
  ((ancestors.flatMap ClassDecl.objectProperties).filter (·.property.isPrivate)).foldl fileHidden
    ((visibleProperties c ancestors).foldl (fileVisible c.name) ∅)

/-- **The property scopes of the class** that the reference means; none for an unknown one. -/
def Registry.propertyScopes (r : Registry) (name : String) : ScopeMap :=
  match r.find? name with
  | some c => scopesOf c (r.ancestors c)
  | none => ∅

end LazyClasses

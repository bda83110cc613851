/-! # Property scopes

A lazy object reads and writes the properties of the class it stands in for. A scope says through
which class a property is reached; the scope map files scopes under property names, plain or
mangled, and remembers the order in which names came first.

* `ScopeMap.insert` gives a name its scope; a name that is there keeps its place.
* `ScopeMap.insertIfNew` leaves a name alone that is there. -/

namespace LazyClasses

/-- Through which class a property is reached. -/
structure PropertyScope where
  /-- The class whose scope reaches the property. -/
  owner : String
  name : String
  /-- The class that may write the property, if it is read-only. -/
  writer : Option String
deriving DecidableEq, Repr, Inhabited

/-- The scopes of a class, by property name, in the order of first insertion. -/
structure ScopeMap where
  /-- The names with their scopes; a name stands once. -/
  entries : List (String × PropertyScope)
  nodup : (entries.map Prod.fst).Nodup
deriving DecidableEq, Repr

namespace ScopeMap

def empty : ScopeMap := ⟨[], by simp⟩

instance : EmptyCollection ScopeMap := ⟨empty⟩

instance : Inhabited ScopeMap := ⟨empty⟩

/-- The names in their order. -/
def keys (m : ScopeMap) : List String := m.entries.map Prod.fst

/-- The scope of a name. -/
def get? (m : ScopeMap) (key : String) : Option PropertyScope := m.entries.lookup key

/-- The entry itself, or the new scope if it has the name. -/
def replaceEntry (key : String) (scope : PropertyScope) (entry : String × PropertyScope) :
    String × PropertyScope :=
  if entry.1 = key then (key, scope) else entry

theorem fst_replaceEntry (key : String) (scope : PropertyScope) (entry : String × PropertyScope) :
    (replaceEntry key scope entry).1 = entry.1 := by
  unfold replaceEntry
  split
  · rename_i h; exact h.symm
  · rfl

theorem map_fst_replaceEntry (key : String) (scope : PropertyScope)
    (entries : List (String × PropertyScope)) :
    (entries.map (replaceEntry key scope)).map Prod.fst = entries.map Prod.fst := by
  simp [Function.comp_def, fst_replaceEntry]

/-- Gives the name the scope. -/
def insert (m : ScopeMap) (key : String) (scope : PropertyScope) : ScopeMap :=
  if h : key ∈ m.keys then
    ⟨m.entries.map (replaceEntry key scope), by rw [map_fst_replaceEntry]; exact m.nodup⟩
  else
    ⟨m.entries ++ [(key, scope)], by
      rw [List.map_append, List.nodup_append]
      exact ⟨m.nodup, by simp, fun a ha b hb => by
        simp only [List.map_cons, List.map_nil, List.mem_singleton] at hb
        subst hb; intro e; exact h (e ▸ ha)⟩⟩

/-- Gives the name the scope if it has none. -/
def insertIfNew (m : ScopeMap) (key : String) (scope : PropertyScope) : ScopeMap :=
  if key ∈ m.keys then m else m.insert key scope

/-- The map of a list of entries: the last scope of a name counts, and its first place. -/
def ofList (entries : List (String × PropertyScope)) : ScopeMap :=
  entries.foldl (fun m e => m.insert e.1 e.2) ∅

/-- Whether there is no name. -/
def isEmpty (m : ScopeMap) : Bool := m.entries.isEmpty

end ScopeMap

end LazyClasses

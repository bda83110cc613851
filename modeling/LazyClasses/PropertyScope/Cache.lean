import LazyClasses.Text.Case
import LazyClasses.PropertyScope.Basic
/-! # The scope cache

Scopes computed once for a class are used from then on, whatever becomes of the class: an entry is
never replaced and never removed. Classes are told apart without regard to letter case. -/

namespace LazyClasses

/-- The scopes already known, by class. -/
structure ScopeCache where
  /-- The lower-case class names with their scopes, oldest first. -/
  entries : List (String × ScopeMap)
deriving DecidableEq, Repr

namespace ScopeCache

/-- The cache that knows no class. -/
def empty : ScopeCache := ⟨[]⟩

instance : EmptyCollection ScopeCache := ⟨empty⟩

instance : Inhabited ScopeCache := ⟨empty⟩

/-- The scopes known for the class. -/
def get? (cache : ScopeCache) (cls : String) : Option ScopeMap :=
  cache.entries.lookup (Text.lower cls)

/-- The number of classes known. -/
def size (cache : ScopeCache) : Nat := cache.entries.length

/-- Whether no class is known. -/
def isEmpty (cache : ScopeCache) : Bool := cache.entries.isEmpty

/-- The scopes known for the class, or else the given ones, which are known from then on. -/
def getOrInsert (cache : ScopeCache) (cls : String) (scopes : ScopeMap) : ScopeMap × ScopeCache :=
  match cache.get? cls with
  | some known => (known, cache)
  | none => (scopes, ⟨cache.entries ++ [(Text.lower cls, scopes)]⟩)

/-- The scopes of a class that is known are those known, and the cache stays as it is. -/
theorem getOrInsert_of_get? {cache : ScopeCache} {cls : String} {known : ScopeMap}
    (h : cache.get? cls = some known) (scopes : ScopeMap) :
    cache.getOrInsert cls scopes = (known, cache) := by
  simp [getOrInsert, h]

/-- A class becomes known with the first scopes given for it. -/
theorem get?_getOrInsert_of_get?_eq_none {cache : ScopeCache} {cls : String}
    (h : cache.get? cls = none) (scopes : ScopeMap) : (cache.getOrInsert cls scopes).2.get? cls = some scopes := by
  simp only [get?] at h
  simp [getOrInsert, get?, h, List.lookup_append]

end ScopeCache

end LazyClasses

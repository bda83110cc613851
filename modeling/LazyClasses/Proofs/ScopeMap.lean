import LazyClasses.PropertyScope.Basic
import Mathlib.Tactic.SplitIfs
/-! # Looking names up in a scope map

A map is known by what its names are filed under: an insertion changes the scope of one name, or
adds it, and leaves all others alone.

* `get?_insert`, `get?_insertIfNew`: one insertion.
* `get?_foldl_file`: many insertions, when no name is filed for two entries. -/

namespace LazyClasses.ScopeMap

theorem get?_empty (k : String) : (∅ : ScopeMap).get? k = none := rfl

theorem get?_eq_none_iff {m : ScopeMap} {k : String} : m.get? k = none ↔ k ∉ m.keys := by
  rw [get?, List.lookup_eq_none_iff, keys, List.mem_map]
  constructor
  · rintro h ⟨e, he, rfl⟩
    simpa using h e he
  · intro h e he
    rw [bne_iff_ne]
    rintro rfl
    exact h ⟨e, he, rfl⟩

theorem lookup_entry (key k : String) (s : PropertyScope)
    (entries : List (String × PropertyScope)) :
    ((key, s) :: entries).lookup k = if k = key then some s else entries.lookup k := by
  rw [List.lookup_cons]
  by_cases hk : k = key
  · simp [hk]
  · rw [beq_eq_false_iff_ne.2 hk, if_neg hk]

theorem lookup_map_replaceEntry_self {key : String} (s : PropertyScope) :
    ∀ {entries : List (String × PropertyScope)}, key ∈ entries.map Prod.fst →
      (entries.map (replaceEntry key s)).lookup key = some s
  | [], h => by simp at h
  | (name, scope) :: entries, h => by
    rw [List.map_cons]
    by_cases hname : name = key
    · rw [show replaceEntry key s (name, scope) = (key, s) from if_pos hname, lookup_entry,
        if_pos rfl]
    · have hmem : key ∈ entries.map Prod.fst :=
        (List.mem_cons.1 h).resolve_left fun e => hname e.symm
      rw [show replaceEntry key s (name, scope) = (name, scope) from if_neg hname, lookup_entry,
        if_neg (Ne.symm hname)]
      exact lookup_map_replaceEntry_self s hmem

theorem lookup_map_replaceEntry_of_ne {key k : String} (s : PropertyScope) (hk : k ≠ key) :
    ∀ entries : List (String × PropertyScope),
      (entries.map (replaceEntry key s)).lookup k = entries.lookup k
  | [] => rfl
  | (name, scope) :: entries => by
    have ih := lookup_map_replaceEntry_of_ne s hk entries
    rw [List.map_cons]
    by_cases hname : name = key
    · rw [show replaceEntry key s (name, scope) = (key, s) from if_pos hname, lookup_entry,
        if_neg hk, lookup_entry, if_neg (hname ▸ hk), ih]
    · rw [show replaceEntry key s (name, scope) = (name, scope) from if_neg hname, lookup_entry,
        lookup_entry, ih]

theorem get?_insert (m : ScopeMap) (key k : String) (s : PropertyScope) :
    (m.insert key s).get? k = if k = key then some s else m.get? k := by
  unfold insert
  by_cases hkey : key ∈ m.keys
  · rw [dif_pos hkey]
    change (m.entries.map (replaceEntry key s)).lookup k = _
    split_ifs with hk
    · rw [hk]
      exact lookup_map_replaceEntry_self s hkey
    · exact lookup_map_replaceEntry_of_ne s hk m.entries
  · rw [dif_neg hkey]
    change (m.entries ++ [(key, s)]).lookup k = _
    rw [List.lookup_append, lookup_entry]
    change (m.get? k).or _ = _
    split_ifs with hk
    · rw [hk, get?_eq_none_iff.2 hkey]
      rfl
    · exact Option.or_none

theorem get?_insertIfNew (m : ScopeMap) (key k : String) (s : PropertyScope) :
    (m.insertIfNew key s).get? k = if k = key then (m.get? k).or (some s) else m.get? k := by
  unfold insertIfNew
  by_cases hkey : key ∈ m.keys
  · rw [if_pos hkey]
    split_ifs with hk
    · subst hk
      cases hget : m.get? k with
      | none => exact absurd hkey (get?_eq_none_iff.1 hget)
      | some s' => rfl
    · rfl
  · rw [if_neg hkey, get?_insert]
    split_ifs with hk
    · subst hk
      rw [get?_eq_none_iff.2 hkey]
      rfl
    · rfl

/-- **Filing one thing after the other**: if a step files its thing under some names, and the name
`k` is one of at most one thing, then under `k` stands the scope of that thing, or what stood
there before. -/
theorem get?_foldl_file {α : Type} {file : ScopeMap → α → ScopeMap} {keys : α → List String}
    {scope : α → PropertyScope} {k : String} : ∀ {l : List α} {m : ScopeMap},
      (∀ a ∈ l, ∀ m : ScopeMap,
        (file m a).get? k = if k ∈ keys a then some (scope a) else m.get? k) →
      (∀ a ∈ l, ∀ b ∈ l, k ∈ keys a → k ∈ keys b → a = b) →
      ∀ s, (l.foldl file m).get? k = some s ↔
        (∃ a ∈ l, k ∈ keys a ∧ scope a = s) ∨ (∀ a ∈ l, k ∉ keys a) ∧ m.get? k = some s
  | [], m, _, _, s => by simp
  | a :: l, m, hfile, hunique, s => by
    have ih := get?_foldl_file (l := l) (m := file m a)
      (fun b hb => hfile b (List.mem_cons_of_mem _ hb))
      (fun b hb b' hb' =>
        hunique b (List.mem_cons_of_mem _ hb) b' (List.mem_cons_of_mem _ hb')) s
    rw [List.foldl_cons, ih, hfile a List.mem_cons_self m]
    by_cases hk : k ∈ keys a
    · rw [if_pos hk]
      constructor
      · rintro (⟨b, hb, hkb, rfl⟩ | ⟨-, hs⟩)
        · exact Or.inl ⟨b, List.mem_cons_of_mem _ hb, hkb, rfl⟩
        · exact Or.inl ⟨a, List.mem_cons_self, hk, Option.some.inj hs⟩
      · rintro (⟨b, hb, hkb, rfl⟩ | ⟨hnone, -⟩)
        · have hba := hunique b hb a List.mem_cons_self hkb hk
          subst hba
          by_cases hmem : ∃ b' ∈ l, k ∈ keys b'
          · obtain ⟨b', hb', hkb'⟩ := hmem
            have := hunique b' (List.mem_cons_of_mem _ hb') b List.mem_cons_self hkb' hk
            subst this
            exact Or.inl ⟨b', hb', hkb', rfl⟩
          · exact Or.inr ⟨fun b' hb' hkb' => hmem ⟨b', hb', hkb'⟩, rfl⟩
        · exact absurd hk (hnone a List.mem_cons_self)
    · rw [if_neg hk]
      simp [hk]

end LazyClasses.ScopeMap

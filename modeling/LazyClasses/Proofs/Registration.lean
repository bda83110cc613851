import LazyClasses.Registry.Basic
import Mathlib.Data.Finset.Dedup
import Mathlib.Data.Finset.Card
import Mathlib.Data.List.Perm.Basic
/-! # Registering classes one after the other

A registry forgets the order in which its classes were registered but for one thing: of several
classes of one name the last one counts.

* `find?_insert`, `mem_keys_insert`: one class more.
* `find?_insertAll_empty`, `size_insertAll_empty`: what is known after many.
* `find?_insertAll_perm`: classes of different names may come in any order. -/

namespace LazyClasses

/-- The class that is known from the start. -/
def ClassDecl.stdClass : ClassDecl := { name := "stdClass", isInternal := true }

namespace Registry

variable {r : Registry} {c : ClassDecl} {l l' : List ClassDecl}

/-- The names under which classes are filed. -/
def keys (r : Registry) : List String := r.classes.map ClassDecl.key

theorem byKey?_isSome_iff {key : String} : (r.byKey? key).isSome = true ↔ key ∈ r.keys := by
  simp [byKey?, keys, List.find?_isSome]

/-! ### One class -/

theorem byKey?_file (r : Registry) (c : ClassDecl) (key : String) :
    (r.file c).byKey? key = if c.key = key then some c else r.byKey? key := by
  unfold file
  split_ifs with hmem hkey hkey
  · -- A class of the name is there and gives way.
    have hreplace : (fun old => (replaceClass c old).key == key) = (·.key == key) :=
      funext fun old => by rw [key_replaceClass]
    obtain ⟨old, hold⟩ := Option.isSome_iff_exists.1 (byKey?_isSome_iff.2 hmem)
    rw [byKey?, List.find?_map, Function.comp_def, hreplace, ← byKey?, ← hkey, hold,
      Option.map_some, replaceClass, if_pos (mem_of_byKey? hold).2]
  · have hreplace : (fun old => (replaceClass c old).key == key) = (·.key == key) :=
      funext fun old => by rw [key_replaceClass]
    rw [byKey?, List.find?_map, Function.comp_def, hreplace, ← byKey?]
    cases hold : r.byKey? key with
    | none => rfl
    | some old =>
      have hne : old.key ≠ c.key := fun h => hkey (h.symm.trans (mem_of_byKey? hold).2)
      rw [Option.map_some, replaceClass, if_neg hne]
  · have hnone : r.byKey? key = none := by
      rw [Option.eq_none_iff_forall_ne_some]
      intro old hold
      exact hmem (hkey ▸ byKey?_isSome_iff.1 (Option.isSome_iff_exists.2 ⟨old, hold⟩))
    rw [byKey?, List.find?_append, ← byKey?, hnone, Option.none_or, List.find?_cons_of_pos]
    exact beq_iff_eq.2 hkey
  · rw [byKey?, List.find?_append, ← byKey?, List.find?_cons_of_neg (by simpa using hkey),
      List.find?_nil, Option.or_none]

/-- **A class is found under its name from then on**, and nothing else changes. -/
theorem find?_insert (r : Registry) (c : ClassDecl) (name : String) :
    (r.insert c).find? name =
      if ClassName.key c.name = ClassName.key name then some c.normalize else r.find? name :=
  byKey?_file r c.normalize (ClassName.key name)

theorem mem_keys_insert {key : String} :
    key ∈ (r.insert c).keys ↔ ClassName.key c.name = key ∨ key ∈ r.keys := by
  have hkey : c.normalize.key = ClassName.key c.name := rfl
  rw [← byKey?_isSome_iff, ← byKey?_isSome_iff, insert, byKey?_file, hkey]
  split_ifs with h <;> simp [h]

theorem eq_or_mem_of_mem_insert {d : ClassDecl} (h : d ∈ (r.insert c).classes) :
    d = c.normalize ∨ d ∈ r.classes := by
  unfold insert file at h
  split_ifs at h
  · obtain ⟨old, hold, rfl⟩ := List.mem_map.1 h
    unfold replaceClass
    split_ifs
    · exact .inl rfl
    · exact .inr hold
  · rcases List.mem_append.1 h with h | h
    · exact .inr h
    · exact .inl (List.mem_singleton.1 h)

/-! ### Many classes -/

/-- Only what was registered is known. -/
theorem exists_of_mem_insertAll {d : ClassDecl} (h : d ∈ (r.insertAll l).classes) :
    d ∈ r.classes ∨ ∃ c ∈ l, c.normalize = d := by
  induction l generalizing r with
  | nil => exact .inl h
  | cons c l ih =>
    rcases ih h with h | ⟨a, ha, hd⟩
    · rcases eq_or_mem_of_mem_insert h with rfl | h
      · exact .inr ⟨c, List.mem_cons_self, rfl⟩
      · exact .inl h
    · exact .inr ⟨a, List.mem_cons_of_mem c ha, hd⟩

theorem find?_insertAll (r : Registry) (l : List ClassDecl) (name : String) :
    (r.insertAll l).find? name =
      ((l.filter fun c => ClassName.key c.name == ClassName.key name).getLast?.map
        ClassDecl.normalize).or (r.find? name) := by
  induction l generalizing r with
  | nil => rfl
  | cons c l ih =>
    rw [insertAll, List.foldl_cons, ← insertAll, ih, find?_insert, List.filter_cons]
    split_ifs with hkey hfilter hfilter
    · rw [List.getLast?_cons, Option.map_some, Option.some_or]
      cases (l.filter fun c => ClassName.key c.name == ClassName.key name).getLast? <;> rfl
    · exact absurd (beq_iff_eq.2 hkey) hfilter
    · exact absurd (beq_iff_eq.1 hfilter) hkey
    · rfl

theorem mem_keys_insertAll {key : String} :
    key ∈ (r.insertAll l).keys ↔ key ∈ l.map (ClassName.key ·.name) ∨ key ∈ r.keys := by
  induction l generalizing r with
  | nil => simp [insertAll]
  | cons c l ih =>
    rw [insertAll, List.foldl_cons, ← insertAll, ih, mem_keys_insert, List.map_cons, List.mem_cons,
      or_left_comm, or_assoc, @eq_comm _ key]

/-- The registry that one starts with is that of the class which is known from the start. -/
theorem insertAll_empty (l : List ClassDecl) :
    insertAll ∅ l = insertAll nothing (ClassDecl.stdClass :: l) := rfl

theorem contains_insertAll_iff {name : String} : (insertAll ∅ l).contains name = true ↔
    ClassName.key name ∈ (ClassDecl.stdClass :: l).map (ClassName.key ·.name) := by
  rw [contains, find?, byKey?_isSome_iff, insertAll_empty, mem_keys_insertAll]
  exact or_iff_left List.not_mem_nil

theorem size_eq_card (r : Registry) : r.size = r.keys.toFinset.card := by
  rw [keys, List.toFinset_card_of_nodup r.nodup, List.length_map, size]

/-- **Of several classes of a name the last one counts.** -/
theorem find?_insertAll_empty (l : List ClassDecl) (name : String) :
    (insertAll ∅ l).find? name = ((ClassDecl.stdClass :: l).filter fun c =>
      ClassName.key c.name == ClassName.key name).getLast?.map ClassDecl.normalize := by
  rw [insertAll_empty, find?_insertAll]
  exact Option.or_none

/-- **Each name counts once.** -/
theorem size_insertAll_empty (l : List ClassDecl) : (insertAll ∅ l).size =
    ((ClassDecl.stdClass :: l).map fun c => ClassName.key c.name).toFinset.card := by
  rw [size_eq_card, insertAll_empty]
  congr 1
  ext key
  rw [List.mem_toFinset, List.mem_toFinset, mem_keys_insertAll]
  exact or_iff_left List.not_mem_nil

theorem eq_of_perm_of_length_le_one {α : Type} {l l' : List α} (h : l.Perm l')
    (hl : l.length ≤ 1) : l = l' := by
  match l, hl with
  | [], _ => exact (List.nil_perm.1 h).symm
  | [a], _ => exact List.singleton_perm.1 h

/-- Of different names one at most has a key. -/
theorem length_filter_key_le_one (hn : (l.map (ClassName.key ·.name)).Nodup) (key : String) :
    (l.filter fun c => ClassName.key c.name == key).length ≤ 1 := by
  have hnodup := hn.filter (· == key)
  rw [List.filter_map] at hnodup
  have hcount := List.nodup_iff_count_le_one.1 hnodup key
  rwa [List.count_eq_length.2, List.length_map] at hcount
  intro k hk
  obtain ⟨c, hc, rfl⟩ := List.mem_map.1 hk
  exact (beq_iff_eq.1 (List.mem_filter.1 hc).2).symm

/-- Under one key stands one class at most, whatever the order. -/
theorem filter_key_eq_of_perm (h : l.Perm l') (hn : (l.map (ClassName.key ·.name)).Nodup)
    (key : String) :
    (l.filter fun c => ClassName.key c.name == key) =
      l'.filter fun c => ClassName.key c.name == key :=
  eq_of_perm_of_length_le_one (h.filter _) (length_filter_key_le_one hn key)

/-- Of classes of different names each is found. -/
theorem find?_insertAll_of_mem (hn : (l.map (ClassName.key ·.name)).Nodup) (hc : c ∈ l)
    {name : String} (hname : ClassName.key c.name = ClassName.key name) :
    (r.insertAll l).find? name = some c.normalize := by
  have hmem : c ∈ l.filter fun d => ClassName.key d.name == ClassName.key name :=
    List.mem_filter.2 ⟨hc, beq_iff_eq.2 hname⟩
  obtain ⟨d, hd⟩ := List.length_eq_one_iff.1
    (Nat.le_antisymm (length_filter_key_le_one hn _) (List.length_pos_of_mem hmem))
  rw [hd, List.mem_singleton] at hmem
  rw [find?_insertAll, hd, hmem]
  rfl

/-- **Classes of different names may come in any order.** -/
theorem find?_insertAll_perm (h : l.Perm l') (hn : (l.map (ClassName.key ·.name)).Nodup) :
    (insertAll ∅ l).find? = (insertAll ∅ l').find? := by
  funext name
  rw [find?_insertAll, find?_insertAll, filter_key_eq_of_perm h hn]

end Registry

end LazyClasses

import LazyClasses.Hierarchy
import Mathlib.Data.List.Nodup
import Mathlib.Tactic.SplitIfs
/-! # The first of each key

Methods, properties and the interfaces of a proxy are taken from the front of a list, of each name
the first. What the scan `firstBy` takes does not depend on the kind of key.

* `filter_key_firstBy`: under a new key stands the first element of the list that has it.
* `nodup_key_firstBy`: no key stands twice. -/

namespace LazyClasses

variable {α : Type} {key : α → String}

theorem mem_of_mem_firstBy {a : α} : ∀ {seen : List String} {l : List α},
    a ∈ firstBy key seen l → a ∈ l ∧ key a ∉ seen
  | seen, [], h => by simp [firstBy] at h
  | seen, b :: l, h => by
    unfold firstBy at h
    split_ifs at h with hb
    · obtain ⟨ha, hs⟩ := mem_of_mem_firstBy h
      exact ⟨List.mem_cons_of_mem _ ha, hs⟩
    · rcases List.mem_cons.1 h with rfl | h
      · exact ⟨List.mem_cons_self, hb⟩
      · obtain ⟨ha, hs⟩ := mem_of_mem_firstBy h
        exact ⟨List.mem_cons_of_mem _ ha, fun hk => hs (List.mem_cons_of_mem _ hk)⟩

theorem nodup_key_firstBy : ∀ (seen : List String) (l : List α),
    ((firstBy key seen l).map key).Nodup
  | seen, [] => by simp [firstBy]
  | seen, a :: l => by
    unfold firstBy
    split_ifs with ha
    · exact nodup_key_firstBy seen l
    · rw [List.map_cons, List.nodup_cons]
      refine ⟨fun hk => ?_, nodup_key_firstBy (key a :: seen) l⟩
      obtain ⟨b, hb, hba⟩ := List.mem_map.1 hk
      exact (mem_of_mem_firstBy hb).2 (hba ▸ List.mem_cons_self)

theorem filter_key_firstBy_of_mem {k : String} {seen : List String} (hk : k ∈ seen)
    (l : List α) : (firstBy key seen l).filter (key · == k) = [] := by
  rw [List.filter_eq_nil_iff]
  intro a ha hak
  exact (mem_of_mem_firstBy ha).2 (beq_iff_eq.1 hak ▸ hk)

/-- **Under a new key stands the first element of the list that has it.** -/
theorem filter_key_firstBy {k : String} : ∀ {seen : List String} (l : List α), k ∉ seen →
    (firstBy key seen l).filter (key · == k) = (l.find? (key · == k)).toList
  | seen, [], _ => rfl
  | seen, a :: l, hk => by
    unfold firstBy
    by_cases hak : key a = k
    · have ha : key a ∉ seen := hak ▸ hk
      rw [if_neg ha, List.filter_cons_of_pos (by simpa using hak),
        List.find?_cons_of_pos (by simpa using hak),
        filter_key_firstBy_of_mem (hak ▸ List.mem_cons_self)]
      rfl
    · rw [List.find?_cons_of_neg (by simpa using hak)]
      split_ifs with ha
      · exact filter_key_firstBy l hk
      · rw [List.filter_cons_of_neg (by simpa using hak)]
        exact filter_key_firstBy l fun h => (List.mem_cons.1 h).elim (fun e => hak e.symm) hk

theorem find?_key_firstBy {k : String} {seen : List String} (hk : k ∉ seen) (l : List α) :
    (firstBy key seen l).find? (key · == k) = l.find? (key · == k) := by
  rw [← List.head?_filter, filter_key_firstBy l hk]
  cases l.find? (key · == k) <;> rfl

/-- What is taken is the first of its key. -/
theorem mem_firstBy_nil_iff {a : α} {l : List α} :
    a ∈ firstBy key [] l ↔ l.find? (key · == key a) = some a := by
  constructor
  · intro ha
    have hmem : a ∈ (firstBy key [] l).filter (key · == key a) :=
      List.mem_filter.2 ⟨ha, by simp⟩
    rw [filter_key_firstBy l (by simp), Option.mem_toList] at hmem
    exact hmem
  · intro ha
    have hnew : key a ∉ ([] : List String) := List.not_mem_nil
    rw [← find?_key_firstBy hnew l] at ha
    exact List.mem_of_find?_eq_some ha

/-- Where no key stands twice, a search under the key of an element meets that element alone. -/
theorem find?_key_and {a : α} {q : α → Bool} : ∀ {l : List α}, (l.map key).Nodup → a ∈ l →
    (l.find? fun b => key b == key a && q b) = if q a then some a else none
  | [], _, ha => by simp at ha
  | b :: l, hl, ha => by
    rw [List.map_cons, List.nodup_cons] at hl
    rcases List.mem_cons.1 ha with rfl | ha
    · by_cases hq : q a = true
      · rw [if_pos hq, List.find?_cons_of_pos (by simp [hq])]
      · rw [if_neg hq, List.find?_cons_of_neg (by simp [hq]), List.find?_eq_none]
        intro b hb hba
        rw [Bool.and_eq_true, beq_iff_eq] at hba
        exact hl.1 (List.mem_map.2 ⟨b, hb, hba.1⟩)
    · have hne : key b ≠ key a := fun e => hl.1 (List.mem_map.2 ⟨a, ha, e.symm⟩)
      rw [List.find?_cons_of_neg (by simp [hne])]
      exact find?_key_and hl.2 ha

theorem find?_key {a : α} {l : List α} (hl : (l.map key).Nodup) (ha : a ∈ l) :
    l.find? (key · == key a) = some a := by
  simpa using find?_key_and (q := fun _ => true) hl ha

end LazyClasses

import LazyClasses.Proofs.Prototypes
import LazyClasses.Proofs.Registration
import LazyClasses.Signature
/-! # Tentative result types

The signature of a method carries the attribute of a tentative result type if the method has one, or
its prototype, or the prototype of that one and so on up to the first abstract declaration. But no
more than 66 declarations are looked at.

* `Signature.IsMarked`: the attribute stands in front.
* `TentativeAt`: a declaration after so many steps is tentative, and none before it is abstract.
* `meetsTentative_iff`: what a search among so many declarations finds.
* `isMarked_signature_iff`: the attribute stands in front iff there is such a declaration among the
  first 66; so it does not matter that there are no more where classes do not stand as high. -/

namespace LazyClasses

/-- The header begins with the attribute of a tentative result type. -/
def Signature.IsMarked (s : Signature) : Prop :=
  "#[\\ReturnTypeWillChange] ".toList <+: s.header.toList

namespace Registry

open Relation (TransGen)

variable {r : Registry} {c d : ClassDecl} {m p : Method}

/-- **The declaration after `i` steps is tentative**, and none before it is abstract. -/
def TentativeAt (r : Registry) (m : Method) (i : Nat) : Prop :=
  (∃ p, r.overridden? i m = some p ∧ p.isTentative = true) ∧
    ∀ j < i, ∀ q, r.overridden? j m = some q → q.isAbstract = false

/-! ### The search -/

theorem tentativeAt_zero_iff : r.TentativeAt m 0 ↔ m.isTentative = true := by
  simp [TentativeAt, overridden?]

theorem tentativeAt_succ_iff {i : Nat} : r.TentativeAt m (i + 1) ↔
    m.isAbstract = false ∧ ∃ p, r.prototype? m = some p ∧ r.TentativeAt p i := by
  constructor
  · rintro ⟨⟨p, hp, htentative⟩, hnone⟩
    obtain ⟨q, hq, hqp⟩ := overridden?_succ_eq_some hp
    refine ⟨hnone 0 i.succ_pos m rfl, q, hq, ⟨p, hqp, htentative⟩, fun j hj a ha => ?_⟩
    refine hnone (j + 1) (Nat.succ_lt_succ hj) a ?_
    rw [overridden?, hq, Option.bind_some, ha]
  · rintro ⟨hm, q, hq, ⟨p, hp, htentative⟩, hnone⟩
    refine ⟨⟨p, by rw [overridden?, hq, Option.bind_some, hp], htentative⟩, fun j hj a ha => ?_⟩
    cases j with
    | zero => exact Option.some.inj ha ▸ hm
    | succ j =>
      rw [overridden?, hq, Option.bind_some] at ha
      exact hnone j (Nat.lt_of_succ_lt_succ hj) a ha

theorem meetsTentative_succ (r : Registry) (n : Nat) (m : Method) : r.meetsTentative (n + 1) m =
    (m.isTentative || (!m.isAbstract && (r.prototype? m).any (r.meetsTentative n))) := by
  rw [meetsTentative]
  cases r.prototype? m <;> rfl

/-- **A search among `n` declarations** finds a tentative one with none before it abstract. -/
theorem meetsTentative_iff (r : Registry) (n : Nat) :
    ∀ m, r.meetsTentative n m = true ↔ ∃ i < n, r.TentativeAt m i := by
  induction n with
  | zero => simp [meetsTentative]
  | succ n ih =>
    intro m
    rw [meetsTentative_succ, Bool.or_eq_true, Bool.and_eq_true, Bool.not_eq_true',
      Option.any_eq_true]
    constructor
    · rintro (hm | ⟨hm, p, hp, hmeets⟩)
      · exact ⟨0, n.succ_pos, tentativeAt_zero_iff.2 hm⟩
      · obtain ⟨i, hi, hat⟩ := (ih p).1 hmeets
        exact ⟨i + 1, Nat.succ_lt_succ hi, tentativeAt_succ_iff.2 ⟨hm, p, hp, hat⟩⟩
    · rintro ⟨i, hi, hat⟩
      cases i with
      | zero => exact .inl (tentativeAt_zero_iff.1 hat)
      | succ i =>
        obtain ⟨hm, p, hp, hat⟩ := tentativeAt_succ_iff.1 hat
        exact .inr ⟨hm, p, hp, (ih p).2 ⟨i, Nat.lt_of_succ_lt_succ hi, hat⟩⟩

/-! ### The header -/

/-- Without the attribute a header begins with the visibility. -/
theorem isMarked_iff_hasTentativeReturn (r : Registry) (m : Method) (withTypes : Bool) :
    (r.signature m withTypes).IsMarked ↔ r.hasTentativeReturn m = true := by
  have hkeyword (l : List Char) : (m.visibility.keyword.toList ++ l).head? ≠ some '#' := by
    rw [List.head?_append]
    cases m.visibility <;> simp [Visibility.keyword]
  rw [Signature.IsMarked, signature]
  simp only [String.toList_append, List.append_assoc]
  cases r.hasTentativeReturn m with
  | true => exact iff_of_true (List.prefix_append _ _) rfl
  | false =>
    refine iff_of_false ?_ Bool.false_ne_true
    rintro ⟨rest, h⟩
    exact hkeyword _ (congrArg List.head? h).symm

theorem isMarked_iff_tentativeAt (r : Registry) (m : Method) (withTypes : Bool) :
    (r.signature m withTypes).IsMarked ↔ ∃ i < 66, r.TentativeAt m i := by
  rw [isMarked_iff_hasTentativeReturn]
  exact r.meetsTentative_iff 66 m

/-- **The attribute of a tentative result type** stands in front of a method's header iff among the
first 66 of the method, its prototype and so on one is tentative and none before it abstract. If
no more than 65 classes stand above each other over the class, the number does not matter. -/
theorem isMarked_signature_iff (hattributed : r.Attributed) (hc : c ∈ r.classes)
    (hm : m ∈ c.methods) (withTypes : Bool) :
    ((r.signature m withTypes).IsMarked ↔ ∃ i < 66, r.TentativeAt m i) ∧
    ((∀ l, (c :: l).Pairwise (TransGen r.Inherits) → l.length < 66) →
      ((r.signature m withTypes).IsMarked ↔ ∃ i, r.TentativeAt m i)) := by
  refine ⟨r.isMarked_iff_tentativeAt m withTypes, fun hheight => ?_⟩
  rw [isMarked_iff_tentativeAt]
  refine exists_congr fun i => and_iff_right_of_imp fun hat => ?_
  obtain ⟨⟨p, hp, -⟩, -⟩ := hat
  obtain ⟨l, hlength, hpairs⟩ := exists_tower hattributed i hc hm hp
  rw [← hlength]
  exact hheight l hpairs

end Registry

end LazyClasses

namespace LazyClasses.Sample

open Registry

/-- The name of a floor: one `a` more for each below it. -/
def floorName (k : Nat) : String := String.ofList (List.replicate (k + 1) 'a')

/-- The method of a floor of a tower, tentative on top alone. -/
def climbs (top k : Nat) : Method :=
  { name := "climb", declaringClass := floorName k, isTentative := decide (k = top) }

/-- A floor of a tower, which extends the one above. -/
def floor (top k : Nat) : ClassDecl where
  name := floorName k
  parent := if k < top then some (floorName (k + 1)) else none
  methods := [climbs top k]

/-- A tower of classes that override each other's method. -/
def tower (top : Nat) : Registry := insertAll ∅ ((List.range (top + 1)).map (floor top))

theorem toList_floorName (k : Nat) : (floorName k).toList = 'a' :: List.replicate k 'a' := by
  rw [floorName, String.toList_ofList, List.replicate_succ]

theorem bare_floorName (k : Nat) : ClassName.bare (floorName k) = floorName k := by
  rw [ClassName.bare, ClassName.bareChars_of_head?_ne, String.ofList_toList]
  rw [toList_floorName]
  exact ne_of_beq_false rfl

theorem lower_floorName (k : Nat) : Text.lower (floorName k) = floorName k := by
  rw [← String.toList_inj, Text.toList_lower, floorName, String.toList_ofList, List.map_replicate]
  rfl

theorem key_floorName (k : Nat) : ClassName.key (floorName k) = floorName k := by
  rw [ClassName.key, bare_floorName, lower_floorName]

theorem length_floorName (k : Nat) : (floorName k).length = k + 1 := by
  rw [floorName, String.length_ofList, List.length_replicate]

theorem floorName_inj {j k : Nat} (h : floorName j = floorName k) : j = k := by
  have hlength := congrArg String.length h
  rw [length_floorName, length_floorName] at hlength
  exact Nat.succ.inj hlength

theorem normalize_floor (top k : Nat) : (floor top k).normalize = floor top k := by
  have hdeclaring : (floorName k).isEmpty = false := by
    rw [← Bool.not_eq_true, String.isEmpty_iff, ← String.toList_inj, toList_floorName]
    exact List.cons_ne_nil _ _
  have hparent : (floor top k).parent.map ClassName.bare = (floor top k).parent := by
    unfold floor
    split_ifs
    · exact congrArg some (bare_floorName _)
    · rfl
  have hmethod : (climbs top k).normalize (floorName k) false = climbs top k := by
    simp [Method.normalize, climbs, hdeclaring, bare_floorName]
  rw [ClassDecl.normalize, hparent]
  simp only [floor, List.map_cons, List.map_nil, bare_floorName, ClassDecl.isInterface]
  exact congrArg (fun m => { floor top k with methods := [m] }) hmethod

theorem parent_floor {top k : Nat} (h : k < top) :
    (floor top k).parent = some (floorName (k + 1)) := if_pos h

theorem nodup_floorNames (top : Nat) :
    (((List.range (top + 1)).map (floor top)).map fun c => ClassName.key c.name).Nodup := by
  rw [List.map_map]
  refine List.Nodup.map (fun j k h => floorName_inj ?_) List.nodup_range
  exact (key_floorName j).symm.trans (h.trans (key_floorName k))

theorem find?_floorName {top k : Nat} (h : k ≤ top) :
    (tower top).find? (floorName k) = some (floor top k) := by
  have hmem : floor top k ∈ (List.range (top + 1)).map (floor top) :=
    List.mem_map_of_mem (List.mem_range.2 (Nat.lt_succ_of_le h))
  have hkey : ClassName.key (floor top k).name = ClassName.key (floorName k) := rfl
  rw [tower, find?_insertAll_of_mem (nodup_floorNames top) hmem hkey, normalize_floor]

theorem floor_of_mem {top : Nat} {c : ClassDecl} (h : c ∈ (tower top).classes) :
    c = ClassDecl.stdClass ∨ ∃ k ≤ top, c = floor top k := by
  rcases exists_of_mem_insertAll h with h | ⟨a, ha, rfl⟩
  · exact .inl (List.mem_singleton.1 h)
  · obtain ⟨k, hk, rfl⟩ := List.mem_map.1 ha
    exact .inr ⟨k, Nat.le_of_lt_succ (List.mem_range.1 hk), normalize_floor top k⟩

theorem attributed_tower (top : Nat) : (tower top).Attributed := by
  intro c hc m hm
  rcases floor_of_mem hc with rfl | ⟨k, hk, rfl⟩
  · cases hm
  · obtain rfl := List.mem_singleton.1 hm
    exact find?_floorName hk

/-- Names get longer upwards. -/
theorem length_lt_of_inherits {top : Nat} : ∀ c ∈ (tower top).classes, ∀ d,
    (tower top).Inherits c d → c.name.length < d.name.length := by
  intro c hc d hcd
  rcases floor_of_mem hc with rfl | ⟨k, hk, rfl⟩
  · rcases hcd with ⟨name, hname, -⟩ | ⟨name, hname, -⟩ <;> cases hname
  · rcases hcd with ⟨name, hname, hd⟩ | ⟨name, hname, -⟩
    · by_cases hlt : k < top
      · obtain rfl := Option.some.inj ((parent_floor hlt).symm.trans hname)
        obtain rfl := Option.some.inj ((find?_floorName hlt).symm.trans hd)
        simp [floor, length_floorName]
      · have hnone : (floor top k).parent = none := if_neg hlt
        cases hnone.symm.trans hname
    · cases hname

theorem overridden?_climbs {top : Nat} (j : Nat) : ∀ {k : Nat}, k + j ≤ top →
    (tower top).overridden? j (climbs top k) = some (climbs top (k + j)) := by
  induction j with
  | zero =>
    intro k _
    rfl
  | succ j ih =>
    intro k h
    have hlt : k < top := by omega
    have hnearest : ((tower top).ancestors (floor top k)).head? = some (floor top (k + 1)) := by
      have hkey : (floor top (k + 1)).key ∉ [(floor top k).key] := by
        rw [List.mem_singleton]
        intro heq
        have hnames := (lower_floorName (k + 1)).symm.trans (heq.trans (lower_floorName k))
        exact Nat.succ_ne_self k (floorName_inj hnames)
      rw [ancestors, parent_floor hlt, climb_of_find?_eq_some (find?_floorName hlt), if_neg hkey,
        List.head?_cons]
    have hmethod : (floor top (k + 1)).method? (climbs top k).name = some (climbs top (k + 1)) := by
      simp [ClassDecl.method?, floor, climbs]
    have hstep : (tower top).prototype? (climbs top k) = some (climbs top (k + 1)) :=
      prototype?_of_ancestor rfl (find?_floorName hlt.le) hnearest hmethod rfl
    rw [overridden?, hstep, Option.bind_some, ih (by omega), Nat.add_assoc, Nat.add_comm 1 j]

/-- From the ground the top is the one tentative declaration. -/
theorem tentativeAt_climbs_iff {top i : Nat} (h : i ≤ top) :
    (tower top).TentativeAt (climbs top 0) i ↔ i = top := by
  have hrun {j : Nat} (hj : j ≤ top) :
      (tower top).overridden? j (climbs top 0) = some (climbs top j) := by
    rw [overridden?_climbs j (by omega), Nat.zero_add]
  constructor
  · rintro ⟨⟨p, hp, htentative⟩, -⟩
    rw [hrun h, Option.some_inj] at hp
    rw [← hp] at htentative
    exact of_decide_eq_true htentative
  · rintro rfl
    refine ⟨⟨_, hrun h, decide_eq_true rfl⟩, fun j hj q hq => ?_⟩
    rw [hrun hj.le, Option.some_inj] at hq
    rw [← hq]
    rfl

theorem ground_mem_tower (top : Nat) : floor top 0 ∈ (tower top).classes :=
  mem_of_find? (find?_floorName top.zero_le)

/-- No more classes stand above the ground than floors. The class that is known from the start has a
name too, but no longer than that of the top. -/
theorem length_lt_of_tower {top : Nat} (h : 7 ≤ top) {l : List ClassDecl}
    (hl : (floor top 0 :: l).Pairwise (Relation.TransGen (tower top).Inherits)) :
    l.length < top + 1 := by
  have hnames : ∀ c ∈ (tower top).classes, c.name.length ≤ top + 1 := by
    intro c hc
    rcases floor_of_mem hc with rfl | ⟨k, hk, rfl⟩
    · have hstd : ClassDecl.stdClass.name.length = 8 := rfl
      omega
    · have hfloor : (floor top k).name.length = k + 1 := length_floorName k
      omega
  have hle := rank_add_length_le length_lt_of_inherits hnames (ground_mem_tower top) hl
  have hground : (floor top 0).name.length = 1 := length_floorName 0
  omega

/-- The tentative declaration of the 65th floor is found. -/
theorem climbs_marked : (tower 65).Attributed ∧ floor 65 0 ∈ (tower 65).classes ∧
    climbs 65 0 ∈ (floor 65 0).methods ∧
    (∀ l, (floor 65 0 :: l).Pairwise (Relation.TransGen (tower 65).Inherits) → l.length < 66) ∧
    ((tower 65).signature (climbs 65 0) true).IsMarked := by
  have hattributed := attributed_tower 65
  have hmem := ground_mem_tower 65
  have hmethod : climbs 65 0 ∈ (floor 65 0).methods := List.mem_singleton_self _
  have hheight : ∀ l, (floor 65 0 :: l).Pairwise (Relation.TransGen (tower 65).Inherits) →
      l.length < 66 := fun _ => length_lt_of_tower (by decide)
  have hat : (tower 65).TentativeAt (climbs 65 0) 65 := (tentativeAt_climbs_iff le_rfl).2 rfl
  exact ⟨hattributed, hmem, hmethod, hheight,
    ((isMarked_signature_iff hattributed hmem hmethod true).2 hheight).2 ⟨65, hat⟩⟩

/-- **That of the 66th floor is not**, though no reference runs in circles. -/
theorem climbs_unmarked : (tower 66).Acyclic ∧ (tower 66).Attributed ∧
    floor 66 0 ∈ (tower 66).classes ∧ climbs 66 0 ∈ (floor 66 0).methods ∧
    (∃ i, (tower 66).TentativeAt (climbs 66 0) i) ∧
    ¬((tower 66).signature (climbs 66 0) true).IsMarked := by
  refine ⟨acyclic_of_rank length_lt_of_inherits, attributed_tower 66, ground_mem_tower 66,
    List.mem_singleton_self _, ⟨66, (tentativeAt_climbs_iff le_rfl).2 rfl⟩, ?_⟩
  rw [isMarked_iff_tentativeAt]
  rintro ⟨i, hi, hat⟩
  have htop := (tentativeAt_climbs_iff hi.le).1 hat
  omega

end LazyClasses.Sample

import LazyClasses.Proofs.Reached
/-! # A class among its own interfaces

The walk over interface references starts with nothing passed, so it takes the class itself where
references lead back to it. All else that it takes is what it would take if it knew from the start
that it comes from there.

* `Covered`: a reference that a walk need not follow, as it comes to the same class anyway.
* `spread_covered`: such references may stand in the queue or not.
* `spread_knowing`: a walk that knows of one class more takes the same classes but for that one.
* `mem_own_interfaces_iff`: when a class is among its own interfaces, and what is there besides. -/

namespace LazyClasses.Registry

open Relation (TransGen)

variable {r : Registry} {c : ClassDecl} {seen seen' pending' rest : List String}

/-- Only which keys were passed counts, not in what order. -/
theorem spread_congr (seen pending : List String) : ∀ {seen' : List String},
    (∀ k, k ∈ seen' ↔ k ∈ seen) → r.spread seen' pending = r.spread seen pending := by
  induction seen, pending using spread.induct r with
  | case1 seen =>
    intro seen' h
    rw [spread, spread]
  | case2 seen name rest hnone ih =>
    intro seen' h
    rw [spread_of_find?_eq_none hnone, spread_of_find?_eq_none hnone, ih h]
  | case3 seen name rest d hd hseen ih =>
    intro seen' h
    rw [spread_of_find?_eq_some hd, spread_of_find?_eq_some hd, if_pos hseen,
      if_pos ((h _).2 hseen), ih h]
  | case4 seen name rest d hd hseen ih =>
    intro seen' h
    rw [spread_of_find?_eq_some hd, spread_of_find?_eq_some hd, if_neg hseen,
      if_neg (mt (h _).1 hseen), ih fun k => by rw [List.mem_cons, List.mem_cons, h]]

/-- What the reference means was passed, or one of the references to come means it too. -/
def Covered (r : Registry) (seen pending : List String) (name : String) : Prop :=
  ∀ e, r.find? name = some e → e.key ∈ seen ∨ ∃ n ∈ pending, r.find? n = some e

/-- A reference is covered still when the walk has gone on: what the first one in the queue means
was passed then. -/
theorem Covered.advance {first name : String} (h : r.Covered seen (first :: rest) name)
    (hfirst : ∀ d, r.find? first = some d → d.key ∈ seen')
    (hseen : ∀ k ∈ seen, k ∈ seen') (hrest : ∀ n ∈ rest, n ∈ pending') :
    r.Covered seen' pending' name := by
  intro e he
  rcases h e he with hkey | ⟨n, hn, hne⟩
  · exact .inl (hseen _ hkey)
  · rcases List.mem_cons.1 hn with rfl | hn
    · exact .inl (hfirst e hne)
    · exact .inr ⟨n, hrest n hn, hne⟩

/-- References to what was passed lead to nothing. -/
theorem spread_passed {extra : List String}
    (h : ∀ name ∈ extra, ∀ e, r.find? name = some e → e.key ∈ seen) (back : List String) :
    r.spread seen (extra ++ back) = r.spread seen back := by
  induction extra with
  | nil => rfl
  | cons name extra ih =>
    have hback := ih fun n hn => h n (List.mem_cons_of_mem _ hn)
    rw [List.cons_append]
    cases hname : r.find? name with
    | none => rw [spread_of_find?_eq_none hname, hback]
    | some e =>
      rw [spread_of_find?_eq_some hname, if_pos (h name List.mem_cons_self e hname), hback]

/-- **Covered references may stand in the queue or not**, behind those that cover them. -/
theorem spread_covered (seen front extra back : List String)
    (h : ∀ name ∈ extra, r.Covered seen front name) :
    r.spread seen (front ++ (extra ++ back)) = r.spread seen (front ++ back) := by
  match front with
  | [] =>
    refine spread_passed (fun name hname e he => (h name hname e he).resolve_right ?_) back
    simp
  | first :: rest =>
    rw [List.cons_append, List.cons_append]
    match hfirst : r.find? first with
    | none =>
      have hrest : ∀ name ∈ extra, r.Covered seen rest name := fun name hname =>
        (h name hname).advance (by simp [hfirst]) (fun _ => id) (fun _ => id)
      rw [spread_of_find?_eq_none hfirst, spread_of_find?_eq_none hfirst,
        spread_covered seen rest extra back hrest]
    | some d =>
      rw [spread_of_find?_eq_some hfirst, spread_of_find?_eq_some hfirst]
      by_cases hseen : d.key ∈ seen
      · have hrest : ∀ name ∈ extra, r.Covered seen rest name := fun name hname =>
          (h name hname).advance (by simpa [hfirst] using hseen) (fun _ => id) (fun _ => id)
        rw [if_pos hseen, if_pos hseen, spread_covered seen rest extra back hrest]
      · have hrest : ∀ name ∈ extra, r.Covered (d.key :: seen) rest name := fun name hname =>
          (h name hname).advance (by simp [hfirst]) (fun _ => List.mem_cons_of_mem _) (fun _ => id)
        -- What the class refers to comes in behind.
        rw [if_neg hseen, if_neg hseen, List.append_assoc, List.append_assoc, List.append_assoc,
          spread_covered (d.key :: seen) rest extra (back ++ d.interfaces) hrest]
termination_by (r.unseen seen, front.length)
decreasing_by
  · exact Prod.Lex.right _ (by simp)
  · exact Prod.Lex.right _ (by simp)
  · exact Prod.Lex.left _ _ (unseen_cons_lt (mem_of_find? hfirst) hseen)

/-- **A walk that knows of one class more** takes the same classes but for that one, if what that
class refers to is on the way anyhow. -/
theorem spread_knowing (hc : c ∈ r.classes) (seen pending : List String) :
    (∀ name ∈ c.interfaces, r.Covered (c.key :: seen) pending name) →
      r.spread (seen ++ [c.key]) pending = (r.spread seen pending).filter (· ≠ c) := by
  induction seen, pending using spread.induct r with
  | case1 seen =>
    intro _
    rw [spread, spread, List.filter_nil]
  | case2 seen name rest hnone ih =>
    intro hcovered
    rw [spread_of_find?_eq_none hnone, spread_of_find?_eq_none hnone]
    exact ih fun n hn => (hcovered n hn).advance (by simp [hnone]) (fun _ => id) (fun _ => id)
  | case3 seen name rest d hd hseen ih =>
    intro hcovered
    rw [spread_of_find?_eq_some hd, spread_of_find?_eq_some hd, if_pos hseen,
      if_pos (List.mem_append_left _ hseen)]
    exact ih fun n hn => (hcovered n hn).advance (by simp [hd, hseen]) (fun _ => id) (fun _ => id)
  | case4 seen name rest d hd hseen ih =>
    intro hcovered
    rw [spread_of_find?_eq_some hd, spread_of_find?_eq_some hd, if_neg hseen]
    by_cases hdc : d.key = c.key
    · -- The class itself: what it adds to the queue is covered by then.
      obtain rfl := eq_of_same_key (mem_of_find? hd) hc hdc
      have hrest : ∀ n ∈ d.interfaces, r.Covered (d.key :: seen) rest n := fun n hn =>
        (hcovered n hn).advance (by simp [hd]) (fun _ => id) (fun _ => id)
      have hspread := spread_covered (d.key :: seen) rest d.interfaces [] hrest
      have hnew : ∀ a ∈ r.spread (d.key :: seen) rest, a ≠ d := by
        rintro a ha rfl
        exact (r.nodup_key_spread _ _).1 a ha List.mem_cons_self
      have hseen' : ∀ k, k ∈ seen ++ [d.key] ↔ k ∈ d.key :: seen := fun k => by
        rw [List.mem_append, List.mem_singleton, List.mem_cons, or_comm]
      rw [List.append_nil, List.append_nil] at hspread
      rw [if_pos ((hseen' _).2 List.mem_cons_self), spread_congr _ rest hseen', hspread,
        List.filter_cons_of_neg (by simp), List.filter_eq_self.2 (by simpa using hnew)]
    · have hseen' : d.key ∉ seen ++ [c.key] := by simp [hseen, hdc]
      have hne : d ≠ c := fun h => hdc (congrArg ClassDecl.key h)
      rw [if_neg hseen', List.filter_cons_of_pos (by simpa using hne), ← List.cons_append, ih]
      refine fun n hn => (hcovered n hn).advance (by simp [hd]) (fun k hk => ?_)
        (fun _ => List.mem_append_left _)
      simp only [List.mem_cons] at hk ⊢
      exact hk.imp_right .inr

/-- **A class is among its own interfaces iff interface references lead back to it** from the class
or from one of its ancestors. Without it the list is the one of a walk that knows from the start
where it comes from. -/
theorem mem_own_interfaces_iff (hc : c ∈ r.classes) :
    (c ∈ r.interfaces c ↔ ∃ a ∈ c :: r.ancestors c, TransGen r.Implements a c) ∧
      (r.interfaces c).filter (· ≠ c) = r.spread [c.key] (r.references c) := by
  refine ⟨mem_interfaces_iff, (spread_knowing hc [] (r.references c) ?_).symm⟩
  -- The references of the class are the first in the queue.
  refine fun name hname e he => .inr ⟨name, ?_, he⟩
  exact List.mem_flatMap.2 ⟨c, List.mem_cons_self, hname⟩

end LazyClasses.Registry

namespace LazyClasses.Sample

open Registry

/-- Two interfaces that extend each other. -/
def supplier : ClassDecl where
  name := "Supplier"
  kind := .interface
  interfaces := ["Consumer"]

def consumer : ClassDecl where
  name := "Consumer"
  kind := .interface
  interfaces := ["Supplier"]

/-- The registry of both. -/
def traders : Registry := insertAll ∅ [supplier, consumer]

theorem interfaces_supplier : traders.interfaces supplier = [consumer, supplier] := by
  have hconsumer : traders.find? "Consumer" = some consumer := by decide
  have hsupplier : traders.find? "Supplier" = some supplier := by decide
  rw [interfaces, ancestors_of_parent_eq_none _ rfl]
  change traders.spread [] ["Consumer"] = _
  rw [spread_of_find?_eq_some hconsumer, if_neg (by decide)]
  change consumer :: traders.spread _ ["Supplier"] = _
  rw [spread_of_find?_eq_some hsupplier, if_neg (by decide)]
  change consumer :: supplier :: traders.spread _ ["Consumer"] = _
  rw [spread_of_find?_eq_some hconsumer, if_pos (by decide), spread]

/-- A walk that knows of the class comes to the other one alone. -/
theorem supplier_known : supplier ∈ traders.classes ∧
    (∃ a ∈ supplier :: traders.ancestors supplier,
      Relation.TransGen traders.Implements a supplier) ∧
    traders.spread [supplier.key] (traders.references supplier) = [consumer] := by
  have hmem : supplier ∈ traders.classes := by decide
  obtain ⟨hback, hwithout⟩ := mem_own_interfaces_iff hmem
  rw [interfaces_supplier] at hback hwithout
  exact ⟨hmem, hback.1 (by decide), hwithout.symm⟩

/-- **An interface that extends itself over another one** is among its own interfaces. -/
theorem supplier_mem_own_interfaces :
    supplier ∈ traders.classes ∧ supplier ∈ traders.interfaces supplier := by
  refine ⟨by decide, ?_⟩
  rw [interfaces_supplier]
  decide

end LazyClasses.Sample

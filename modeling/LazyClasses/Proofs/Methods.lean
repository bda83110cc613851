import LazyClasses.Proofs.Ancestors
import LazyClasses.Proofs.FirstOfEach
import LazyClasses.Support
/-! # The methods of a class

Names of methods count without regard to letter case, so a method is told by its key, and a class
has one method for each key (`nodup_key_methods`). -/

namespace LazyClasses

theorem Method.same_name_eq (m : Method) (name : String) :
    Text.same m.name name = (m.key == Text.lower name) := rfl

/-- A method returns nothing if its result type is `void` or `never`, and not part of another. -/
theorem Method.returnsNothing_iff (m : Method) : m.returnsNothing = true ↔
    ∃ name nullable, m.returnType = some (.named name nullable) ∧
      (Text.same name "void" = true ∨ Text.same name "never" = true) := by
  unfold returnsNothing
  split
  · next name nullable hreturn => simp [hreturn]
  · next hother =>
    refine iff_of_false Bool.false_ne_true ?_
    rintro ⟨name, nullable, hreturn, -⟩
    exact hother name nullable hreturn

/-- Whether the proxy trait defines a method depends on the key alone. -/
theorem Support.isProxyMethod_congr {a b : String} (h : Text.lower a = Text.lower b) :
    Support.isProxyMethod a = Support.isProxyMethod b := by
  have hs : Text.same a = Text.same b := funext fun s => by rw [Text.same, Text.same, h]
  rw [Support.isProxyMethod, Support.isProxyMethod, Text.memIgnoreCase, Text.memIgnoreCase, hs]

namespace Registry

variable (r : Registry) {c : ClassDecl}

/-- **A class has one method for each key.** -/
theorem nodup_key_methods (c : ClassDecl) : ((r.methods c).map Method.key).Nodup := by
  rw [methods, firstOfEach]
  exact nodup_key_firstBy [] _

theorem eq_of_key_eq {a m : Method} (ha : a ∈ r.methods c) (hm : m ∈ r.methods c)
    (h : a.key = m.key) : a = m :=
  List.inj_on_of_nodup_map (nodup_key_methods r c) ha hm h

theorem interfaces_of_no_reference (hp : c.parent = none) (hi : c.interfaces = []) :
    r.interfaces c = [] := by
  rw [interfaces, ancestors_of_parent_eq_none r hp, hi]
  simp [spread]

theorem method?_of_no_reference (hp : c.parent = none) (hi : c.interfaces = []) (name : String) :
    r.method? c name = c.method? name := by
  rw [method?, supertypes, ancestors_of_parent_eq_none r hp, interfaces_of_no_reference r hp hi]
  simp

/-- A class that refers to no other has its own methods. -/
theorem methods_of_no_reference (hp : c.parent = none) (hi : c.interfaces = []) :
    r.methods c = firstOfEach [] c.methods := by
  rw [methods, offeredMethods, ancestors_of_parent_eq_none r hp, interfaces_of_no_reference r hp hi]
  simp

end Registry

end LazyClasses

import LazyClasses.Json.Decoder
import Mathlib.Data.List.Forall2
import Mathlib.Data.List.Pairwise
import Mathlib.Logic.Relation
import Mathlib.Tactic.SplitIfs
/-! # The order of fields does not count

A decoder of records takes the fields of an object in the order in which they stand, and each goes
to a place of its own. So from an object with the same fields in another order it reads the same
record, also where objects stand in fields or lists of others.

* `Reorders`: the fields of one object, somewhere in a value, stand in another order.
* `Unordered`: a decoder to which that makes no difference. The decoders of values, options and
  lists are, as far as they rely on others that are.
* `Slot.Commute`: two places that may be filled in either order.
* `putFields_perm`: fields that are taken in another order. `Independent.unordered_decodeRecord`: so
  a record with independent places is decoded regardless of order. -/

namespace LazyClasses.Json

/-! ### Steps that may fail -/

section Outcomes

variable {ε α β : Type}

theorem bind_eq_ok_iff {x : Except ε α} {f : α → Except ε β} {b : β} :
    (x >>= f) = .ok b ↔ ∃ a, x = .ok a ∧ f a = .ok b := by
  cases x <;> simp [bind, Except.bind]

theorem pure_eq_ok_iff {a b : α} : (pure a : Except ε α) = .ok b ↔ a = b := by
  simp [pure, Except.pure]

theorem map_eq_ok_iff {x : Except ε α} {f : α → β} {b : β} :
    x.map f = .ok b ↔ ∃ a, x = .ok a ∧ f a = b := by
  cases x <;> simp [Except.map]

theorem mapM_eq_ok_iff {f : α → Except ε β} : ∀ {l : List α} {items : List β},
    l.mapM f = .ok items ↔ List.Forall₂ (fun a b => f a = .ok b) l items
  | [], items => by
    rw [List.mapM_nil, List.forall₂_nil_left_iff]
    exact pure_eq_ok_iff.trans eq_comm
  | a :: l, items => by
    rw [List.mapM_cons, List.forall₂_cons_left_iff, bind_eq_ok_iff]
    constructor
    · rintro ⟨b, hb, h⟩
      obtain ⟨rest, hrest, h⟩ := bind_eq_ok_iff.1 h
      exact ⟨b, rest, hb, mapM_eq_ok_iff.1 hrest, (pure_eq_ok_iff.1 h).symm⟩
    · rintro ⟨b, rest, hb, hrest, rfl⟩
      exact ⟨b, hb, bind_eq_ok_iff.2 ⟨rest, mapM_eq_ok_iff.2 hrest, rfl⟩⟩

end Outcomes

/-- The fields of one object in the value, at any depth, come in another order. -/
inductive Reorders : Json → Json → Prop
  | fields {fields fields' : List Field} (ending : Ending) : fields.Perm fields' →
      Reorders (.object fields ending) (.object fields' ending)
  | inArray {j k : Json} (front back : List Json) (ending : Ending) : Reorders j k →
      Reorders (.array (front ++ j :: back) ending) (.array (front ++ k :: back) ending)
  | inObject {j k : Json} (key : Option String) (front back : List Field) (ending : Ending) :
      Reorders j k → Reorders (.object (front ++ (key, j) :: back) ending)
        (.object (front ++ (key, k) :: back) ending)

variable {j k : Json}

theorem areWhole_eq_all (items : List Json) : areWhole items = items.all isWhole := by
  induction items with
  | nil => rfl
  | cons item items ih => rw [areWhole, ih, List.all_cons]

theorem fieldsAreWhole_eq_all (fields : List Field) :
    fieldsAreWhole fields = fields.all fun f => f.2.isWhole := by
  induction fields with
  | nil => rfl
  | cons field fields ih => rw [fieldsAreWhole, ih, List.all_cons]

theorem Reorders.isWhole_eq (h : Reorders j k) : j.isWhole = k.isWhole := by
  induction h with
  | fields ending hperm =>
    rw [isWhole, isWhole, fieldsAreWhole_eq_all, fieldsAreWhole_eq_all, hperm.all_eq]
  | inArray front back ending _ ih =>
    simp only [isWhole, areWhole_eq_all, List.all_append, List.all_cons, ih]
  | inObject key front back ending _ ih =>
    simp only [isWhole, fieldsAreWhole_eq_all, List.all_append, List.all_cons, ih]

theorem Reorders.symm (h : Reorders j k) : Reorders k j := by
  induction h with
  | fields ending hperm => exact .fields ending hperm.symm
  | inArray front back ending _ ih => exact .inArray front back ending ih
  | inObject key front back ending _ ih => exact .inObject key front back ending ih

/-! ### Values -/

section Values

variable {α : Type} {decode : Json → Except DecodeError α}

/-- The decoder reads the same, whatever the order of the fields. -/
def Unordered (decode : Json → Except DecodeError α) : Prop :=
  ∀ j k a, Reorders j k → decode j = .ok a → decode k = .ok a

/-- Any number of objects with their fields in another order. -/
theorem Unordered.eq_ok_iff (hdecode : Unordered decode) {j k : Json}
    (h : Relation.ReflTransGen Reorders j k) {a : α} : decode j = .ok a ↔ decode k = .ok a := by
  induction h with
  | refl => rfl
  | tail _ hstep ih => exact ih.trans ⟨hdecode _ _ a hstep, hdecode _ _ a hstep.symm⟩

/-- Nothing that holds fields is read at all. -/
theorem unordered_of_scalar (harray : ∀ items ending a, decode (.array items ending) ≠ .ok a)
    (hobject : ∀ fields ending a, decode (.object fields ending) ≠ .ok a) : Unordered decode := by
  intro j k a h hj
  cases h with
  | fields ending _ => exact absurd hj (hobject _ _ _)
  | inArray front back ending _ => exact absurd hj (harray _ _ _)
  | inObject key front back ending _ => exact absurd hj (hobject _ _ _)

@[simp] theorem unordered_decodeString : Unordered decodeString :=
  unordered_of_scalar nofun nofun

@[simp] theorem unordered_decodeBool : Unordered decodeBool :=
  unordered_of_scalar nofun nofun

@[simp] theorem unordered_decodeWord (word : α → String) (known : List α) :
    Unordered (decodeWord word known) :=
  unordered_of_scalar nofun nofun

@[simp] theorem unordered_decodeHint : Unordered decodeHint :=
  unordered_of_scalar nofun nofun

@[simp] theorem unordered_decodeOption (h : Unordered decode) :
    Unordered (decodeOption decode) := by
  intro j k a hjk hj
  have hmap {j : Json} (hne : j ≠ .null) : decodeOption decode j = (decode j).map some := by
    cases j <;> first | rfl | exact absurd rfl hne
  have hne : j ≠ .null ∧ k ≠ .null := by cases hjk <;> exact ⟨nofun, nofun⟩
  rw [hmap hne.1, map_eq_ok_iff] at hj
  obtain ⟨b, hb, rfl⟩ := hj
  rw [hmap hne.2, h j k b hjk hb]
  rfl

/-- What was read before the ending counts if the ending is a proper one. -/
theorem checkEnding_eq_ok_iff {x : Except DecodeError α} {ending : Ending} {a : α} :
    (do let b ← x; checkEnding ending; return b) = .ok a ↔ x = .ok a ∧ ending = .closed := by
  cases x <;> cases ending <;> simp [checkEnding, bind, Except.bind, pure, Except.pure]

theorem decodeList_eq_ok_iff {l : List α} : decodeList decode j = .ok l ↔
    ∃ items, j = .array items .closed ∧ List.Forall₂ (fun i a => decode i = .ok a) items l := by
  cases j with
  | array items ending =>
    rw [decodeList, checkEnding_eq_ok_iff, mapM_eq_ok_iff]
    simp only [Json.array.injEq]
    constructor
    · rintro ⟨hitems, rfl⟩
      exact ⟨items, ⟨rfl, rfl⟩, hitems⟩
    · rintro ⟨_, ⟨rfl, rfl⟩, hitems⟩
      exact ⟨hitems, rfl⟩
  | _ => simp [decodeList]

/-- One item gives way to another one of which everything holds that held of it. -/
theorem forall₂_replace {β γ : Type} {R : β → γ → Prop} {b b' : β} {back : List β}
    (h : ∀ c, R b c → R b' c) : ∀ (front : List β) {l : List γ},
    List.Forall₂ R (front ++ b :: back) l → List.Forall₂ R (front ++ b' :: back) l
  | [], _, .cons hb hback => .cons (h _ hb) hback
  | _ :: front, _, .cons hfirst hrest => .cons hfirst (forall₂_replace h front hrest)

@[simp] theorem unordered_decodeList (h : Unordered decode) : Unordered (decodeList decode) := by
  intro j k l hjk hj
  rw [decodeList_eq_ok_iff] at hj ⊢
  obtain ⟨items, rfl, hitems⟩ := hj
  cases hjk with
  | inArray front back ending hjk =>
    exact ⟨_, rfl, forall₂_replace (fun a => h _ _ a hjk) front hitems⟩

end Values

/-! ### Records -/

section Records

variable {α : Type} {slots : List (Slot α)} {seen : List String} {record result : α}

/-- Two places that may be filled in either order. -/
def Slot.Commute (s t : Slot α) : Prop :=
  ∀ u v record result, (s.put u record >>= t.put v) = .ok result ↔
    (t.put v record >>= s.put u) = .ok result

instance : Std.Symm (Slot.Commute (α := α)) := ⟨fun _ _ h u v record result =>
  (h v u record result).symm⟩

/-- Each place is a part of its own, and what is put there is read without regard to the order of
fields. -/
structure Independent (slots : List (Slot α)) : Prop where
  commute : slots.Pairwise Slot.Commute
  unordered : ∀ s ∈ slots, ∀ record, Unordered fun j => s.put j record

@[simp] theorem commute_slot {β γ : Type} {name name' : String}
    {decode : Json → Except DecodeError β} {decode' : Json → Except DecodeError γ}
    {set : α → β → α} {set' : α → γ → α}
    (h : ∀ record b c, set' (set record b) c = set (set' record c) b) :
    (slot name decode set).Commute (slot name' decode' set') := by
  intro u v record result
  simp only [slot, bind_eq_ok_iff, map_eq_ok_iff]
  constructor
  · rintro ⟨_, ⟨b, hb, rfl⟩, c, hc, rfl⟩
    exact ⟨_, ⟨c, hc, rfl⟩, b, hb, (h record b c).symm⟩
  · rintro ⟨_, ⟨c, hc, rfl⟩, b, hb, rfl⟩
    exact ⟨_, ⟨b, hb, rfl⟩, c, hc, h record b c⟩

@[simp] theorem unordered_slot {β : Type} {name : String} {decode : Json → Except DecodeError β}
    {set : α → β → α} (h : Unordered decode) (record : α) :
    Unordered fun j => (slot name decode set).put j record := by
  intro j k result hjk hj
  simp only [slot, map_eq_ok_iff] at hj ⊢
  obtain ⟨b, hb, rfl⟩ := hj
  exact ⟨b, h j k b hjk hb, rfl⟩

/-- What taking the first field amounts to: it has no place and nothing in it is broken, or it is
the first for its place and goes there. -/
theorem putFields_cons_eq_ok_iff {key : String} {value : Json} {fields : List Field} :
    putFields slots seen record ((some key, value) :: fields) = .ok result ↔
      (slots.find? (·.name == key) = none ∧ value.isWhole = true ∧
        putFields slots seen record fields = .ok result) ∨
      ∃ s, slots.find? (·.name == key) = some s ∧ key ∉ seen ∧
        ∃ next, s.put value record = .ok next ∧
          putFields slots (key :: seen) next fields = .ok result := by
  rw [putFields]
  cases hslot : slots.find? (·.name == key) with
  | none => cases value.isWhole <;> simp
  | some s =>
    by_cases hseen : key ∈ seen
    · simp [hseen]
    · cases hput : s.put value record <;> simp [hseen, hput]

theorem putFields_congr {seen seen' : List String} (h : ∀ key, key ∈ seen ↔ key ∈ seen')
    (record : α) (fields : List Field) :
    putFields slots seen record fields = putFields slots seen' record fields := by
  induction fields generalizing seen seen' record with
  | nil => rfl
  | cons field fields ih =>
    obtain ⟨_ | key, value⟩ := field
    · rfl
    · have hcons : ∀ k, k ∈ key :: seen ↔ k ∈ key :: seen' := fun k => by
        rw [List.mem_cons, List.mem_cons, h]
      simp only [putFields, h, ih h, ih hcons]

theorem find?_name_eq_some {key : String} {s : Slot α}
    (h : slots.find? (·.name == key) = some s) : s ∈ slots ∧ s.name = key :=
  ⟨List.mem_of_find?_eq_some h, by simpa using List.find?_some h⟩

theorem Independent.commute_of_ne (hslots : Independent slots) {s t : Slot α} (hs : s ∈ slots)
    (ht : t ∈ slots) (hne : s.name ≠ t.name) : s.Commute t :=
  hslots.commute.forall hs ht fun h => hne (congrArg Slot.name h)

/-- Two fields that are taken in the other order. -/
theorem Independent.putFields_swap (hslots : Independent slots) {x y : Field} {fields : List Field}
    (h : putFields slots seen record (x :: y :: fields) = .ok result) :
    putFields slots seen record (y :: x :: fields) = .ok result := by
  obtain ⟨_ | a, u⟩ := x
  · cases h
  obtain ⟨_ | b, v⟩ := y
  · rw [putFields_cons_eq_ok_iff] at h
    rcases h with ⟨-, -, h⟩ | ⟨s, -, -, next, -, h⟩ <;> cases h
  rw [putFields_cons_eq_ok_iff] at h ⊢
  rcases h with ⟨ha, hu, h⟩ | ⟨s, hs, hseen, next, hput, h⟩
  · rw [putFields_cons_eq_ok_iff] at h
    rcases h with ⟨hb, hv, h⟩ | ⟨t, ht, hseen, next, hput, h⟩
    · exact .inl ⟨hb, hv, putFields_cons_eq_ok_iff.2 (.inl ⟨ha, hu, h⟩)⟩
    · exact .inr ⟨t, ht, hseen, next, hput, putFields_cons_eq_ok_iff.2 (.inl ⟨ha, hu, h⟩)⟩
  · rw [putFields_cons_eq_ok_iff] at h
    rcases h with ⟨hb, hv, h⟩ | ⟨t, ht, hnew, last, hlast, h⟩
    · exact .inl ⟨hb, hv, putFields_cons_eq_ok_iff.2 (.inr ⟨s, hs, hseen, next, hput, h⟩)⟩
    · obtain ⟨hba, hseen'⟩ := not_or.1 (mt List.mem_cons.2 hnew)
      obtain ⟨hsmem, rfl⟩ := find?_name_eq_some hs
      obtain ⟨htmem, rfl⟩ := find?_name_eq_some ht
      have hcommute := (hslots.commute_of_ne hsmem htmem (Ne.symm hba) u v record last).1
        (bind_eq_ok_iff.2 ⟨next, hput, hlast⟩)
      obtain ⟨first, hfirst, hsecond⟩ := bind_eq_ok_iff.1 hcommute
      refine .inr ⟨t, ht, hseen', first, hfirst, putFields_cons_eq_ok_iff.2 (.inr ?_)⟩
      have hkeys : ∀ k, k ∈ s.name :: t.name :: seen ↔ k ∈ t.name :: s.name :: seen :=
        fun k => (List.Perm.swap t.name s.name seen).mem_iff
      exact ⟨s, hs, by simpa [Ne.symm hba] using hseen, last, hsecond,
        putFields_congr hkeys last fields ▸ h⟩

/-- **Fields may be taken in any order.** -/
theorem Independent.putFields_perm (hslots : Independent slots) {fields fields' : List Field}
    (h : fields.Perm fields') : ∀ {seen : List String} {record : α},
    putFields slots seen record fields = .ok result →
    putFields slots seen record fields' = .ok result := by
  induction h with
  | nil => exact id
  | @cons field fields fields' _ ih =>
    intro seen record h
    obtain ⟨_ | key, value⟩ := field
    · cases h
    rw [putFields_cons_eq_ok_iff] at h ⊢
    rcases h with ⟨hnone, hwhole, h⟩ | ⟨s, hs, hseen, next, hput, h⟩
    · exact .inl ⟨hnone, hwhole, ih h⟩
    · exact .inr ⟨s, hs, hseen, next, hput, ih h⟩
  | swap x y fields => exact fun h => hslots.putFields_swap h
  | trans _ _ ih₁ ih₂ => exact fun h => ih₂ (ih₁ h)

/-- A value in which fields stand in another order is as good in its place. -/
theorem Independent.putFields_replace (hslots : Independent slots) {j k : Json}
    (hjk : Reorders j k) {key : Option String} {back : List Field} :
    ∀ (front : List Field) {seen : List String} {record : α},
    putFields slots seen record (front ++ (key, j) :: back) = .ok result →
    putFields slots seen record (front ++ (key, k) :: back) = .ok result
  | [], seen, record, h => by
    rw [List.nil_append] at h ⊢
    obtain _ | key := key
    · cases h
    rw [putFields_cons_eq_ok_iff] at h ⊢
    rw [← hjk.isWhole_eq]
    refine h.imp_right ?_
    rintro ⟨s, hs, hseen, next, hput, h⟩
    exact ⟨s, hs, hseen, next,
      hslots.unordered s (find?_name_eq_some hs).1 record j k next hjk hput, h⟩
  | (none, _) :: _, _, _, h => by cases h
  | (some _, _) :: front, seen, record, h => by
    rw [List.cons_append, putFields_cons_eq_ok_iff] at h ⊢
    rcases h with ⟨hnone, hwhole, h⟩ | ⟨s, hs, hseen, next, hput, h⟩
    · exact .inl ⟨hnone, hwhole, hslots.putFields_replace hjk front h⟩
    · exact .inr ⟨s, hs, hseen, next, hput, hslots.putFields_replace hjk front h⟩

theorem putItems_cons_eq_ok_iff {s : Slot α} {value : Json} {values : List Json} :
    putItems record (s :: slots) (value :: values) = .ok result ↔
      ∃ next, s.put value record = .ok next ∧ putItems next slots values = .ok result := by
  rw [putItems]
  cases s.put value record <;> simp

theorem Independent.putItems_replace {j k : Json} (hjk : Reorders j k) {back : List Json} :
    ∀ {slots : List (Slot α)}, Independent slots → ∀ (front : List Json) {record : α},
    putItems record slots (front ++ j :: back) = .ok result →
    putItems record slots (front ++ k :: back) = .ok result
  | [], _, [], _, h => by cases h
  | [], _, _ :: _, _, h => by cases h
  | s :: slots, hslots, [], record, h => by
    rw [List.nil_append, putItems_cons_eq_ok_iff] at h ⊢
    obtain ⟨next, hput, h⟩ := h
    exact ⟨next, hslots.unordered s List.mem_cons_self record j k next hjk hput, h⟩
  | s :: slots, hslots, item :: front, record, h => by
    rw [List.cons_append, putItems_cons_eq_ok_iff] at h ⊢
    obtain ⟨next, hput, h⟩ := h
    have hrest : Independent slots :=
      ⟨hslots.commute.of_cons, fun t ht => hslots.unordered t (List.mem_cons_of_mem _ ht)⟩
    exact ⟨next, hput, putItems_replace hjk hrest front h⟩

theorem decodeRecord_object_eq_ok_iff {called : String} {default : α} {fields : List Field}
    {ending : Ending} : decodeRecord called slots default (.object fields ending) = .ok result ↔
      putFields slots [] default fields = .ok result ∧ ending = .closed :=
  checkEnding_eq_ok_iff

theorem decodeRecord_array_eq_ok_iff {called : String} {default : α} {items : List Json}
    {ending : Ending} : decodeRecord called slots default (.array items ending) = .ok result ↔
      putItems default slots items = .ok result ∧ ending = .closed :=
  checkEnding_eq_ok_iff

/-- **A record with independent places** is decoded regardless of the order of fields. -/
theorem Independent.unordered_decodeRecord (hslots : Independent slots) (called : String)
    (default : α) : Unordered (decodeRecord called slots default) := by
  intro j k result hjk hj
  cases hjk with
  | fields ending hperm =>
    rw [decodeRecord_object_eq_ok_iff] at hj ⊢
    exact hj.imp_left (hslots.putFields_perm hperm)
  | inArray front back ending hjk =>
    rw [decodeRecord_array_eq_ok_iff] at hj ⊢
    exact hj.imp_left (putItems_replace hjk hslots front)
  | inObject key front back ending hjk =>
    rw [decodeRecord_object_eq_ok_iff] at hj ⊢
    exact hj.imp_left (hslots.putFields_replace hjk front)

end Records

end LazyClasses.Json

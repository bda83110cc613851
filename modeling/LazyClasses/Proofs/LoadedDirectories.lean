import LazyClasses.Registry.Load
import Mathlib.Data.List.Forall2
import Mathlib.Data.List.Nodup
/-! # Loading the files of a directory

A directory holds files and directories under names of their own. Its files are loaded depth first,
in each directory by the order of names, up to the first that is wrong: what came before that one
stays, and nothing of it or of those behind it is registered.

* `Node.walk`: the files below a directory, depth first. `Node.walk_sorted`: that is the order of
  their paths.
* `Source.ofListing_eq`: so the files to load are those of the walk, whatever the order in which a
  directory is listed.
* `Source.Describes`, `Source.Wrong`: what a file gives to load.
* `Registry.load_append`: a file is loaded into what those before it left.
* `Registry.load_all_or_upTo_wrong`: all files, or those up to the first that is wrong. -/

namespace LazyClasses

/-! ### Directories -/

/-- A file, or why it cannot be read, under the names that lead to it. -/
abbrev Found := List String × Except ReadFault ByteArray

/-- The file as seen from the directory that holds its directory under the name. -/
def Found.under (name : String) (f : Found) : Found := (name :: f.1, f.2)

/-- What stands under a name in a directory. -/
inductive Node where
  | file (content : Except ReadFault ByteArray)
  | directory (entries : List (String × Node))

namespace Node

mutual

/-- The files of the node, in no order that counts. -/
def files : Node → List Found
  | .file content => [([], content)]
  | .directory entries => filesIn entries

/-- The files under all of the names. -/
def filesIn : List (String × Node) → List Found
  | [] => []
  | (name, node) :: entries => node.files.map (Found.under name) ++ filesIn entries

end

/-- The order of names. -/
def byName {α : Type} (a b : String × α) : Bool := decide (a.1 ≤ b.1)

mutual

/-- **The files depth first**, in each directory by the order of names. -/
def walk : Node → List Found
  | .file content => [([], content)]
  | .directory entries => ((walks entries).mergeSort byName).flatMap Prod.snd

/-- The walk under each of the names. -/
def walks : List (String × Node) → List (String × List Found)
  | [] => []
  | (name, node) :: entries => (name, node.walk.map (Found.under name)) :: walks entries

end

mutual

/-- No directory holds two nodes under one name. -/
def WellNamed : Node → Prop
  | .file _ => True
  | .directory entries => (entries.map Prod.fst).Nodup ∧ AllWellNamed entries

def AllWellNamed : List (String × Node) → Prop
  | [] => True
  | (_, node) :: entries => node.WellNamed ∧ AllWellNamed entries

end

mutual

theorem walk_perm : ∀ node : Node, node.walk.Perm node.files
  | .file content => .refl _
  | .directory entries => by
    rw [walk, files]
    exact ((List.mergeSort_perm _ _).flatMap_right _).trans (walks_perm entries)

theorem walks_perm : ∀ entries : List (String × Node),
    ((walks entries).flatMap Prod.snd).Perm (filesIn entries)
  | [] => .refl _
  | (name, node) :: entries => by
    rw [walks, filesIn, List.flatMap_cons]
    exact ((walk_perm node).map _).append (walks_perm entries)

end

/-! ### The order of the walk -/

theorem map_fst_walks (entries : List (String × Node)) :
    (walks entries).map Prod.fst = entries.map Prod.fst := by
  induction entries with
  | nil => rfl
  | cons entry entries ih => rw [walks, List.map_cons, List.map_cons, ih]

/-- What is under a name has a path that begins with it. -/
theorem exists_eq_under_of_mem_walks {entries : List (String × Node)} {part : String × List Found}
    (hpart : part ∈ walks entries) {f : Found} (hf : f ∈ part.2) :
    ∃ names, f.1 = part.1 :: names := by
  induction entries with
  | nil => cases hpart
  | cons entry entries ih =>
    rcases List.mem_cons.1 hpart with rfl | hpart
    · obtain ⟨g, -, rfl⟩ := List.mem_map.1 hf
      exact ⟨g.1, rfl⟩
    · exact ih hpart

theorem byName_sorted {parts : List (String × List Found)} (hn : (parts.map Prod.fst).Nodup) :
    (parts.mergeSort byName).Pairwise fun a b => a.1 < b.1 := by
  have hsorted : (parts.mergeSort byName).Pairwise fun a b => byName a b = true :=
    List.pairwise_mergeSort
      (fun a b c hab hbc => by
        simp only [byName, decide_eq_true_eq] at hab hbc ⊢
        exact String.le_trans hab hbc)
      (fun a b => by simpa [byName] using String.le_total a.1 b.1) parts
  have hnames : (parts.mergeSort byName).Pairwise fun a b => a.1 ≠ b.1 :=
    List.pairwise_map.1 (((List.mergeSort_perm parts byName).map Prod.fst).nodup_iff.2 hn)
  refine (hsorted.and hnames).imp fun {a b} h => ?_
  have hle : a.1 ≤ b.1 := of_decide_eq_true h.1
  exact Decidable.byContradiction fun hlt => h.2 (String.le_antisymm hle (String.not_lt.1 hlt))

mutual

/-- **The walk is in the order of paths.** -/
theorem walk_sorted : ∀ node : Node, node.WellNamed → node.walk.Pairwise fun a b => a.1 < b.1
  | .file content, _ => List.pairwise_singleton _ _
  | .directory entries, h => by
    rw [WellNamed] at h
    have hmem {part : String × List Found} (hpart : part ∈ (walks entries).mergeSort byName) :
        part ∈ walks entries := (List.mergeSort_perm _ _).mem_iff.1 hpart
    have hparts : ((walks entries).mergeSort byName).Pairwise fun a b => a.1 < b.1 :=
      byName_sorted ((map_fst_walks entries).symm ▸ h.1)
    rw [walk, List.pairwise_flatMap]
    refine ⟨fun part hpart => walks_sorted entries h.2 part (hmem hpart), ?_⟩
    -- Paths under different names differ in their first name.
    refine hparts.imp_of_mem fun ha hb hab f hf g hg => ?_
    obtain ⟨names, hfnames⟩ := exists_eq_under_of_mem_walks (hmem ha) hf
    obtain ⟨names', hgnames⟩ := exists_eq_under_of_mem_walks (hmem hb) hg
    rw [hfnames, hgnames, List.cons_lt_cons_iff]
    exact .inl hab

theorem walks_sorted : ∀ entries : List (String × Node), AllWellNamed entries →
    ∀ part ∈ walks entries, part.2.Pairwise fun a b => a.1 < b.1
  | (name, node) :: entries, h, part, hpart => by
    rw [AllWellNamed] at h
    rw [walks] at hpart
    rcases List.mem_cons.1 hpart with rfl | hpart
    · refine List.pairwise_map.2 ((walk_sorted node h.1).imp fun hlt => ?_)
      exact List.cons_lt_cons_iff.2 (.inr ⟨rfl, hlt⟩)
    · exact walks_sorted entries h.2 part hpart

end

end Node

/-! ### The files to load -/

/-- What a path to the node leads to. A directory may be listed in any order. -/
inductive Node.ShownAs : Node → Listing → Prop
  | file (content : ByteArray) : ShownAs (.file (.ok content)) (.file content)
  | unreadable (fault : ReadFault) : ShownAs (.file (.error fault)) (.absent fault)
  | directory {entries : List (String × Node)} {listed : List Found} :
      listed.Perm (Node.directory entries).files →
      ShownAs (.directory entries) (.directory listed)

/-- The files that are loaded from a path to the node, in their order. A file that the path itself
leads to may have any name. -/
def Node.sources (path : String) : Node → List Source
  | .file content => [⟨path, content.bind decodeText⟩]
  | .directory entries =>
    ((walk (.directory entries)).filter fun f => f.1.getLast?.any hasExtension).map fun f =>
      ⟨joinPath path f.1, f.2.bind decodeText⟩

theorem inOrder_iff {α : Type} {a b : List String × α} : inOrder a b = true ↔ ¬ b.1 < a.1 := by
  simp [inOrder]

/-- Files in the order of their paths are what putting them in order gives. -/
theorem mergeSort_inOrder_eq {listed files : List Found}
    (hfiles : files.Pairwise fun a b => a.1 < b.1) (hperm : listed.Perm files) :
    listed.mergeSort inOrder = files := by
  have hn : (files.map Prod.fst).Nodup := by
    refine List.pairwise_map.2 (hfiles.imp fun {a b} hlt heq => ?_)
    exact List.lt_irrefl _ (heq ▸ hlt)
  have hsorted : (listed.mergeSort inOrder).Pairwise fun a b => inOrder a b = true :=
    List.pairwise_mergeSort
      (fun a b c hab hbc => by
        rw [inOrder_iff, List.not_lt] at hab hbc ⊢
        exact List.le_trans hab hbc)
      (fun a b => by
        rw [Bool.or_eq_true, inOrder_iff, inOrder_iff, List.not_lt, List.not_lt]
        exact List.le_total _ _) listed
  have hmerged : (listed.mergeSort inOrder).Perm files := (List.mergeSort_perm _ _).trans hperm
  refine hmerged.eq_of_pairwise (fun a b ha hb hab hba => ?_) hsorted
    (hfiles.imp fun hlt => inOrder_iff.2 (List.not_lt.2 (List.le_of_lt hlt)))
  exact List.inj_on_of_nodup_map hn (hmerged.mem_iff.1 ha) hb
    (List.le_antisymm (List.not_lt.1 (inOrder_iff.1 hab)) (List.not_lt.1 (inOrder_iff.1 hba)))

/-- **The files that a path stands for** are those of the walk. -/
theorem Source.ofListing_eq {node : Node} (hnode : node.WellNamed) {listing : Listing}
    (hshown : node.ShownAs listing) (path : String) :
    Source.ofListing path listing = node.sources path := by
  cases hshown with
  | file content => rfl
  | unreadable fault => rfl
  | @directory entries listed hlisted =>
    rw [ofListing, Node.sources, mergeSort_inOrder_eq ((Node.walk_sorted _ hnode).filter _)]
    exact (hlisted.trans (Node.walk_perm _).symm).filter _

/-! ### File by file -/

namespace Source

/-- The file can be read and describes the classes. -/
def Describes (s : Source) (classes : List ClassDecl) : Prop :=
  ∃ text, s.text = .ok text ∧ ClassDecl.listOfDocument? (Json.read text) = .ok classes

/-- What is wrong with a file: it cannot be read, or what was read describes no classes. -/
inductive Wrong (s : Source) : LoadError → Prop
  | unreadable {fault : ReadFault} : s.text = .error fault → Wrong s (.unreadable s.path fault)
  | invalid {text : String} {error : DecodeError} : s.text = .ok text →
      ClassDecl.listOfDocument? (Json.read text) = .error error → Wrong s (.invalid s.path error)

variable {s : Source}

theorem classes_of_describes {classes : List ClassDecl} (h : s.Describes classes) :
    s.classes = .ok classes := by
  obtain ⟨text, htext, hclasses⟩ := h
  rw [Source.classes, htext]
  simp [classesOf, hclasses, Except.mapError]

theorem classes_of_wrong {e : LoadError} (h : s.Wrong e) : s.classes = .error e := by
  cases h with
  | unreadable htext => rw [Source.classes, htext]
  | invalid htext herror =>
    rw [Source.classes, htext]
    simp [classesOf, herror, Except.mapError]

/-- A file describes classes, or something is wrong with it. -/
theorem describes_or_wrong (s : Source) :
    (∃ classes, s.Describes classes) ∨ ∃ e, s.Wrong e := by
  cases htext : s.text with
  | error fault => exact .inr ⟨_, .unreadable htext⟩
  | ok text =>
    cases hclasses : ClassDecl.listOfDocument? (Json.read text) with
    | error error => exact .inr ⟨_, .invalid htext hclasses⟩
    | ok classes => exact .inl ⟨classes, text, htext, hclasses⟩

/-- All of the files describe classes, or one of them is the first that is wrong. -/
theorem all_or_first (sources : List Source) :
    (∃ lists, List.Forall₂ Describes sources lists) ∨
      ∃ before s after lists e, sources = before ++ s :: after ∧
        List.Forall₂ Describes before lists ∧ s.Wrong e := by
  induction sources with
  | nil => exact .inl ⟨[], .nil⟩
  | cons s sources ih =>
    obtain ⟨classes, hs⟩ | ⟨e, hs⟩ := s.describes_or_wrong
    · obtain ⟨lists, h⟩ | ⟨before, t, after, lists, e, rfl, h, ht⟩ := ih
      · exact .inl ⟨classes :: lists, .cons hs h⟩
      · exact .inr ⟨s :: before, t, after, classes :: lists, e, rfl, .cons hs h, ht⟩
    · exact .inr ⟨[], s, sources, [], e, rfl, .nil, hs⟩

end Source

namespace Registry

open Source (Describes)

/-- The files with the number of classes in each. -/
def counts (sources : List Source) (lists : List (List ClassDecl)) : List (String × Nat) :=
  List.zipWith (fun s classes => (s.path, classes.length)) sources lists

/-- **What follows is loaded into what came before.** -/
theorem load_append {before : List Source} {lists : List (List ClassDecl)}
    (h : List.Forall₂ Describes before lists) (r : Registry) (rest : List Source) :
    r.load (before ++ rest) =
      { (lists.foldl insertAll r).load rest with
        loaded := counts before lists ++ ((lists.foldl insertAll r).load rest).loaded } := by
  induction h generalizing r with
  | nil => rfl
  | cons hs _ ih =>
    rw [List.cons_append, load, Source.classes_of_describes hs]
    simp only [ih, List.foldl_cons, counts, List.zipWith_cons_cons, List.cons_append]

theorem load_all {sources : List Source} {lists : List (List ClassDecl)}
    (h : List.Forall₂ Describes sources lists) (r : Registry) :
    r.load sources = ⟨lists.foldl insertAll r, counts sources lists, none⟩ := by
  simpa [load] using load_append h r []

/-- A wrong file ends the loading, whatever comes behind it. -/
theorem load_upTo {before : List Source} {lists : List (List ClassDecl)}
    (h : List.Forall₂ Describes before lists) {s : Source} {e : LoadError} (hs : s.Wrong e)
    (r : Registry) (after : List Source) :
    r.load (before ++ s :: after) = ⟨lists.foldl insertAll r, counts before lists, some e⟩ := by
  rw [load_append h, load, Source.classes_of_wrong hs]
  simp

theorem total_counts {sources : List Source} {lists : List (List ClassDecl)}
    (h : List.Forall₂ Describes sources lists) (r : Registry) (e : Option LoadError) :
    LoadOutcome.total ⟨r, counts sources lists, e⟩ = lists.flatten.length := by
  have htotal (n : Nat) : (counts sources lists).foldl (fun n f => n + f.2) n =
      n + lists.flatten.length := by
    induction h generalizing n with
    | nil => rfl
    | cons _ _ ih =>
      rw [counts, List.zipWith_cons_cons, List.foldl_cons, ← counts, ih, List.flatten_cons,
        List.length_append]
      omega
  rw [LoadOutcome.total, htotal, Nat.zero_add]

end Registry

namespace Sample

/-- A text with one class of the name. -/
def named (name : String) : String := "[\x7b\"name\": \"" ++ name ++ "\"\x7d]"

/-- A directory with a file that cannot be read, between two others. -/
def guarded : Node := .directory [
  ("notes.txt", .file (.ok "no classes".toUTF8)),
  ("c.json", .file (.ok (named "C").toUTF8)),
  ("b.json", .file (.error (.other "Permission denied"))),
  ("a", .directory [("a.json", .file (.ok (named "A").toUTF8))])]

/-- Its files from back to front. -/
def guardedListing : Listing := .directory guarded.files.reverse

theorem sources_guarded : guarded.sources "classes" = [
    ⟨"classes/a/a.json", .ok (named "A")⟩,
    ⟨"classes/b.json", .error (.other "Permission denied")⟩,
    ⟨"classes/c.json", .ok (named "C")⟩] := by
  have hwalk : guarded.walk = [
      (["a", "a.json"], .ok (named "A").toUTF8),
      (["b.json"], .error (.other "Permission denied")),
      (["c.json"], .ok (named "C").toUTF8),
      (["notes.txt"], .ok "no classes".toUTF8)] := by
    simp [guarded, Node.walk, Node.walks, Node.byName, List.mergeSort, Found.under]
  rw [guarded, Node.sources, ← guarded, hwalk]
  rfl

end Sample

end LazyClasses

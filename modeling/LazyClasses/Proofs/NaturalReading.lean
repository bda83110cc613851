import LazyClasses.Proofs.NaturalOrder
import Mathlib.Algebra.Group.Nat.Defs
import Mathlib.Data.List.Chain
import Mathlib.Data.List.Forall2
/-! # What the natural order compares

The tokens of a text are its maximal runs of digits and the bytes between them, and a text has one
such reading (`reads_iff`). Of two runs the one of the greater decimal value is greater, however
long they are: without leading zeros the longer one is, and of two that are equally long the one
that is greater byte by byte (`compareNumbers_eq`). So two texts are equal in the natural order
when they differ in leading zeros alone.

* `value`, `Token.order`: the order of tokens, said with numbers.
* `Reads`: the tokens of a byte string, said without the scan.
* `Token.SameButZeros`: tokens that are equal in the order.
* `cmp_preorder_of_tokens`: the natural order as the order of readings. -/

namespace LazyClasses.NaturalOrder

/-! ### Decimal values -/

/-- The number that a run of digits writes in the decimal system. -/
def value : List UInt8 → Nat
  | [] => 0
  | d :: ds => (d.toNat - 0x30) * 10 ^ ds.length + value ds

theorem isDigit_iff {b : UInt8} : isDigit b = true ↔ 0x30 ≤ b.toNat ∧ b.toNat ≤ 0x39 := by
  simp only [isDigit, Bool.and_eq_true, decide_eq_true_eq, UInt8.le_iff_toNat_le]
  rfl

theorem value_lt : ∀ {ds : List UInt8}, (∀ d ∈ ds, isDigit d = true) → value ds < 10 ^ ds.length
  | [], _ => by simp [value]
  | d :: ds, h => by
    have hd := isDigit_iff.1 (h d List.mem_cons_self)
    have hds := value_lt fun e he => h e (List.mem_cons_of_mem _ he)
    have hle : (d.toNat - 0x30) * 10 ^ ds.length ≤ 9 * 10 ^ ds.length :=
      Nat.mul_le_mul_right _ (by omega)
    rw [value, List.length_cons, Nat.pow_succ]
    omega

/-- A run that does not begin with a zero is at least as great as its length says. -/
theorem le_value {d : UInt8} {ds : List UInt8} (hd : isDigit d = true) (hne : d ≠ 0x30) :
    10 ^ ds.length ≤ value (d :: ds) := by
  have hd := isDigit_iff.1 hd
  have hne : d.toNat ≠ 0x30 := fun h => hne (UInt8.toNat_inj.1 h)
  have hle : 1 * 10 ^ ds.length ≤ (d.toNat - 0x30) * 10 ^ ds.length :=
    Nat.mul_le_mul_right _ (by omega)
  rw [value]
  omega

theorem value_significant : ∀ ds : List UInt8, value (significant ds) = value ds
  | [] => rfl
  | d :: ds => by
    rw [significant, List.dropWhile_cons]
    split_ifs with hd
    · rw [show d = 0x30 from eq_of_beq hd]
      change value (significant ds) = 0 * 10 ^ ds.length + value ds
      rw [value_significant ds, Nat.zero_mul, Nat.zero_add]
    · rfl

theorem head_significant_ne {ds es : List UInt8} {d : UInt8} (h : significant ds = d :: es) :
    d ≠ 0x30 := by
  have hhead := List.head?_dropWhile_not (· == (0x30 : UInt8)) ds
  rw [← significant, h] at hhead
  simpa using hhead

theorem isDigit_of_mem_significant {ds : List UInt8} (h : ∀ d ∈ ds, isDigit d = true) {d : UInt8}
    (hd : d ∈ significant ds) : isDigit d = true :=
  h d ((List.dropWhile_sublist _).mem hd)

/-- Of two equally long runs the first digits decide, since what is behind them stays below one unit
of their place. -/
theorem value_cons_lt {a b : UInt8} {as bs : List UInt8} (hlength : as.length = bs.length)
    (ha : isDigit a = true) (has : ∀ d ∈ as, isDigit d = true) (h : a.toNat < b.toNat) :
    value (a :: as) < value (b :: bs) := by
  have ha := isDigit_iff.1 ha
  have hvalue := value_lt has
  have hle : (a.toNat - 0x30 + 1) * 10 ^ as.length ≤ (b.toNat - 0x30) * 10 ^ as.length :=
    Nat.mul_le_mul_right _ (by omega)
  rw [Nat.add_mul, Nat.one_mul] at hle
  rw [value, value, ← hlength]
  omega

/-- Equally long runs compare byte by byte as their values do. -/
theorem compareBytes_eq_value : ∀ {as bs : List UInt8}, as.length = bs.length →
    (∀ a ∈ as, isDigit a = true) → (∀ b ∈ bs, isDigit b = true) →
    compareBytes as bs = compare (value as) (value bs)
  | [], [], _, _, _ => rfl
  | a :: as, b :: bs, hlength, ha, hb => by
    have hlength : as.length = bs.length := Nat.succ.inj hlength
    have has := fun d hd => ha d (List.mem_cons_of_mem _ hd)
    have hbs := fun d hd => hb d (List.mem_cons_of_mem _ hd)
    rw [compareBytes, compare_byte]
    rcases Nat.lt_trichotomy a.toNat b.toNat with hlt | heq | hgt
    · have hvalue := value_cons_lt hlength (ha a List.mem_cons_self) has hlt
      rw [if_pos hlt, Nat.compare_eq_lt.2 hvalue]
      rfl
    · rw [if_neg (by omega), if_pos heq, Ordering.eq_then, compareBytes_eq_value hlength has hbs,
        value, value, heq, hlength]
      simp only [Nat.compare_eq_ite_lt, Nat.add_lt_add_iff_left]
    · have hvalue := value_cons_lt hlength.symm (hb b List.mem_cons_self) hbs hgt
      rw [if_neg (by omega), if_neg (by omega), Nat.compare_eq_gt.2 hvalue]
      rfl

/-- The longer of two runs without leading zeros is the greater number. -/
theorem value_lt_of_length_lt {as bs : List UInt8} (ha : ∀ a ∈ as, isDigit a = true)
    (hb : ∀ b ∈ bs, isDigit b = true) (h : (significant as).length < (significant bs).length) :
    value as < value bs := by
  rw [← value_significant as, ← value_significant bs]
  cases hbs : significant bs with
  | nil => rw [hbs] at h; cases h
  | cons b rest =>
    have hb : isDigit b = true := isDigit_of_mem_significant hb (hbs ▸ List.mem_cons_self)
    rw [hbs, List.length_cons] at h
    calc value (significant as) < 10 ^ (significant as).length :=
          value_lt fun a => isDigit_of_mem_significant ha
      _ ≤ 10 ^ rest.length := Nat.pow_le_pow_right (by decide) (by omega)
      _ ≤ value (b :: rest) := le_value hb (head_significant_ne hbs)

/-- **Runs of digits compare by value.** -/
theorem compareNumbers_eq {as bs : List UInt8} (ha : ∀ a ∈ as, isDigit a = true)
    (hb : ∀ b ∈ bs, isDigit b = true) :
    compareNumbers as bs = compare (value as) (value bs) := by
  rw [compareNumbers]
  rcases Nat.lt_trichotomy (significant as).length (significant bs).length with hlt | heq | hgt
  · rw [Nat.compare_eq_lt.2 hlt, Nat.compare_eq_lt.2 (value_lt_of_length_lt ha hb hlt)]
    rfl
  · rw [Nat.compare_eq_eq.2 heq, Ordering.eq_then,
      compareBytes_eq_value heq (fun _ => isDigit_of_mem_significant ha)
        (fun _ => isDigit_of_mem_significant hb), value_significant, value_significant]
  · rw [Nat.compare_eq_gt.2 hgt, Nat.compare_eq_gt.2 (value_lt_of_length_lt hb ha hgt)]
    rfl

theorem compareNumbers_eq_eq_iff {as bs : List UInt8} :
    compareNumbers as bs = .eq ↔ significant as = significant bs := by
  rw [compareNumbers, Ordering.then_eq_eq, compareBytes_eq_compare, Nat.compare_eq_eq,
    Std.compare_eq_iff_eq]
  exact ⟨And.right, fun h => ⟨congrArg List.length h, h⟩⟩

theorem significant_zeros (n : Nat) (ds : List UInt8) :
    significant (List.replicate n 0x30 ++ ds) = significant ds := by
  rw [significant, List.dropWhile_append_of_pos (by simp)]
  rfl

theorem zeros_significant (ds : List UInt8) :
    ∃ n, ds = List.replicate n 0x30 ++ significant ds := by
  refine ⟨(ds.takeWhile (· == 0x30)).length, ?_⟩
  conv_lhs => rw [← List.takeWhile_append_dropWhile (p := (· == 0x30)) (l := ds)]
  rw [significant]
  congr 1
  refine List.eq_replicate_length.2 fun d hd => ?_
  exact eq_of_beq (List.all_eq_true.1 List.all_takeWhile d hd)

/-! ### The order of tokens -/

namespace Token

/-- The order of tokens, said with numbers: of two runs the values count, and where a run meets
another byte its first digit does. -/
def order : Token → Token → Ordering
  | number ds, number es => compare (value ds) (value es)
  | number ds, byte b => compare (ds.headD 0x30) b
  | byte a, number es => compare a (es.headD 0x30)
  | byte a, byte b => compare a b

/-- The token as it stands in the text. -/
def bytes : Token → List UInt8
  | number ds => ds
  | byte b => [b]

def isNumber : Token → Bool
  | number _ => true
  | byte _ => false

/-- The token is a run of digits or a byte that is none. -/
def Valid : Token → Prop
  | number ds => ds ≠ [] ∧ ∀ d ∈ ds, isDigit d = true
  | byte b => isDigit b = false

/-- The tokens are the same, or runs of digits that differ in leading zeros alone. -/
def SameButZeros : Token → Token → Prop
  | number ds, number es =>
    ∃ m n figures, ds = List.replicate m 0x30 ++ figures ∧ es = List.replicate n 0x30 ++ figures
  | byte a, byte b => a = b
  | _, _ => False

theorem sameButZeros_number_iff {ds es : List UInt8} :
    SameButZeros (number ds) (number es) ↔ significant ds = significant es := by
  constructor
  · rintro ⟨m, n, figures, rfl, rfl⟩
    rw [significant_zeros, significant_zeros]
  · intro h
    obtain ⟨m, hm⟩ := zeros_significant ds
    obtain ⟨n, hn⟩ := zeros_significant es
    exact ⟨m, n, significant ds, hm, h ▸ hn⟩

theorem cmp_eq_order {s t : Token} (hs : s.Valid) (ht : t.Valid) : cmp s t = order s t := by
  match s, t, hs, ht with
  | number ds, number es, hs, ht =>
    exact (compareNumbers_eq_cmp ds es) ▸ compareNumbers_eq hs.2 ht.2
  | number (d :: ds), byte b, hs, ht =>
    exact (cmp_number_byte (hs.2 d List.mem_cons_self) ht (d :: ds)).1
  | byte a, number (e :: es), hs, ht =>
    exact (cmp_number_byte (ht.2 e List.mem_cons_self) hs (e :: es)).2.1
  | byte a, byte b, _, _ => exact cmp_byte_byte a b
  | number [], _, hs, _ => exact absurd rfl hs.1
  | _, number [], _, ht => exact absurd rfl ht.1

theorem cmp_eq_eq_iff {s t : Token} (hs : s.Valid) (ht : t.Valid) :
    cmp s t = .eq ↔ SameButZeros s t := by
  match s, t, hs, ht with
  | number ds, number es, _, _ =>
    rw [← compareNumbers_eq_cmp, compareNumbers_eq_eq_iff, sameButZeros_number_iff]
  | number (d :: ds), byte b, hs, ht =>
    obtain ⟨hcmp, -, hne, -⟩ := cmp_number_byte (hs.2 d List.mem_cons_self) ht (d :: ds)
    exact iff_of_false (hcmp ▸ hne) not_false
  | byte a, number (e :: es), hs, ht =>
    obtain ⟨-, hcmp, -, hne⟩ := cmp_number_byte (ht.2 e List.mem_cons_self) hs (e :: es)
    exact iff_of_false (hcmp ▸ hne) not_false
  | byte a, byte b, _, _ => rw [cmp_byte_byte, Std.compare_eq_iff_eq]; rfl
  | number [], _, hs, _ => exact absurd rfl hs.1
  | _, number [], _, ht => exact absurd rfl ht.1

end Token

/-! ### Readings -/

/-- **The tokens are those of the byte string**: put together they give it, and no run of digits is
cut. -/
structure Reads (l : List UInt8) (ts : List Token) : Prop where
  bytes : ts.flatMap Token.bytes = l
  valid : ∀ t ∈ ts, t.Valid
  uncut : ts.IsChain fun s t => (s.isNumber && t.isNumber) = false

theorem tokens_digit {b : UInt8} (h : isDigit b = true) (bs : List UInt8) : tokens (b :: bs) =
    .number (b :: bs.takeWhile isDigit) :: tokens (bs.dropWhile isDigit) := by
  rw [tokens, if_pos h]

theorem tokens_byte {b : UInt8} (h : isDigit b = false) (bs : List UInt8) :
    tokens (b :: bs) = .byte b :: tokens bs := by
  rw [tokens, if_neg (by simp [h])]

/-- The first token is a run of digits where the first byte is a digit. -/
theorem head?_tokens (l : List UInt8) :
    (tokens l).head?.any Token.isNumber = l.head?.any isDigit := by
  cases l with
  | nil => rw [tokens]; rfl
  | cons b bs =>
    cases h : isDigit b with
    | true => rw [tokens_digit h]; exact h.symm
    | false => rw [tokens_byte h]; exact h.symm

theorem any_head?_dropWhile (p : UInt8 → Bool) (l : List UInt8) :
    (l.dropWhile p).head?.any p = false := by
  have h := List.head?_dropWhile_not p l
  cases hhead : (l.dropWhile p).head? with
  | none => rfl
  | some b =>
    rw [hhead] at h
    simpa using h

theorem Reads.cons {t : Token} {l : List UInt8} {ts : List Token} (h : Reads l ts) (ht : t.Valid)
    (huncut : (t.isNumber && ts.head?.any Token.isNumber) = false) :
    Reads (t.bytes ++ l) (t :: ts) where
  bytes := by rw [List.flatMap_cons, h.bytes]
  valid := List.forall_mem_cons.2 ⟨ht, h.valid⟩
  uncut := by
    refine List.isChain_cons.2 ⟨fun s hs => ?_, h.uncut⟩
    rwa [Option.mem_def.1 hs] at huncut

theorem reads_tokens (l : List UInt8) : Reads l (tokens l) := by
  fun_induction tokens l with
  | case1 => exact ⟨rfl, by simp, .nil⟩
  | case2 b bs hb ih =>
    have hdigits : ∀ d ∈ b :: bs.takeWhile isDigit, isDigit d = true :=
      List.forall_mem_cons.2 ⟨hb, List.all_eq_true.1 List.all_takeWhile⟩
    have hreads := ih.cons (t := .number (b :: bs.takeWhile isDigit)) ⟨by simp, hdigits⟩
      (by rw [head?_tokens, any_head?_dropWhile, Bool.and_false])
    rwa [Token.bytes, List.cons_append, List.takeWhile_append_dropWhile] at hreads
  | case3 b bs hb ih => exact ih.cons (t := .byte b) (eq_false_of_ne_true hb) rfl

theorem takeWhile_of_head? {p : UInt8 → Bool} {l : List UInt8} (h : l.head?.any p = false) :
    l.takeWhile p = [] ∧ l.dropWhile p = l := by
  cases l with
  | nil => exact ⟨rfl, rfl⟩
  | cons b bs =>
    change p b = false at h
    simp [h]

/-- What stands behind a run of digits begins with no digit. -/
theorem any_head?_flatMap {ts : List Token} (hvalid : ∀ t ∈ ts, t.Valid)
    (h : ts.head?.any Token.isNumber = false) :
    (ts.flatMap Token.bytes).head?.any isDigit = false := by
  match ts with
  | [] => rfl
  | .byte b :: ts => exact hvalid (.byte b) List.mem_cons_self
  | .number _ :: _ => cases h

theorem eq_tokens_of_reads : ∀ {ts : List Token} {l : List UInt8}, Reads l ts → ts = tokens l
  | [], l, h => by
    rw [← h.bytes, List.flatMap_nil, tokens]
  | t :: ts, l, h => by
    obtain ⟨hbytes, hvalid, huncut⟩ := h
    obtain ⟨ht, hts⟩ := List.forall_mem_cons.1 hvalid
    obtain ⟨hnext, huncut⟩ := List.isChain_cons.1 huncut
    have ih : ts = tokens (ts.flatMap Token.bytes) := eq_tokens_of_reads ⟨rfl, hts, huncut⟩
    rw [← hbytes, List.flatMap_cons]
    cases t with
    | byte b => exact (tokens_byte ht _).trans (congrArg _ ih.symm) |>.symm
    | number digits =>
      obtain ⟨hne, hds⟩ := ht
      obtain ⟨d, ds, rfl⟩ := List.exists_cons_of_ne_nil hne
      obtain ⟨hd, hds⟩ := List.forall_mem_cons.1 hds
      have hhead : ts.head?.any Token.isNumber = false := by
        cases hs : ts.head? with
        | none => rfl
        | some s => exact hnext s hs
      obtain ⟨htake, hdrop⟩ := takeWhile_of_head? (any_head?_flatMap hts hhead)
      rw [Token.bytes, List.cons_append, tokens_digit hd, List.takeWhile_append_of_pos hds, htake,
        List.append_nil, List.dropWhile_append_of_pos hds, hdrop, ← ih]

/-- **A byte string has one reading.** -/
theorem reads_iff {l : List UInt8} {ts : List Token} : Reads l ts ↔ ts = tokens l :=
  ⟨eq_tokens_of_reads, fun h => h ▸ reads_tokens l⟩

/-! ### The order of readings -/

theorem compareLex_congr {f g : Token → Token → Ordering} : ∀ {ss ts : List Token},
    (∀ s ∈ ss, ∀ t ∈ ts, f s t = g s t) → List.compareLex f ss ts = List.compareLex g ss ts
  | [], [], _ => rfl
  | [], _ :: _, _ => rfl
  | _ :: _, [], _ => rfl
  | s :: ss, t :: ts, h => by
    rw [List.compareLex_cons_cons, List.compareLex_cons_cons,
      h s List.mem_cons_self t List.mem_cons_self,
      compareLex_congr fun s hs t ht =>
        h s (List.mem_cons_of_mem _ hs) t (List.mem_cons_of_mem _ ht)]

theorem compareLex_eq_eq_iff {f : Token → Token → Ordering} {R : Token → Token → Prop} :
    ∀ {ss ts : List Token}, (∀ s ∈ ss, ∀ t ∈ ts, f s t = .eq ↔ R s t) →
      (List.compareLex f ss ts = .eq ↔ List.Forall₂ R ss ts)
  | [], [], _ => iff_of_true rfl .nil
  | [], _ :: _, _ => iff_of_false nofun nofun
  | _ :: _, [], _ => iff_of_false nofun nofun
  | s :: ss, t :: ts, h => by
    rw [List.compareLex_cons_cons, Ordering.then_eq_eq, List.forall₂_cons,
      h s List.mem_cons_self t List.mem_cons_self,
      compareLex_eq_eq_iff fun s hs t ht =>
        h s (List.mem_cons_of_mem _ hs) t (List.mem_cons_of_mem _ ht)]

instance : Std.TransCmp cmp where
  eq_swap {a b} := by
    rw [cmp_eq_compareLex, cmp_eq_compareLex]
    exact Std.OrientedCmp.eq_swap
  isLE_trans := le_trans

/-- **The natural order.** Any two texts can be compared, and comparisons can be chained. It is the
lexicographic order of their tokens, which are the maximal runs of digits, compared by value, and
the bytes between them; where a run meets a byte its first digit counts. Two texts are equal in it
iff their tokens are the same but for leading zeros. -/
theorem cmp_preorder_of_tokens :
    (∀ a, cmp a a = .eq) ∧
    (∀ a b, cmp b a = (cmp a b).swap) ∧
    (∀ a b c, (cmp a b).isLE = true → (cmp b c).isLE = true → (cmp a c).isLE = true) ∧
    (∀ l ts, Reads l ts ↔ ts = tokens l) ∧
    (∀ a b, cmp a b = List.compareLex Token.order (tokens (bytes a)) (tokens (bytes b))) ∧
    ∀ a b, cmp a b = .eq ↔
      List.Forall₂ Token.SameButZeros (tokens (bytes a)) (tokens (bytes b)) := by
  have hvalid (a : String) := (reads_tokens (bytes a)).valid
  refine ⟨fun a => Std.ReflCmp.compare_self, fun a b => Std.OrientedCmp.eq_swap,
    fun a b c => Std.TransCmp.isLE_trans, fun l ts => reads_iff, fun a b => ?_, fun a b => ?_⟩
  · rw [cmp_eq_compareLex]
    exact compareLex_congr fun s hs t ht => Token.cmp_eq_order (hvalid a s hs) (hvalid b t ht)
  · rw [cmp_eq_compareLex]
    exact compareLex_eq_eq_iff fun s hs t ht =>
      Token.cmp_eq_eq_iff (hvalid a s hs) (hvalid b t ht)

example : cmp "p007" "p7" = .eq := by cbv

end LazyClasses.NaturalOrder

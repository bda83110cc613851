import LazyClasses.ClassScope
/-! # Default value expressions

A default value is reported as it was written, so the names in it are relative to the class that
declared it. `requalify` makes it mean the same elsewhere.

An expression is a list of pieces: string literals, names, and single characters of other code.

* `literalEnd`: a literal ends at the first quote of its own kind that no `\` escapes; a quote
  that no other one closes is a plain character.
* `nameToken`: a name is a run of letters, digits and `_`, not beginning with a digit, and then
  any number of such runs after a `\` each.
* `scan`: the pieces from left to right. A name stands only where code begins, or after `[`, `(`
  or a space. One before `: ` labels an argument and refers to nothing.
* `qualify`: what a name is replaced by. -/

namespace LazyClasses

namespace DefaultExpr

/-- A part of an expression. -/
inductive Piece where
  /-- A string literal, with its quotes. -/
  | literal (text : List Char)
  /-- A name that refers to a class, a constant or a function, or is a keyword. -/
  | name (token : List Char)
  /-- The name of an argument before `: `. -/
  | label (token : List Char)
  /-- A character of other code. -/
  | code (c : Char)
deriving DecidableEq, Repr

/-! ### Tokens -/

/-- A quote that opens a string literal. -/
def isQuote (c : Char) : Bool := c == '"' || c == '\''

/-- Splits the text after an opening quote behind the closing one; a `\` escapes what follows. -/
def literalEnd (quote : Char) : List Char → Option (List Char × List Char)
  | [] => none
  | '\\' :: [] => none
  | '\\' :: c :: rest => (literalEnd quote rest).map fun p => ('\\' :: c :: p.1, p.2)
  | c :: rest =>
    if c = quote then some ([c], rest) else (literalEnd quote rest).map fun p => (c :: p.1, p.2)

/-- A character that a name may begin with: an ASCII letter, `_`, or one of U+007F to U+00FF. -/
def isNameStart (c : Char) : Bool := c.isAlpha || c == '_' || (0x7F ≤ c.toNat && c.toNat ≤ 0xFF)

/-- A character that a name may go on with. -/
def isNameChar (c : Char) : Bool := isNameStart c || c.isDigit

/-- The name characters at the front, and the rest. -/
def nameRun : List Char → List Char × List Char
  | [] => ([], [])
  | c :: rest =>
    if isNameChar c then ((c :: (nameRun rest).1), (nameRun rest).2) else ([], c :: rest)

theorem nameRun_append (l : List Char) : (nameRun l).1 ++ (nameRun l).2 = l := by
  induction l with
  | nil => rfl
  | cons c rest ih =>
    by_cases h : isNameChar c = true
    · simp [nameRun, h, ih]
    · simp [nameRun, h]

theorem length_nameRun_le (l : List Char) : (nameRun l).2.length ≤ l.length := by
  conv => rhs; rw [← nameRun_append l]
  simp

/-- The runs of name characters at the front that follow a `\` each, and the rest. -/
def qualifiers : List Char → List Char × List Char
  | '\\' :: c :: rest =>
    if isNameChar c then
      let run := nameRun rest
      let more := qualifiers run.2
      ('\\' :: c :: run.1 ++ more.1, more.2)
    else ([], '\\' :: c :: rest)
  | l => ([], l)
termination_by l => l.length
decreasing_by
  have := length_nameRun_le rest
  simp only [List.length_cons]; omega

/-- The name at the front, if there is one, and the rest. -/
def nameToken : List Char → Option (List Char × List Char)
  | [] => none
  | c :: rest =>
    if isNameStart c then
      let run := nameRun rest
      let more := qualifiers run.2
      some (c :: run.1 ++ more.1, more.2)
    else none

theorem literalEnd_append {quote : Char} {l : List Char} {p : List Char × List Char}
    (h : literalEnd quote l = some p) : p.1 ++ p.2 = l := by
  fun_induction literalEnd quote l generalizing p with
  | case1 => simp at h
  | case2 => simp at h
  | case3 c rest ih =>
    obtain ⟨q, hq, rfl⟩ := Option.map_eq_some_iff.1 h
    simp [ih hq]
  | case4 => cases h; rfl
  | case5 c rest _ _ _ ih =>
    obtain ⟨q, hq, rfl⟩ := Option.map_eq_some_iff.1 h
    simp [ih hq]

theorem qualifiers_append (l : List Char) : (qualifiers l).1 ++ (qualifiers l).2 = l := by
  fun_induction qualifiers l with
  | case1 c rest _ run more ih =>
    have := nameRun_append rest
    simp only [List.cons_append, List.append_assoc, more, ih, run, this]
  | case2 => rfl
  | case3 => rfl

theorem nameToken_append {l : List Char} {p : List Char × List Char} (h : nameToken l = some p) :
    p.1 ++ p.2 = l := by
  unfold nameToken at h
  split at h
  · simp at h
  · rename_i c rest
    split at h
    · cases h
      simp [qualifiers_append, nameRun_append]
    · simp at h

theorem length_pos_of_nameToken {l : List Char} {p : List Char × List Char}
    (h : nameToken l = some p) : 0 < p.1.length := by
  unfold nameToken at h
  split at h
  · simp at h
  · split at h
    · cases h; simp
    · simp at h

/-! ### Pieces -/

/-- Whether a name may follow the character. -/
def opensName (c : Char) : Bool := c == '[' || c == '(' || c == ' '

/-- Whether the text goes on as it does behind the name of an argument. -/
def followsLabel : List Char → Bool
  | ':' :: ' ' :: _ => true
  | _ => false

/-- The piece at the front of a text that is not empty, and the rest; `free` says that a name may
stand here. -/
def nextPiece (free : Bool) (c : Char) (rest : List Char) : Piece × List Char :=
  match if isQuote c then literalEnd c rest else none with
  | some (body, after) => (.literal (c :: body), after)
  | none =>
    match if free then nameToken (c :: rest) else none with
    | some (token, after) => (if followsLabel after then .label token else .name token, after)
    | none => (.code c, rest)

theorem length_nextPiece_le (free : Bool) (c : Char) (rest : List Char) :
    (nextPiece free c rest).2.length ≤ rest.length := by
  unfold nextPiece
  split
  · rename_i body after h
    split at h
    · have := congrArg List.length (literalEnd_append h)
      simp only [List.length_append] at this
      simp only
      omega
    · simp at h
  · split
    · rename_i token after h
      split at h
      · have h1 := congrArg List.length (nameToken_append h)
        have h2 := length_pos_of_nameToken h
        simp only [List.length_append, List.length_cons] at h1 h2
        simp only
        omega
      · simp at h
    · exact Nat.le_refl _

/-- Whether a name may stand behind the piece: behind a literal code begins afresh. -/
def Piece.frees : Piece → Bool
  | .literal _ => true
  | .name _ => false
  | .label _ => false
  | .code c => opensName c

/-- The pieces of the text from left to right. -/
def scan (free : Bool) : List Char → List Piece
  | [] => []
  | c :: rest =>
    let next := nextPiece free c rest
    next.1 :: scan next.1.frees next.2
termination_by l => l.length
decreasing_by
  have := length_nextPiece_le free c rest
  simp only [List.length_cons]; omega

theorem scan_cons (free : Bool) (c : Char) (rest : List Char) : scan free (c :: rest) =
    (nextPiece free c rest).1 ::
      scan (nextPiece free c rest).1.frees (nextPiece free c rest).2 := by
  rw [scan]

/-- A closed literal is a piece, and code begins afresh behind it. -/
theorem scan_literal {free : Bool} {c : Char} {rest body after : List Char} (hc : isQuote c = true)
    (h : literalEnd c rest = some (body, after)) :
    scan free (c :: rest) = .literal (c :: body) :: scan true after := by
  have hnext : nextPiece free c rest = (.literal (c :: body), after) := by
    rw [nextPiece, if_pos hc, h]
  rw [scan_cons, hnext]
  rfl

/-- Where no name may stand and no literal is closed, a character is other code. -/
theorem scan_code {free : Bool} {c : Char} {rest : List Char}
    (hliteral : (if isQuote c then literalEnd c rest else none) = none)
    (hname : (if free then nameToken (c :: rest) else none) = none) :
    scan free (c :: rest) = .code c :: scan (opensName c) rest := by
  have hnext : nextPiece free c rest = (.code c, rest) := by
    rw [nextPiece, hliteral, hname]
  rw [scan_cons, hnext]
  rfl

/-- A name is a piece, and no name may stand right behind it. -/
theorem scan_name {c : Char} {rest token after : List Char}
    (hliteral : (if isQuote c then literalEnd c rest else none) = none)
    (hname : nameToken (c :: rest) = some (token, after)) : scan true (c :: rest) =
      (if followsLabel after then .label token else .name token) :: scan false after := by
  have hnext : nextPiece true c rest =
      (if followsLabel after then .label token else .name token, after) := by
    rw [nextPiece, hliteral, if_pos rfl, hname]
  rw [scan_cons, hnext]
  split <;> rfl

/-- The pieces of an expression. -/
def pieces (expr : String) : List Piece := scan true expr.toList

/-! ### Requalifying -/

/-- The literal with each NUL in single quotes cut out and joined back as `"\0"`. Double-quoted text
is resolved already and stays. -/
def spliceNul (text : List Char) : List Char :=
  if text.head? = some '"' then text
  else text.flatMap fun c => if c = '\x00' then "'.\"\\0\".'".toList else [c]

/-- The name with the `\` that makes it absolute. -/
def qualified (token : String) : String := "\\" ++ token

/-- What a name is replaced by. Keywords are recognised in lower case alone, and `NULL` besides;
`self` and `parent` stay where nothing says what they stand for. -/
def qualify (scope : Option ClassScope) (token : String) : String :=
  if token = "new" ∨ token = "false" ∨ token = "true" ∨ token = "null" then token
  else if token = "NULL" then "null"
  else
    match scope with
    | some scope =>
      if token = "self" then (scope.self.map qualified).getD token
      else if token = "parent" ∨ token = "namespace\\parent" then
        (scope.parent.map qualified).getD "parent"
      else qualified token
    | none => if token = "self" ∨ token = "parent" then token else qualified token

/-- What a piece is replaced by. -/
def Piece.requalified (scope : Option ClassScope) : Piece → List Char
  | .literal text => spliceNul text
  | .name token => (qualify scope (String.ofList token)).toList
  | .label token => token
  | .code c => [c]

/-- **The expression as it reads outside the scope** that declared it: a class scope for a
method, none for a function. -/
def requalify (scope : Option ClassScope) (expr : String) : String :=
  String.ofList ((pieces expr).flatMap (Piece.requalified scope))

/-- Whether the piece is the keyword `parent` in a class scope that has none. -/
def Piece.lacksParent (scope : Option ClassScope) : Piece → Bool
  | .name token =>
    (String.ofList token = "parent" || String.ofList token = "namespace\\parent") &&
      scope.any (·.parent.isNone)
  | _ => false

/-- How often requalifying the expression meets `parent` in a class scope that has none. -/
def countLackingParent (scope : Option ClassScope) (expr : String) : Nat :=
  (pieces expr).countP (Piece.lacksParent scope)

end DefaultExpr

end LazyClasses

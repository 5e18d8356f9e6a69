import Statechart.Proofs.Expr.Words

/- Expressions read back from their texts.

   The text of an operand is read by the tightest reader, whatever stands apart after it. The text
   of any expression is read by the reader of negations, if no sign that would make it an operand
   comes next. Both are proved together, by induction on the expression, each reader being followed
   over the text as far as it goes. -/
namespace Statechart.Expr

/-- Words that are no paths when they stand alone. -/
def reservedWords : List String := ["true", "false", "null", "undefined", "In"]

/-- Constants that have a notation of their own. -/
inductive Constant : Tree → Prop
  | undefined : Constant .undefined
  | null : Constant .null
  | bool (b : Bool) : Constant (.bool b)
  | integer (n : Int) (small : n.natAbs < 9000000000000000) :
    Constant (.number (Json.Number.int n).toFloat)
  | string (s : String) (plain : s.toList.all isTextChar = true) : Constant (.string s)

/-- Segments that are no reserved word. -/
structure IsName (segments : List String) : Prop extends IsDotted segments where
  unreserved : ∀ word ∈ reservedWords, segments ≠ [word]

/-- Neither a negation nor a comparison. -/
def IsOperand : Expr → Prop
  | .not _ => False
  | .compare _ _ _ => False
  | _ => True

/-- Expressions whose texts say all about them. Negations and comparisons are written without
    parentheses, so they are no operands of comparisons, sums and differences. -/
inductive Printable : Expr → Prop
  | literal {t : Tree} (constant : Constant t) : Printable (.literal t)
  | path {segments : List String} (name : IsName segments) : Printable (.path segments)
  | inState {id : String} (plain : id.toList.all isIdChar = true) : Printable (.inState id)
  | not {e : Expr} (inner : Printable e) : Printable (.not e)
  | and {l r : Expr} (left : Printable l) (right : Printable r) : Printable (.and l r)
  | or {l r : Expr} (left : Printable l) (right : Printable r) : Printable (.or l r)
  | compare (op : CompareOp) {l r : Expr} (left : Printable l) (right : Printable r)
    (tightLeft : l.IsOperand) (tightRight : r.IsOperand) : Printable (.compare op l r)
  | arith (op : ArithOp) {l r : Expr} (left : Printable l) (right : Printable r)
    (tightLeft : l.IsOperand) (tightRight : r.IsOperand) : Printable (.arith op l r)

section Texts

theorem toList_compare (op : CompareOp) (l r : Expr) : (compare op l r).text.toList =
    l.text.toList ++ ' ' :: (op.symbol.toList ++ ' ' :: r.text.toList) := by
  change (l.text ++ " " ++ op.symbol ++ " " ++ r.text).toList = _
  simp

theorem toList_arith (op : ArithOp) (l r : Expr) : (arith op l r).text.toList =
    '(' :: (l.text.toList ++ ' ' :: (op.symbol.toList ++ ' ' :: (r.text.toList ++ [')']))) := by
  change ("(" ++ l.text ++ " " ++ op.symbol ++ " " ++ r.text ++ ")").toList = _
  simp

theorem toList_and (l r : Expr) : (and l r).text.toList =
    '(' :: (l.text.toList ++ ' ' :: '&' :: '&' :: ' ' :: (r.text.toList ++ [')'])) := by
  change ("(" ++ l.text ++ " && " ++ r.text ++ ")").toList = _
  simp

theorem toList_or (l r : Expr) : (or l r).text.toList =
    '(' :: (l.text.toList ++ ' ' :: '|' :: '|' :: ' ' :: (r.text.toList ++ [')'])) := by
  change ("(" ++ l.text ++ " || " ++ r.text ++ ")").toList = _
  simp

theorem toList_inState (id : String) : (inState id).text.toList =
    'I' :: 'n' :: '(' :: '\'' :: (id.toList ++ ['\'', ')']) := by
  change ("In('" ++ id ++ "')").toList = _
  simp

theorem toList_not (e : Expr) : (not e).text.toList = '!' :: e.text.toList := by
  change ("!" ++ e.text).toList = _
  simp

theorem text_integer {n : Int} (small : n.natAbs < 9000000000000000) :
    (literal (.number (Json.Number.int n).toFloat)).text = toString n :=
  Decimal.displayText_int small

theorem toList_string (s : String) : (literal (.string s)).text.toList =
    '"' :: (s.toList.flatMap (fun c => (Text.escapeChar c).toList) ++ ['"']) := by
  change (Text.quoted s).toList = _
  simp [Text.quoted, String.toList_join, List.flatMap_map]

end Texts

section Readers

variable {input cs : List Char} {left : Expr} {fuel : Nat}

theorem readOr_succ : readOr input (fuel + 1) cs = (do
    let (left, rest) ← readAnd input fuel cs
    readOrTail input fuel left rest) := rfl

theorem readOrTail_succ : readOrTail input (fuel + 1) left cs =
    match skipBlanks cs with
    | '|' :: '|' :: rest => do
      let (right, rest) ← readAnd input fuel rest
      readOrTail input fuel (.or left right) rest
    | rest => .ok (left, rest) := rfl

theorem readAnd_succ : readAnd input (fuel + 1) cs = (do
    let (left, rest) ← readUnary input fuel cs
    readAndTail input fuel left rest) := rfl

theorem readAndTail_succ : readAndTail input (fuel + 1) left cs =
    match skipBlanks cs with
    | '&' :: '&' :: rest => do
      let (right, rest) ← readUnary input fuel rest
      readAndTail input fuel (.and left right) rest
    | rest => .ok (left, rest) := rfl

theorem readUnary_succ : readUnary input (fuel + 1) cs =
    match skipBlanks cs with
    | '!' :: '=' :: rest => readComparison input fuel ('!' :: '=' :: rest)
    | '!' :: rest => do
      let (e, rest) ← readUnary input fuel rest
      return (.not e, rest)
    | rest => readComparison input fuel rest := rfl

theorem readComparison_succ : readComparison input (fuel + 1) cs = (do
    let (left, rest) ← readSum input fuel cs
    match readCompareOp (skipBlanks rest) with
    | some (op, rest) =>
      let (right, rest) ← readSum input fuel rest
      return (.compare op left right, rest)
    | none => return (left, skipBlanks rest)) := rfl

theorem readSum_succ : readSum input (fuel + 1) cs = (do
    let (left, rest) ← readPrimary input fuel cs
    readSumTail input fuel left rest) := rfl

theorem readSumTail_succ : readSumTail input (fuel + 1) left cs =
    match readArithOp (skipBlanks cs) with
    | some (op, rest) => do
      let (right, rest) ← readPrimary input fuel rest
      readSumTail input fuel (.arith op left right) rest
    | none => .ok (left, skipBlanks cs) := rfl

theorem readPrimary_succ : readPrimary input (fuel + 1) cs =
    match skipBlanks cs with
    | [] => .error .unexpectedEnd
    | '(' :: rest => do
      let (e, rest) ← readOr input fuel rest
      match skipBlanks rest with
      | ')' :: rest => return (e, rest)
      | _ => .error .expectedClose
    | c :: rest =>
      if isQuote c then do
        let (s, rest) ← readString (c :: rest)
        return (.literal (.string s), rest)
      else if Decimal.isDigit c || c == '-' then do
        let (f, rest) ← readNumber (c :: rest)
        return (.literal (.number f), rest)
      else (do
        let (segments, rest) ← readPath input (rest.length + 1) (c :: rest)
        readWord segments rest) := rfl

end Readers

section Atoms

variable {input rest cs : List Char} {c : Char} {fuel : Nat} {segments : List String} {t : Tree}

theorem isDotted_reserved {word : String} (reserved : word ∈ reservedWords) : IsDotted [word] where
  named := List.cons_ne_nil _ _
  filled := by
    revert word
    decide
  chars := by
    revert word
    decide
  start := by
    revert word
    decide

/-- A constant is written as a reserved word, as an integer or between quotes. -/
theorem Constant.forms (constant : Constant t) :
    (∃ word ∈ reservedWords, (literal t).text = String.intercalate "." [word] ∧
      ∀ rest, readWord [word] rest = .ok (literal t, rest)) ∨
    (∃ n : Int, n.natAbs < 9000000000000000 ∧ t = .number (Json.Number.int n).toFloat) ∨
    ∃ s : String, s.toList.all isTextChar = true ∧ t = .string s := by
  cases constant with
  | undefined => exact Or.inl ⟨"undefined", by decide, rfl, fun _ => rfl⟩
  | null => exact Or.inl ⟨"null", by decide, rfl, fun _ => rfl⟩
  | bool b =>
    cases b with
    | true => exact Or.inl ⟨"true", by decide, rfl, fun _ => rfl⟩
    | false => exact Or.inl ⟨"false", by decide, rfl, fun _ => rfl⟩
  | integer n small => exact Or.inr (Or.inl ⟨n, small, rfl⟩)
  | string s plain => exact Or.inr (Or.inr ⟨s, plain, rfl⟩)

/-- What is no parenthesis is a quoted text, a number or a word, as its first character says. -/
theorem readPrimary_atom (unblank : Text.isBlank c = false) (unopened : c ≠ '(') :
    readPrimary input (fuel + 1) (c :: cs) =
      if isQuote c then
        readString (c :: cs) >>= fun (s, rest) => .ok (.literal (.string s), rest)
      else if Decimal.isDigit c || c == '-' then
        readNumber (c :: cs) >>= fun (f, rest) => .ok (.literal (.number f), rest)
      else
        readPath input (cs.length + 1) (c :: cs) >>= fun (segments, rest) =>
          readWord segments rest := by
  rw [readPrimary_succ, skipBlanks_cons unblank]
  split
  · rename_i empty
    cases empty
  · rename_i opened
    cases opened
    exact absurd rfl unopened
  · rename_i same
    cases same
    rfl

theorem readPrimary_dotted (dotted : IsDotted segments) (parted : Parted rest) :
    readPrimary input (fuel + 1) ((String.intercalate "." segments).toList ++ rest) =
      readWord segments rest := by
  obtain ⟨c,cs,text,name,undigit⟩ := dotted.text_cons
  have enough : (String.intercalate "." segments).toList.length ≤ (cs ++ rest).length + 1 := by
    rw [text, List.length_cons, List.length_append]
    omega
  have path := readPath_text input dotted.named
    (fun s hs => ⟨dotted.filled s hs, fun c hc => isWordChar_of_name (dotted.name hs hc)⟩)
    parted enough
  have unsigned : (c == '-') = false := by
    rw [beq_eq_false_iff_ne]
    rintro rfl
    cases name
  rw [text, List.cons_append] at path ⊢
  rw [readPrimary_atom (isBlank_of_name name) (by rintro rfl; cases name)]
  simp only [isQuote_of_name name, undigit, unsigned, path, Bool.or_self, Bool.false_eq_true,
    if_false]
  rfl

theorem readPrimary_integer {n : Int} (small : n.natAbs < 9000000000000000)
    (parted : Parted rest) : readPrimary input (fuel + 1) ((toString n).toList ++ rest) =
      .ok (literal (.number (Json.Number.int n).toFloat), rest) := by
  obtain ⟨c,cs,text,start⟩ := integer_text n
  have number := readNumber_text small parted
  rw [text, List.cons_append] at number ⊢
  rcases start with rfl | digit
  · rw [readPrimary_atom (by decide) (by decide), if_neg (by decide), if_pos (by decide), number]
    rfl
  · have name := isNameChar_of_digit digit
    rw [readPrimary_atom (isBlank_of_name name) (by rintro rfl; cases name),
      if_neg (by rw [isQuote_of_name name]; decide), if_pos (by rw [digit]; rfl), number]
    rfl

theorem readPrimary_string {s : String} (plain : s.toList.all isTextChar = true) :
    readPrimary input (fuel + 1) ((literal (.string s)).text.toList ++ rest) =
      .ok (literal (.string s), rest) := by
  have spelled := fun c hc => spells_escaped (List.all_eq_true.mp plain c hc)
  have quoted := readQuoted_text spelled [] rest
  rw [toList_string, List.cons_append, List.append_assoc, List.singleton_append,
    readPrimary_atom (by decide) (by decide), if_pos (by decide), readString, if_pos (by decide),
    quoted, List.reverse_nil, List.nil_append, String.ofList_toList]
  rfl

theorem readPrimary_constant (constant : Constant t) (parted : Parted rest) :
    readPrimary input (fuel + 1) ((literal t).text.toList ++ rest) = .ok (literal t, rest) := by
  obtain ⟨word,reserved,text,read⟩ | ⟨n,small,rfl⟩ | ⟨s,plain,rfl⟩ := constant.forms
  · rw [text, readPrimary_dotted (isDotted_reserved reserved) parted, read]
  · rw [text_integer small]
    exact readPrimary_integer small parted
  · exact readPrimary_string plain

theorem readPrimary_path (name : IsName segments) (parted : Parted rest) :
    readPrimary input (fuel + 1) ((path segments).text.toList ++ rest) =
      .ok (path segments, rest) := by
  have unreserved := name.unreserved
  change readPrimary input (fuel + 1) ((String.intercalate "." segments).toList ++ rest) = _
  rw [readPrimary_dotted name.toIsDotted parted]
  unfold readWord
  split
  · exact absurd rfl (unreserved "true" (by decide))
  · exact absurd rfl (unreserved "false" (by decide))
  · exact absurd rfl (unreserved "null" (by decide))
  · exact absurd rfl (unreserved "undefined" (by decide))
  · exact absurd rfl (unreserved "In" (by decide))
  · rfl

theorem readPrimary_inState {id : String} (plain : id.toList.all isIdChar = true) :
    readPrimary input (fuel + 1) ((inState id).text.toList ++ rest) = .ok (inState id, rest) := by
  have text : (inState id).text.toList ++ rest = (String.intercalate "." ["In"]).toList ++
      '(' :: '\'' :: (id.toList.flatMap (fun c => [c]) ++ '\'' :: ')' :: rest) := by
    simp [toList_inState]
  have spelled := fun c hc => spells_id (List.all_eq_true.mp plain c hc)
  have quoted := readQuoted_text spelled [] (')' :: rest)
  rw [text, readPrimary_dotted (isDotted_reserved (by decide)) (by rintro c ⟨⟩; decide)]
  rw [readWord, readInCall, skipBlanks_cons (by decide)]
  simp only
  rw [skipBlanks_cons (by decide), readString, if_pos (by decide), quoted, List.reverse_nil,
    List.nil_append, String.ofList_toList]
  rfl

end Atoms

section Signs

variable {input rest cs : List Char} {fuel : Nat}

/-- Where a comparison and everything tighter ends. -/
structure Closed (rest : List Char) : Prop where
  parted : Parted rest
  unsummed : readArithOp (skipBlanks rest) = none
  uncompared : readCompareOp (skipBlanks rest) = none

theorem closed_nil : Closed [] where
  parted := by rintro c ⟨⟩
  unsummed := rfl
  uncompared := rfl

theorem closed_paren (more : List Char) : Closed (')' :: more) where
  parted := by
    rintro c ⟨⟩
    decide
  unsummed := rfl
  uncompared := rfl

theorem closed_and (more : List Char) : Closed (' ' :: '&' :: more) where
  parted := parted_blank _
  unsummed := rfl
  uncompared := rfl

theorem closed_or (more : List Char) : Closed (' ' :: '|' :: more) where
  parted := parted_blank _
  unsummed := rfl
  uncompared := rfl

theorem readCompareOp_symbol (op : CompareOp) (more : List Char) :
    readArithOp (skipBlanks (' ' :: (op.symbol.toList ++ ' ' :: more))) = none ∧
      readCompareOp (skipBlanks (' ' :: (op.symbol.toList ++ ' ' :: more))) =
        some (op, ' ' :: more) := by
  cases op
  all_goals exact ⟨rfl, rfl⟩

theorem readArithOp_symbol (op : ArithOp) (more : List Char) :
    readArithOp (skipBlanks (' ' :: (op.symbol.toList ++ ' ' :: more))) = some (op, ' ' :: more) := by
  cases op
  all_goals rfl

@[simp]
theorem readPrimary_blank : readPrimary input fuel (' ' :: cs) = readPrimary input fuel cs := by
  cases fuel with
  | zero => rfl
  | succ fuel => rw [readPrimary_succ, readPrimary_succ, skipBlanks_blank]

@[simp]
theorem readSum_blank : readSum input fuel (' ' :: cs) = readSum input fuel cs := by
  cases fuel with
  | zero => rfl
  | succ fuel => rw [readSum_succ, readSum_succ, readPrimary_blank]

@[simp]
theorem readUnary_blank : readUnary input fuel (' ' :: cs) = readUnary input fuel cs := by
  cases fuel with
  | zero => rfl
  | succ fuel => rw [readUnary_succ, readUnary_succ, skipBlanks_blank]

end Signs

section Steps

variable {input rest cs more last : List Char} {c : Char} {e l r : Expr} {fuel : Nat}

theorem readSum_alone (first : readPrimary input (fuel + 1) cs = .ok (e, rest))
    (unsummed : readArithOp (skipBlanks rest) = none) :
    readSum input (fuel + 2) cs = .ok (e, skipBlanks rest) := by
  simp only [readSum_succ, first, bind, Except.bind, readSumTail_succ, unsummed]

theorem readSum_both {op : ArithOp} (first : readPrimary input (fuel + 2) cs = .ok (l, rest))
    (summed : readArithOp (skipBlanks rest) = some (op, more))
    (second : readPrimary input (fuel + 1) more = .ok (r, last))
    (unsummed : readArithOp (skipBlanks last) = none) :
    readSum input (fuel + 3) cs = .ok (arith op l r, skipBlanks last) := by
  simp only [readSum_succ, first, bind, Except.bind, readSumTail_succ, summed, second, unsummed]

theorem readComparison_alone (first : readSum input fuel cs = .ok (e, rest))
    (uncompared : readCompareOp (skipBlanks rest) = none) :
    readComparison input (fuel + 1) cs = .ok (e, skipBlanks rest) := by
  simp only [readComparison_succ, first, bind, Except.bind, uncompared, pure, Except.pure]

theorem readComparison_both {op : CompareOp} (first : readSum input fuel cs = .ok (l, rest))
    (compared : readCompareOp (skipBlanks rest) = some (op, more))
    (second : readSum input fuel more = .ok (r, last)) :
    readComparison input (fuel + 1) cs = .ok (compare op l r, last) := by
  simp only [readComparison_succ, first, bind, Except.bind, compared, second, pure, Except.pure]

theorem readUnary_comparison (unblank : Text.isBlank c = false) (positive : c ≠ '!') :
    readUnary input (fuel + 1) (c :: cs) = readComparison input fuel (c :: cs) := by
  rw [readUnary_succ, skipBlanks_cons unblank]
  split
  · rename_i same
    cases same
    exact absurd rfl positive
  · rename_i same
    cases same
    exact absurd rfl positive
  · rfl

theorem readUnary_not (unequal : c ≠ '=')
    (inner : readUnary input fuel (c :: cs) = .ok (e, rest)) :
    readUnary input (fuel + 1) ('!' :: c :: cs) = .ok (not e, rest) := by
  rw [readUnary_succ, skipBlanks_cons (by decide)]
  split
  · rename_i same
    cases same
    exact absurd rfl unequal
  · rename_i same
    cases same
    rw [inner]
    rfl
  · rename_i other
    exact absurd rfl (other _)

theorem readAnd_alone (first : readUnary input (fuel + 1) cs = .ok (e, rest))
    (ended : ∀ more, skipBlanks rest ≠ '&' :: '&' :: more) :
    readAnd input (fuel + 2) cs = .ok (e, skipBlanks rest) := by
  simp only [readAnd_succ, first, bind, Except.bind, readAndTail_succ]

theorem readAnd_both (first : readUnary input (fuel + 2) cs = .ok (l, rest))
    (joined : skipBlanks rest = '&' :: '&' :: more)
    (second : readUnary input (fuel + 1) more = .ok (r, last))
    (ended : ∀ more, skipBlanks last ≠ '&' :: '&' :: more) :
    readAnd input (fuel + 3) cs = .ok (and l r, skipBlanks last) := by
  simp only [readAnd_succ, first, bind, Except.bind, readAndTail_succ, joined, second]

theorem readOr_alone (first : readAnd input (fuel + 1) cs = .ok (e, rest))
    (ended : ∀ more, skipBlanks rest ≠ '|' :: '|' :: more) :
    readOr input (fuel + 2) cs = .ok (e, skipBlanks rest) := by
  simp only [readOr_succ, first, bind, Except.bind, readOrTail_succ]

theorem readOr_both (first : readAnd input (fuel + 2) cs = .ok (l, rest))
    (joined : skipBlanks rest = '|' :: '|' :: more)
    (second : readAnd input (fuel + 1) more = .ok (r, last))
    (ended : ∀ more, skipBlanks last ≠ '|' :: '|' :: more) :
    readOr input (fuel + 3) cs = .ok (or l r, skipBlanks last) := by
  simp only [readOr_succ, first, bind, Except.bind, readOrTail_succ, joined, second]

theorem readPrimary_paren (inner : readOr input fuel cs = .ok (e, ')' :: rest)) :
    readPrimary input (fuel + 1) ('(' :: cs) = .ok (e, rest) := by
  rw [readPrimary_succ, skipBlanks_cons (by decide)]
  simp only [inner, bind, Except.bind, skipBlanks_paren, pure, Except.pure]

end Steps

section Edges

variable {e l r : Expr} {c : Char} {cs : List Char} {segments : List String} {t : Tree}

/-- A text begins with no blank and no equals sign, and that of an operand with no `!`. -/
def Opens (e : Expr) : Prop := ∃ c cs, e.text.toList = c :: cs ∧ Text.isBlank c = false ∧
  c ≠ '=' ∧ (e.IsOperand → c ≠ '!')

theorem opens_of_name (text : e.text.toList = c :: cs) (name : isNameChar c = true) : e.Opens :=
  ⟨c, cs, text, isBlank_of_name name, (by rintro rfl; cases name), (by rintro _ rfl; cases name)⟩

theorem opens_of_paren (text : e.text.toList = '(' :: cs) : e.Opens :=
  ⟨'(', cs, text, by decide, by decide, fun _ => by decide⟩

theorem IsDotted.opens (dotted : IsDotted segments)
    (text : e.text = String.intercalate "." segments) : e.Opens := by
  obtain ⟨c,cs,start,name,_⟩ := dotted.text_cons
  exact opens_of_name (by rw [text, start]) name

theorem Constant.opens (constant : Constant t) : (literal t).Opens := by
  obtain ⟨word,reserved,text,_⟩ | ⟨n,small,rfl⟩ | ⟨s,plain,rfl⟩ := constant.forms
  · exact (isDotted_reserved reserved).opens text
  · obtain ⟨c,cs,text,start⟩ := integer_text n
    rw [← text_integer small] at text
    rcases start with rfl | digit
    · exact ⟨'-', cs, text, by decide, by decide, fun _ => by decide⟩
    · exact opens_of_name text (isNameChar_of_digit digit)
  · exact ⟨'"', _, toList_string s, by decide, by decide, fun _ => by decide⟩

theorem Printable.opens (printable : e.Printable) : e.Opens := by
  induction printable with
  | literal constant => exact constant.opens
  | path name => exact name.toIsDotted.opens rfl
  | inState plain => exact opens_of_name (toList_inState _) rfl
  | not inner _ =>
    exact ⟨'!', _, toList_not _, by decide, by decide, fun operand => operand.elim⟩
  | and left right _ _ => exact opens_of_paren (toList_and _ _)
  | or left right _ _ => exact opens_of_paren (toList_or _ _)
  | compare op left right tightLeft tightRight opens _ =>
    obtain ⟨c,cs,start,unblank,unequal,_⟩ := opens
    rw [Opens, toList_compare, start]
    exact ⟨c, _, rfl, unblank, unequal, fun operand => operand.elim⟩
  | arith op left right tightLeft tightRight _ _ => exact opens_of_paren (toList_arith _ _ _)

/-- The last character of a text is no blank. -/
def Closes (e : Expr) : Prop := ∃ c, e.text.toList.getLast? = some c ∧ Text.isBlank c = false

theorem closes_of_solid (some : e.text.toList ≠ [])
    (solid : ∀ c ∈ e.text.toList, Text.isBlank c = false) : e.Closes :=
  ⟨_, List.getLast?_eq_some_getLast some, solid _ (List.getLast_mem some)⟩

theorem closes_of_paren (text : e.text.toList.getLast? = some ')') : e.Closes :=
  ⟨')', text, by decide⟩

theorem IsDotted.closes (dotted : IsDotted segments)
    (text : e.text = String.intercalate "." segments) : e.Closes := by
  refine closes_of_solid ?_ ?_
  · obtain ⟨c,cs,start,_⟩ := dotted.text_cons
    rw [text, start]
    exact List.cons_ne_nil _ _
  · rw [text]
    exact dotted_unblank dotted.chars

theorem Constant.closes (constant : Constant t) : (literal t).Closes := by
  obtain ⟨word,reserved,text,_⟩ | ⟨n,small,rfl⟩ | ⟨s,plain,rfl⟩ := constant.forms
  · exact (isDotted_reserved reserved).closes text
  · refine closes_of_solid ?_ ?_
    · obtain ⟨c,cs,start,_⟩ := integer_text n
      rw [text_integer small, start]
      exact List.cons_ne_nil _ _
    · rw [text_integer small]
      intro c inside
      rcases integer_chars n c inside with rfl | digit
      · decide
      · exact isBlank_of_name (isNameChar_of_digit digit)
  · exact ⟨'"', by simp [toList_string, List.getLast?_cons], by decide⟩

theorem Printable.closes (printable : e.Printable) : e.Closes := by
  induction printable with
  | literal constant => exact constant.closes
  | path name => exact name.toIsDotted.closes rfl
  | inState plain => exact closes_of_paren (by simp [toList_inState, List.getLast?_cons])
  | not inner closes =>
    obtain ⟨c,last,unblank⟩ := closes
    exact ⟨c, by simp [toList_not, List.getLast?_cons, last], unblank⟩
  | and left right _ _ => exact closes_of_paren (by simp [toList_and, List.getLast?_cons])
  | or left right _ _ => exact closes_of_paren (by simp [toList_or, List.getLast?_cons])
  | compare op left right tightLeft tightRight _ closes =>
    obtain ⟨c,last,unblank⟩ := closes
    exact ⟨c, by simp [toList_compare, List.getLast?_cons, last], unblank⟩
  | arith op left right tightLeft tightRight _ _ =>
    exact closes_of_paren (by simp [toList_arith, List.getLast?_cons])

theorem trimChars_eq (opens : e.Opens) (closes : e.Closes) :
    Text.trimChars e.text.toList = e.text.toList := by
  obtain ⟨c,cs,start,unblank,_⟩ := opens
  obtain ⟨d,last,solid⟩ := closes
  obtain ⟨front,ended⟩ := List.getLast?_eq_some_iff.mp last
  have forward : e.text.toList.dropWhile Text.isBlank = e.text.toList := by
    rw [start, List.dropWhile_cons, unblank]
    rfl
  rw [Text.trimChars, forward, Text.dropEndWhile, ended, List.reverse_append,
    List.reverse_singleton, List.singleton_append, List.dropWhile_cons, solid]
  simp

end Edges

section Readings

variable {rest : List Char} {e l r : Expr} {fuel : Nat}

/-- The text is read as an operand, whatever stands apart after it. The eight readers between two
    parentheses are the reason for the factor. -/
def Tight (e : Expr) : Prop := ∀ input rest fuel, 8 * e.text.toList.length < fuel →
  Parted rest → readPrimary input fuel (e.text.toList ++ rest) = .ok (e, rest)

/-- The text is read as a negation, a comparison or an operand, if nothing of this kind goes on
    after it. -/
def Loose (e : Expr) : Prop := ∀ input rest fuel, 8 * e.text.toList.length + 4 < fuel →
  Closed rest → readUnary input fuel (e.text.toList ++ rest) = .ok (e, skipBlanks rest)

theorem Tight.readSum (tight : e.Tight) (input : List Char) (fuel : Nat)
    (enough : 8 * e.text.toList.length + 2 < fuel) (parted : Parted rest)
    (unsummed : readArithOp (skipBlanks rest) = none) :
    readSum input fuel (e.text.toList ++ rest) = .ok (e, skipBlanks rest) := by
  obtain ⟨fuel,rfl⟩ : ∃ k, fuel = k + 2 := ⟨fuel - 2, by omega⟩
  exact readSum_alone (tight _ _ _ (by omega) parted) unsummed

theorem Tight.readComparison (tight : e.Tight) (input : List Char) (fuel : Nat)
    (enough : 8 * e.text.toList.length + 3 < fuel) (closed : Closed rest) :
    readComparison input fuel (e.text.toList ++ rest) = .ok (e, skipBlanks rest) := by
  obtain ⟨fuel,rfl⟩ := Nat.exists_eq_add_one.mpr (show 0 < fuel by omega)
  have sum := tight.readSum input fuel (by omega) closed.parted closed.unsummed
  rw [readComparison_alone sum (by rw [skipBlanks_skipBlanks]; exact closed.uncompared),
    skipBlanks_skipBlanks]

theorem Tight.loose (tight : e.Tight) (opens : e.Opens) (operand : e.IsOperand) : e.Loose := by
  intro input rest fuel enough closed
  obtain ⟨c,cs,start,unblank,_,positive⟩ := opens
  obtain ⟨fuel,rfl⟩ := Nat.exists_eq_add_one.mpr (show 0 < fuel by omega)
  have comparison := tight.readComparison input fuel (by omega) closed
  rw [start, List.cons_append] at comparison ⊢
  rw [readUnary_comparison unblank (positive operand), comparison]

theorem Tight.compare (op : CompareOp) (left : l.Tight) (right : r.Tight)
    (opens : l.Opens) (operand : l.IsOperand) : (compare op l r).Loose := by
  intro input rest fuel enough closed
  obtain ⟨c,cs,start,unblank,_,positive⟩ := opens
  rw [toList_compare] at enough ⊢
  simp only [List.length_append, List.length_cons] at enough
  simp only [List.append_assoc, List.cons_append]
  obtain ⟨fuel,rfl⟩ : ∃ k, fuel = k + 2 := ⟨fuel - 2, by omega⟩
  obtain ⟨unsummed,compared⟩ := readCompareOp_symbol op (r.text.toList ++ rest)
  have first := left.readSum input fuel (by omega) (parted_blank _) unsummed
  have second := right.readSum input fuel (by omega) closed.parted closed.unsummed
  have both := readComparison_both first (by rwa [skipBlanks_skipBlanks]) (by rwa [readSum_blank])
  rw [start, List.cons_append] at both ⊢
  rw [readUnary_comparison unblank (positive operand), both]

theorem Loose.not (inner : e.Loose) (opens : e.Opens) : (not e).Loose := by
  intro input rest fuel enough closed
  obtain ⟨c,cs,start,_,unequal,_⟩ := opens
  rw [toList_not, List.length_cons] at enough
  obtain ⟨fuel,rfl⟩ := Nat.exists_eq_add_one.mpr (show 0 < fuel by omega)
  have unary := inner input rest fuel (by omega) closed
  rw [start, List.cons_append] at unary
  rw [toList_not, start, List.cons_append, List.cons_append]
  exact readUnary_not unequal unary

theorem Loose.and (left : l.Loose) (right : r.Loose) : (and l r).Tight := by
  intro input rest fuel enough _
  rw [toList_and] at enough ⊢
  simp only [List.length_append, List.length_cons, List.length_nil] at enough
  simp only [List.append_assoc, List.cons_append, List.nil_append]
  obtain ⟨fuel,rfl⟩ : ∃ k, fuel = k + 5 := ⟨fuel - 5, by omega⟩
  -- The left text is ended by the sign, the right one by the parenthesis, which is left over.
  have first := left input _ (fuel + 2) (by omega)
    (closed_and ('&' :: ' ' :: (r.text.toList ++ ')' :: rest)))
  have second := right input _ (fuel + 1) (by omega) (closed_paren rest)
  have both := readAnd_both first rfl (by rwa [readUnary_blank]) (by simp)
  rw [skipBlanks_paren, skipBlanks_paren] at both
  exact readPrimary_paren (readOr_alone both (by simp))

theorem Loose.or (left : l.Loose) (right : r.Loose) : (or l r).Tight := by
  intro input rest fuel enough _
  rw [toList_or] at enough ⊢
  simp only [List.length_append, List.length_cons, List.length_nil] at enough
  simp only [List.append_assoc, List.cons_append, List.nil_append]
  obtain ⟨fuel,rfl⟩ : ∃ k, fuel = k + 5 := ⟨fuel - 5, by omega⟩
  have first := left input _ (fuel + 2) (by omega)
    (closed_or ('|' :: ' ' :: (r.text.toList ++ ')' :: rest)))
  have second := right input _ (fuel + 1) (by omega) (closed_paren rest)
  have firstAnd := readAnd_alone first (by rintro more ⟨⟩)
  have secondAnd := readAnd_alone (by rwa [readUnary_blank]) (by simp)
  have both := readOr_both firstAnd rfl secondAnd (by simp)
  rw [skipBlanks_paren, skipBlanks_paren] at both
  exact readPrimary_paren both

theorem Tight.arith (op : ArithOp) (left : l.Tight) (right : r.Tight)
    (opens : l.Opens) (operand : l.IsOperand) : (arith op l r).Tight := by
  intro input rest fuel enough _
  obtain ⟨c,cs,start,unblank,_,positive⟩ := opens
  rw [toList_arith] at enough ⊢
  simp only [List.length_append, List.length_cons, List.length_nil] at enough
  simp only [List.append_assoc, List.cons_append, List.nil_append]
  obtain ⟨fuel,rfl⟩ : ∃ k, fuel = k + 8 := ⟨fuel - 8, by omega⟩
  have first := left input _ (fuel + 2) (by omega)
    (parted_blank (op.symbol.toList ++ ' ' :: (r.text.toList ++ ')' :: rest)))
  have second := right input _ (fuel + 1) (by omega) (closed_paren rest).parted
  have both := readSum_both first (readArithOp_symbol op _) (by rwa [readPrimary_blank]) rfl
  have comparison := readComparison_alone both rfl
  -- The looser readers pass the sum on, which does not begin with a negation.
  rw [start, List.cons_append] at comparison ⊢
  rw [← readUnary_comparison unblank (positive operand)] at comparison
  exact readPrimary_paren (readOr_alone (readAnd_alone comparison (by simp)) (by simp))

/-- Texts are read as what they were written for. -/
structure ReadBack (e : Expr) : Prop where
  loose : e.Loose
  tight : e.IsOperand → e.Tight

theorem tight_of_read (read : ∀ {input rest : List Char} {fuel : Nat}, Parted rest →
    readPrimary input (fuel + 1) (e.text.toList ++ rest) = .ok (e, rest)) : e.Tight := by
  intro input rest fuel enough parted
  obtain ⟨fuel,rfl⟩ := Nat.exists_eq_add_one.mpr (Nat.zero_lt_of_lt enough)
  exact read parted

theorem Tight.readBack (tight : e.Tight) (opens : e.Opens) (operand : e.IsOperand) :
    e.ReadBack := ⟨tight.loose opens operand, fun _ => tight⟩

/-- Each expression uses of its parts what they are as operands, or as anything. -/
theorem Printable.readBack (printable : e.Printable) : e.ReadBack := by
  have opens := printable.opens
  induction printable with
  | literal constant =>
    exact (tight_of_read (readPrimary_constant constant)).readBack opens trivial
  | path name => exact (tight_of_read (readPrimary_path name)).readBack opens trivial
  | inState plain =>
    exact (tight_of_read fun _ => readPrimary_inState plain).readBack opens trivial
  | not inner ih => exact ⟨(ih inner.opens).loose.not inner.opens, fun operand => operand.elim⟩
  | and left right ihLeft ihRight =>
    exact ((ihLeft left.opens).loose.and (ihRight right.opens).loose).readBack opens trivial
  | or left right ihLeft ihRight =>
    exact ((ihLeft left.opens).loose.or (ihRight right.opens).loose).readBack opens trivial
  | compare op left right tightLeft tightRight ihLeft ihRight =>
    have first := (ihLeft left.opens).tight tightLeft
    have second := (ihRight right.opens).tight tightRight
    exact ⟨first.compare op second left.opens tightLeft, fun operand => operand.elim⟩
  | arith op left right tightLeft tightRight ihLeft ihRight =>
    have first := (ihLeft left.opens).tight tightLeft
    have second := (ihRight right.opens).tight tightRight
    exact (first.arith op second left.opens tightLeft).readBack opens trivial

end Readings

/-- The text of a printable expression is read as this expression. -/
theorem printed_read_back {e : Expr} (printable : e.Printable) : parse e.text = .ok e := by
  have trimmed := trimChars_eq printable.opens printable.closes
  obtain ⟨c,cs,start,_⟩ := printable.opens
  have some : e.text.toList ≠ [] := by
    rw [start]
    exact List.cons_ne_nil _ _
  have unary := printable.readBack.loose e.text.toList [] (8 * e.text.toList.length + 14)
    (by omega) closed_nil
  rw [List.append_nil] at unary
  have whole := readOr_alone (readAnd_alone unary (by rintro more ⟨⟩)) (by rintro more ⟨⟩)
  have fuel : 8 * (e.text.toList.length + 2) = 8 * e.text.toList.length + 14 + 2 := by omega
  have exact : parseExact e.text = .ok e := by
    unfold parseExact
    simp only [trimmed, beq_iff_eq, some, if_false, fuel, whole]
    rfl
  rw [parse, exact]
  rfl

namespace Overdue

/-- `!((In('busy') || retries.left >= (3 - -1)) && reason != "\"late\"\n")` -/
def condition : Expr :=
  .not (.and
    (.or (.inState "busy")
      (.compare .ge (.path ["retries", "left"])
        (.arith .sub (.literal (.number (Json.Number.int 3).toFloat))
          (.literal (.number (Json.Number.int (-1)).toFloat)))))
    (.compare .ne (.path ["reason"]) (.literal (.string "\"late\"\n"))))

theorem condition_printable : condition.Printable := by
  have retries : IsName ["retries", "left"] :=
    ⟨⟨by decide, by decide, by decide, by decide⟩, by decide⟩
  have reason : IsName ["reason"] := ⟨⟨by decide, by decide, by decide, by decide⟩, by decide⟩
  have three := Printable.literal (.integer 3 (by decide))
  have one := Printable.literal (.integer (-1) (by decide))
  have late := Printable.literal (.string "\"late\"\n" (by decide))
  exact .not (.and
    (.or (.inState (by decide))
      (.compare .ge (.path retries) (.arith .sub three one trivial trivial) trivial trivial))
    (.compare .ne (.path reason) late trivial trivial))

theorem condition_read_back : condition.Printable ∧ parse condition.text = .ok condition :=
  ⟨condition_printable, printed_read_back condition_printable⟩

example : condition.text =
    "!((In('busy') || retries.left >= (3 - -1)) && reason != \"\\\"late\\\"\\n\")" := by
  decide +kernel

end Overdue

end Statechart.Expr

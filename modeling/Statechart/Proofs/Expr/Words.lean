import Statechart.Expr.Parser
import Statechart.Proofs.Decimal.Integers

/- Words, numbers and quoted texts, read off the front of an input.

   A reader takes as much as it can. So it takes exactly what was written, if what stands after it
   cannot continue a word or a number. -/
namespace Statechart.Expr

/-- A letter, a digit, the underscore or the dollar sign, of ASCII only. -/
def isNameChar (c : Char) : Bool := c.isAlphanum || c == '_' || c == '$'

/-- An ASCII character that is no control, a line end or a tab. -/
def isTextChar (c : Char) : Bool := 0x20 ≤ c.toNat && c.toNat ≤ 0x7E || c == '\n' || c == '\t'

/-- A character that a text between apostrophes can hold without an escape. -/
def isIdChar (c : Char) : Bool := c != '\'' && c != '\\'

/-- Segments over ASCII of which the first does not look like a number. -/
structure IsDotted (segments : List String) : Prop where
  named : segments ≠ []
  filled : ∀ s ∈ segments, s ≠ ""
  chars : ∀ s ∈ segments, s.toList.all isNameChar = true
  start : ∀ s ∈ segments.head?, s.toList.head?.any Decimal.isDigit = false

section Characters

variable {c : Char}

theorem ascii_checked {p : Char → Bool} (each : ∀ n < 128, p (Char.ofNat n) = true)
    (ascii : c.toNat < 128) : p c = true := by
  have checked := each c.toNat ascii
  rwa [Char.ofNat_toNat] at checked

theorem isNameChar_ascii (name : isNameChar c = true) : c.toNat < 128 := by
  simp only [isNameChar, Char.isAlphanum, Char.isAlpha, Char.isUpper, Char.isLower, Char.isDigit,
    Bool.or_eq_true, Bool.and_eq_true, decide_eq_true_eq, beq_iff_eq, ge_iff_le,
    UInt32.le_iff_toNat_le] at name
  rcases name with (letter | rfl) | rfl
  · change c.val.toNat < 128
    have upper : 'Z'.val.toNat = 90 := rfl
    have lower : 'z'.val.toNat = 122 := rfl
    have digit : '9'.val.toNat = 57 := rfl
    omega
  · decide
  · decide

theorem isWordChar_of_name (name : isNameChar c = true) : Text.isWordChar c = true := by
  rw [Text.isWordChar, Text.isAlphanumeric, if_pos (isNameChar_ascii name)]
  exact name

theorem isBlank_of_name (name : isNameChar c = true) : Text.isBlank c = false := by
  have checked := ascii_checked (c := c) (p := fun c => !isNameChar c || !Text.isBlank c)
    (by decide) (isNameChar_ascii name)
  simpa [name] using checked

theorem isQuote_of_name (name : isNameChar c = true) : isQuote c = false := by
  rw [Bool.eq_false_iff]
  intro quote
  simp only [isQuote, Bool.or_eq_true, beq_iff_eq] at quote
  rcases quote with rfl | rfl
  · cases name
  · cases name

theorem isNameChar_of_digit (digit : Decimal.isDigit c = true) : isNameChar c = true := by
  have ascii : c.toNat < 128 := by
    simp only [Decimal.isDigit, Bool.and_eq_true, decide_eq_true_eq, Char.le_def,
      UInt32.le_iff_toNat_le] at digit
    change c.val.toNat < 128
    have nine : '9'.val.toNat = 57 := rfl
    omega
  have checked := ascii_checked (p := fun c => !Decimal.isDigit c || isNameChar c) (by decide) ascii
  simpa [digit] using checked

end Characters

section Ends

variable {front rest cs : List Char} {c : Char}

/-- Nothing that continues a word or a number. -/
def Parted (rest : List Char) : Prop := ∀ c ∈ rest.head?, Text.isWordChar c = false ∧ c ≠ '.'

theorem span_front {p : Char → Bool} (all : ∀ c ∈ front, p c = true)
    (stop : ∀ c ∈ rest.head?, p c = false) :
    (front ++ rest).takeWhile p = front ∧ (front ++ rest).dropWhile p = rest := by
  rw [List.takeWhile_append_of_pos all, List.dropWhile_append_of_pos all]
  cases rest with
  | nil => exact ⟨List.append_nil front, rfl⟩
  | cons c more =>
    have no : p c = false := stop c rfl
    rw [List.takeWhile_cons, List.dropWhile_cons, no]
    exact ⟨List.append_nil front, rfl⟩

theorem parted_blank (more : List Char) : Parted (' ' :: more) := by
  rintro c ⟨⟩
  decide

theorem Parted.not_dot (parted : Parted rest) (more : List Char) : rest ≠ '.' :: more := by
  rintro rfl
  exact (parted '.' rfl).2 rfl

theorem Parted.not_digit (parted : Parted rest) : ∀ c ∈ rest.head?, Decimal.isDigit c = false := by
  intro c head
  have unworded := (parted c head).1
  rw [Bool.eq_false_iff] at unworded ⊢
  exact fun digit => unworded (isWordChar_of_name (isNameChar_of_digit digit))

@[simp]
theorem skipBlanks_blank : skipBlanks (' ' :: cs) = skipBlanks cs := rfl

theorem skipBlanks_cons (unblank : Text.isBlank c = false) : skipBlanks (c :: cs) = c :: cs := by
  rw [skipBlanks, List.dropWhile_cons, unblank]
  rfl

@[simp]
theorem skipBlanks_skipBlanks : skipBlanks (skipBlanks cs) = skipBlanks cs :=
  List.dropWhile_idempotent _ _

@[simp]
theorem skipBlanks_paren : skipBlanks (')' :: cs) = ')' :: cs := rfl

end Ends

section Paths

variable {rest : List Char} {fuel : Nat} {segments : List String}

theorem toList_dotted (s t : String) (more : List String) :
    (String.intercalate "." (s :: t :: more)).toList =
      s.toList ++ '.' :: (String.intercalate "." (t :: more)).toList := by
  simp [String.toList_intercalate]

theorem IsDotted.name (dotted : IsDotted segments) {s : String} (hs : s ∈ segments) {c : Char}
    (hc : c ∈ s.toList) : isNameChar c = true :=
  List.all_eq_true.mp (dotted.chars s hs) c hc

theorem IsDotted.text_cons (dotted : IsDotted segments) :
    ∃ c cs, (String.intercalate "." segments).toList = c :: cs ∧ isNameChar c = true ∧
      Decimal.isDigit c = false := by
  cases segments with
  | nil => exact absurd rfl dotted.named
  | cons s more =>
    have nonempty := mt String.toList_eq_nil_iff.mp (dotted.filled s List.mem_cons_self)
    obtain ⟨c,cs,chars⟩ := List.exists_cons_of_ne_nil nonempty
    have name := dotted.name List.mem_cons_self (chars ▸ List.mem_cons_self)
    have start := dotted.start s rfl
    rw [chars] at start
    cases more with
    | nil => exact ⟨c, cs, by simp [chars], name, start⟩
    | cons t more =>
      refine ⟨c, cs ++ '.' :: (String.intercalate "." (t :: more)).toList, ?_, name, start⟩
      rw [toList_dotted, chars, List.cons_append]

theorem dotted_unblank (chars : ∀ s ∈ segments, s.toList.all isNameChar = true) :
    ∀ c ∈ (String.intercalate "." segments).toList, Text.isBlank c = false := by
  induction segments with
  | nil =>
    intro c inside
    cases inside
  | cons s more ih =>
    have here : ∀ c ∈ s.toList, Text.isBlank c = false := fun c hc =>
      isBlank_of_name (List.all_eq_true.mp (chars s List.mem_cons_self) c hc)
    have later := ih fun t ht => chars t (List.mem_cons_of_mem s ht)
    cases more with
    | nil => simpa using here
    | cons t more =>
      intro c inside
      rw [toList_dotted] at inside
      rcases List.mem_append.mp inside with inside | inside
      · exact here c inside
      · rcases List.mem_cons.mp inside with rfl | inside
        · decide
        · exact later c inside

theorem readPath_text (input : List Char) (named : segments ≠ [])
    (words : ∀ s ∈ segments, s ≠ "" ∧ ∀ c ∈ s.toList, Text.isWordChar c = true)
    (parted : Parted rest) (enough : (String.intercalate "." segments).toList.length ≤ fuel) :
    readPath input fuel ((String.intercalate "." segments).toList ++ rest) =
      .ok (segments, rest) := by
  induction segments generalizing fuel with
  | nil => exact absurd rfl named
  | cons s more ih =>
    obtain ⟨filled,word⟩ := words s List.mem_cons_self
    have nonempty : s.toList ≠ [] := mt String.toList_eq_nil_iff.mp filled
    have length : 0 < s.toList.length := List.length_pos_iff.mpr nonempty
    cases more with
    | nil =>
      rw [String.toList_intercalate, List.map_singleton, List.intercalate_singleton] at enough ⊢
      obtain ⟨fuel,rfl⟩ := Nat.exists_eq_add_one.mpr (Nat.lt_of_lt_of_le length enough)
      obtain ⟨taken,left⟩ := span_front word fun c head => (parted c head).1
      rw [readPath]
      simp only [taken, left]
      rw [if_neg (by simpa using nonempty), String.ofList_toList]
      split
      · rename_i dotted
        exact absurd rfl (parted.not_dot _)
      · rfl
    | cons t more =>
      rw [toList_dotted] at enough ⊢
      rw [List.length_append, List.length_cons] at enough
      obtain ⟨fuel,rfl⟩ := Nat.exists_eq_add_one.mpr (show 0 < fuel by omega)
      have dot : ∀ c ∈ ('.' :: ((String.intercalate "." (t :: more)).toList ++ rest)).head?,
          Text.isWordChar c = false := by
        rintro c ⟨⟩
        decide
      obtain ⟨taken,left⟩ := span_front word dot
      rw [List.append_assoc, List.cons_append, readPath]
      simp only [taken, left]
      rw [if_neg (by simpa using nonempty), String.ofList_toList,
        ih (List.cons_ne_nil t more) (fun s hs => words s (List.mem_cons_of_mem _ hs)) (by omega)]
      rfl

end Paths

section Numbers

variable {rest : List Char} {n : Int}

theorem integer_chars (n : Int) :
    ∀ c ∈ (toString n).toList, c = '-' ∨ Decimal.isDigit c = true := by
  intro c inside
  rw [Decimal.toList_toString] at inside
  rcases List.mem_append.mp inside with sign | digit
  · split at sign
    · exact Or.inl (List.mem_singleton.mp sign)
    · cases sign
  · exact Or.inr (Decimal.isDigit_natDigits digit)

theorem integer_text (n : Int) : ∃ c cs, (toString n).toList = c :: cs ∧
    (c = '-' ∨ Decimal.isDigit c = true) := by
  have nonempty : (toString n).toList ≠ [] := by
    rw [Decimal.toList_toString]
    exact List.append_ne_nil_of_right_ne_nil _ (Decimal.natDigits_ne_nil _)
  obtain ⟨c,cs,text⟩ := List.exists_cons_of_ne_nil nonempty
  exact ⟨c, cs, text, integer_chars n c (text ▸ List.mem_cons_self)⟩

/-- A small integer is read to the end of its digits. -/
theorem readNumber_text (small : n.natAbs < 9000000000000000) (parted : Parted rest) :
    readNumber ((toString n).toList ++ rest) = .ok ((Json.Number.int n).toFloat, rest) := by
  have read := Decimal.readChars_int (n := n) (by omega)
  have all : ∀ c ∈ Decimal.natDigits n.natAbs, Decimal.isDigit c = true :=
    fun _ => Decimal.isDigit_natDigits
  obtain ⟨taken,left⟩ := span_front all parted.not_digit
  have stop : ∀ more, rest ≠ '.' :: more := parted.not_dot
  rw [Decimal.toList_toString]
  by_cases negative : n < 0
  · simp only [if_pos negative, List.cons_append, List.nil_append] at read ⊢
    simp [readNumber, taken, left, read]
  · have unsigned : ∀ more, Decimal.natDigits n.natAbs ++ rest ≠ '-' :: more := by
      obtain ⟨d,ds,digits,digit⟩ := Decimal.natDigits_eq_cons n.natAbs
      rw [digits]
      rintro more ⟨⟩
      cases digit
    -- The reader looks for a minus and for a point, and finds neither.
    simp only [if_neg negative, List.nil_append] at read ⊢
    simp [readNumber, taken, left, read]

end Numbers

section Quotes

variable {cs : List Char} {c : Char}

/-- Writing a character so that the reader of quoted texts takes it for this character. -/
def Spells (quote : Char) (write : Char → List Char) (c : Char) : Prop :=
  ∀ acc more, more ≠ [] →
    readQuoted quote acc (write c ++ more) = readQuoted quote (c :: acc) more

theorem readQuoted_last (quote : Char) (acc : List Char) (c : Char) :
    readQuoted quote acc [c] =
      if c == quote then .ok (String.ofList acc.reverse, []) else .error .unterminatedString := rfl

theorem readQuoted_cons (quote : Char) (acc : List Char) (c d : Char) (rest : List Char) :
    readQuoted quote acc (c :: d :: rest) =
      if c == quote then .ok (String.ofList acc.reverse, d :: rest)
      else if c == '\\' then
        readQuoted quote ((if d == 'n' then '\n' else if d == 't' then '\t' else d) :: acc) rest
      else readQuoted quote (c :: acc) (d :: rest) := rfl

theorem readQuoted_close (quote : Char) (acc rest : List Char) :
    readQuoted quote acc (quote :: rest) = .ok (String.ofList acc.reverse, rest) := by
  cases rest with
  | nil => simp [readQuoted_last]
  | cons c more => simp [readQuoted_cons]

theorem spells_self {quote : Char} (other : c ≠ quote) (unescaped : c ≠ '\\') :
    Spells quote (fun c => [c]) c := by
  intro acc more some
  cases more with
  | nil => exact absurd rfl some
  | cons d more => simp [readQuoted_cons, other, unescaped]

theorem spells_id (plain : isIdChar c = true) : Spells '\'' (fun c => [c]) c := by
  simp only [isIdChar, Bool.and_eq_true, bne_iff_ne] at plain
  exact spells_self plain.1 plain.2

theorem readQuoted_text {quote : Char} {write : Char → List Char}
    (spelled : ∀ c ∈ cs, Spells quote write c) (acc rest : List Char) :
    readQuoted quote acc (cs.flatMap write ++ quote :: rest) =
      .ok (String.ofList (acc.reverse ++ cs), rest) := by
  induction cs generalizing acc with
  | nil => rw [List.flatMap_nil, List.nil_append, readQuoted_close, List.append_nil]
  | cons c cs ih =>
    have next : cs.flatMap write ++ quote :: rest ≠ [] :=
      List.append_ne_nil_of_right_ne_nil _ (List.cons_ne_nil _ _)
    rw [List.flatMap_cons, List.append_assoc, spelled c List.mem_cons_self acc _ next,
      ih fun d hd => spelled d (List.mem_cons_of_mem c hd)]
    simp

/-- Escapes are undone by the reader. -/
theorem spells_escaped (plain : isTextChar c = true) :
    Spells '"' (fun c => (Text.escapeChar c).toList) c := by
  by_cases quote : c = '"'
  · subst quote
    intro acc more _
    simp [Text.escapeChar, readQuoted_cons]
  by_cases backslash : c = '\\'
  · subst backslash
    intro acc more _
    simp [Text.escapeChar, readQuoted_cons]
  simp only [isTextChar, Bool.or_eq_true, Bool.and_eq_true, decide_eq_true_eq, beq_iff_eq] at plain
  rcases plain with (visible | rfl) | rfl
  · have checked := ascii_checked (p := fun c => decide (c.toNat < 0x20) || c.toNat == 0x7F ||
      c == '"' || c == '\\' || (Text.escapeChar c).toList == [c]) (by decide)
      (show c.toNat < 128 by omega)
    have itself : (Text.escapeChar c).toList = [c] := by
      simpa [quote, backslash, show ¬ c.toNat < 0x20 by omega, show ¬ c.toNat = 0x7F by omega]
        using checked
    intro acc more some
    change readQuoted '"' acc ((Text.escapeChar c).toList ++ more) = _
    rw [itself]
    exact spells_self quote backslash acc more some
  · intro acc more _
    simp [Text.escapeChar, readQuoted_cons]
  · intro acc more _
    simp [Text.escapeChar, readQuoted_cons]

end Quotes

end Statechart.Expr

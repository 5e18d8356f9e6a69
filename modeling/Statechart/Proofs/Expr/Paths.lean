import Statechart.Expr.Parser
import Statechart.Proofs.Except
import Statechart.Proofs.Value.Correspondence

/- Paths in expressions that have been read from a text: each names something. -/
namespace Statechart.Expr

variable {e l r : Expr} {path : List String}

/-- No path in the expression is empty. -/
def Named (e : Expr) : Prop := ∀ path, e.Reads path → path ≠ []

theorem named_literal (t : Tree) : (literal t).Named := fun _ reads => by cases reads

theorem named_inState (id : String) : (inState id).Named := fun _ reads => by cases reads

theorem named_path (some : path ≠ []) : (Expr.path path).Named := fun _ reads => by
  cases reads
  exact some

theorem Named.not (named : e.Named) : (not e).Named := fun _ reads => by
  cases reads with
  | not inner => exact named _ inner

theorem Named.and (left : l.Named) (right : r.Named) : (and l r).Named := fun _ reads => by
  cases reads with
  | andLeft inner => exact left _ inner
  | andRight inner => exact right _ inner

theorem Named.or (left : l.Named) (right : r.Named) : (or l r).Named := fun _ reads => by
  cases reads with
  | orLeft inner => exact left _ inner
  | orRight inner => exact right _ inner

theorem Named.compare (op : CompareOp) (left : l.Named) (right : r.Named) :
    (compare op l r).Named := fun _ reads => by
  cases reads with
  | compareLeft inner => exact left _ inner
  | compareRight inner => exact right _ inner

theorem Named.arith (op : ArithOp) (left : l.Named) (right : r.Named) :
    (arith op l r).Named := fun _ reads => by
  cases reads with
  | arithLeft inner => exact left _ inner
  | arithRight inner => exact right _ inner

variable {input cs rest : List Char}

theorem readPath_ne_nil {fuel : Nat} (run : readPath input fuel cs = .ok (path, rest)) :
    path ≠ [] := by
  cases fuel with
  | zero => cases run
  | succ fuel =>
    rw [readPath] at run
    simp only at run
    split at run
    · cases run
    · split at run
      · obtain ⟨⟨segments,more⟩,_,run⟩ := Except.bind_eq_ok run
        cases run
        exact List.cons_ne_nil _ _
      · cases run
        exact List.cons_ne_nil _ _

theorem readInCall_named (run : readInCall cs = .ok (e, rest)) : e.Named := by
  unfold readInCall at run
  split at run
  · obtain ⟨⟨id,more⟩,_,run⟩ := Except.bind_eq_ok run
    simp only at run
    split at run
    · cases run
      exact named_inState id
    · cases run
  · cases run

theorem readWord_named (some : path ≠ []) (run : readWord path cs = .ok (e, rest)) : e.Named := by
  unfold readWord at run
  split at run
  · cases run
    exact named_literal _
  · cases run
    exact named_literal _
  · cases run
    exact named_literal _
  · cases run
    exact named_literal _
  · exact readInCall_named run
  · cases run
    exact named_path some

structure Readers (input : List Char) (fuel : Nat) : Prop where
  or : ∀ {cs e rest}, readOr input fuel cs = .ok (e, rest) → e.Named
  orTail : ∀ {left cs e rest}, left.Named → readOrTail input fuel left cs = .ok (e, rest) → e.Named
  and : ∀ {cs e rest}, readAnd input fuel cs = .ok (e, rest) → e.Named
  andTail : ∀ {left cs e rest}, left.Named → readAndTail input fuel left cs = .ok (e, rest) → e.Named
  unary : ∀ {cs e rest}, readUnary input fuel cs = .ok (e, rest) → e.Named
  comparison : ∀ {cs e rest}, readComparison input fuel cs = .ok (e, rest) → e.Named
  sum : ∀ {cs e rest}, readSum input fuel cs = .ok (e, rest) → e.Named
  sumTail : ∀ {left cs e rest}, left.Named → readSumTail input fuel left cs = .ok (e, rest) → e.Named
  primary : ∀ {cs e rest}, readPrimary input fuel cs = .ok (e, rest) → e.Named

theorem readers (input : List Char) (fuel : Nat) : Readers input fuel := by
  induction fuel with
  | zero =>
    constructor
    all_goals
      intros
      rename_i run
      cases run
  | succ fuel ih =>
    constructor
    case or =>
      intro cs e rest run
      rw [readOr] at run
      obtain ⟨⟨left,more⟩,first,run⟩ := Except.bind_eq_ok run
      exact ih.orTail (ih.and first) run
    case orTail =>
      intro left cs e rest named run
      rw [readOrTail] at run
      split at run
      · obtain ⟨⟨right,more⟩,first,run⟩ := Except.bind_eq_ok run
        exact ih.orTail (named.or (ih.and first)) run
      · cases run
        exact named
    case and =>
      intro cs e rest run
      rw [readAnd] at run
      obtain ⟨⟨left,more⟩,first,run⟩ := Except.bind_eq_ok run
      exact ih.andTail (ih.unary first) run
    case andTail =>
      intro left cs e rest named run
      rw [readAndTail] at run
      split at run
      · obtain ⟨⟨right,more⟩,first,run⟩ := Except.bind_eq_ok run
        exact ih.andTail (named.and (ih.unary first)) run
      · cases run
        exact named
    case unary =>
      intro cs e rest run
      rw [readUnary] at run
      split at run
      · exact ih.comparison run
      · obtain ⟨⟨inner,more⟩,first,run⟩ := Except.bind_eq_ok run
        cases run
        exact (ih.unary first).not
      · exact ih.comparison run
    case comparison =>
      intro cs e rest run
      rw [readComparison] at run
      obtain ⟨⟨left,more⟩,first,run⟩ := Except.bind_eq_ok run
      simp only at run
      split at run
      · obtain ⟨⟨right,more'⟩,second,run⟩ := Except.bind_eq_ok run
        cases run
        exact (ih.sum first).compare _ (ih.sum second)
      · cases run
        exact ih.sum first
    case sum =>
      intro cs e rest run
      rw [readSum] at run
      obtain ⟨⟨left,more⟩,first,run⟩ := Except.bind_eq_ok run
      exact ih.sumTail (ih.primary first) run
    case sumTail =>
      intro left cs e rest named run
      rw [readSumTail] at run
      split at run
      · obtain ⟨⟨right,more⟩,first,run⟩ := Except.bind_eq_ok run
        exact ih.sumTail (named.arith _ (ih.primary first)) run
      · cases run
        exact named
    case primary =>
      intro cs e rest run
      rw [readPrimary] at run
      split at run
      · cases run
      · obtain ⟨⟨inner,more⟩,first,run⟩ := Except.bind_eq_ok run
        simp only at run
        split at run
        · cases run
          exact ih.or first
        · cases run
      · split at run
        · obtain ⟨⟨text,more⟩,_,run⟩ := Except.bind_eq_ok run
          cases run
          exact named_literal _
        · split at run
          · obtain ⟨⟨f,more⟩,_,run⟩ := Except.bind_eq_ok run
            cases run
            exact named_literal _
          · obtain ⟨⟨segments,more⟩,first,run⟩ := Except.bind_eq_ok run
            exact readWord_named (readPath_ne_nil first) run

/-- An expression that has been read from a text has no empty path. -/
theorem parse_named {text : String} (parsed : parse text = .ok e) : e.Named := by
  unfold parse at parsed
  cases exact : parseExact text with
  | error f =>
    rw [exact] at parsed
    cases parsed
  | ok found =>
    rw [exact] at parsed
    cases parsed
    unfold parseExact at exact
    simp only at exact
    split at exact
    · cases exact
    · obtain ⟨⟨inner,more⟩,first,exact⟩ := Except.bind_eq_ok exact
      simp only at exact
      split at exact
      · cases exact
        exact (readers _ _).or first
      · cases exact

end Statechart.Expr

import Statechart.Machine.Microstep

/- Entering states, told as if it never gave up.

   The states to enter are collected by calls that nest, and nothing comes of them if they nest too
   deep. What is said of the states that are entered is said of total functions that leave out what
   lies deeper; where an attempt comes to something, they come to the same. -/
namespace Statechart.Chart

section Totals

variable (c : Chart) (descend : StateIndex → EntrySet → EntrySet)

def addMissingRegions (parallel : StateIndex) (e : EntrySet) : EntrySet :=
  (c.childStates parallel).foldl
    (fun e child =>
      let covered := e.states.any fun s => s == child || c.isDescendant s child
      if covered then e else descend child e)
    e

def addAncestors (s top : StateIndex) (e : EntrySet) : EntrySet :=
  ((c.ancestorsUpTo s top).takeWhile (· ≠ root)).foldl
    (fun e a =>
      let e := e.add a
      if c.isParallel a then c.addMissingRegions descend a e else e)
    e

def addTargets (targets : List StateIndex) (top : StateIndex) (e : EntrySet) : EntrySet :=
  let e := targets.foldl (fun e r => descend r e) e
  targets.foldl (fun e r => c.addAncestors descend r top e) e

end Totals

def addDescendants (c : Chart) (history : HistoryTable) : Nat → StateIndex → EntrySet → EntrySet
  | 0, _, e => e
  | depth + 1, s, e =>
    let descend := c.addDescendants history depth
    let node := c.state s
    if c.isHistory s then
      let parent := node.parent.getD root
      match history.lookup s with
      | some recorded => c.addTargets descend recorded parent e
      | none =>
        match node.initial with
        | some d => c.addTargets descend (c.transition d).targets parent (e.addContent parent d)
        | none => e
    else
      let e := e.add s
      if c.isCompound s then
        let e := e.addDefault s
        match node.initial with
        | some t => c.addTargets descend (c.transition t).targets s e
        | none => e
      else if c.isParallel s then c.addMissingRegions descend s e
      else e

/-- The states that one transition has entered, after those before it. -/
def enterFor (c : Chart) (history : HistoryTable) (e : EntrySet) (t : TransitionIndex) : EntrySet :=
  let descend := c.addDescendants history c.nesting
  let e := (c.transition t).targets.foldl (fun e s => descend s e) e
  match c.domain? history t with
  | some d => (c.effectiveTargets history t).foldl (fun e s => c.addAncestors descend s d e) e
  | none => e

def entrySet (c : Chart) (history : HistoryTable) (transitions : List TransitionIndex) : EntrySet :=
  transitions.foldl (c.enterFor history) {}

variable {c : Chart} {history : HistoryTable}

theorem size_lt_nesting (c : Chart) : c.states.size < c.nesting := by
  unfold nesting
  have square := Nat.le_mul_self (c.states.size + 1)
  omega

theorem foldl_of_foldlM {α β : Type} {f : β → α → Option β} {g : β → α → β} {l : List α} {b b' : β}
    (run : l.foldlM f b = some b') (same : ∀ a b b', f b a = some b' → g b a = b') :
    l.foldl g b = b' := by
  induction l generalizing b with
  | nil => exact Option.some.inj run
  | cons a rest ih =>
    rw [List.foldlM_cons] at run
    obtain ⟨b₁,first,run⟩ := Option.bind_eq_some_iff.mp run
    rw [List.foldl_cons, same a b b₁ first]
    exact ih run

section Attempts

variable {attempt : StateIndex → EntrySet → Option EntrySet}
  {descend : StateIndex → EntrySet → EntrySet} {e e' : EntrySet}
  (same : ∀ s e e', attempt s e = some e' → descend s e = e')

include same

theorem regions_of_attempt {p : StateIndex} (run : c.addMissingRegions? attempt p e = some e') :
    c.addMissingRegions descend p e = e' := by
  refine foldl_of_foldlM run fun child e e' first => ?_
  simp only at first ⊢
  split at first
  · rename_i covered
    rw [if_pos covered]
    exact Option.some.inj first
  · rename_i free
    rw [if_neg free]
    exact same child e e' first

theorem ancestors_of_attempt {s top : StateIndex}
    (run : c.addAncestors? attempt s top e = some e') : c.addAncestors descend s top e = e' := by
  refine foldl_of_foldlM run fun a e e' first => ?_
  simp only at first ⊢
  split at first
  · rename_i parallel
    rw [if_pos parallel]
    exact regions_of_attempt same first
  · rename_i other
    rw [if_neg other]
    exact Option.some.inj first

theorem targets_of_attempt {targets : List StateIndex} {top : StateIndex}
    (run : c.addTargets? attempt targets top e = some e') :
    c.addTargets descend targets top e = e' := by
  obtain ⟨e₁,entered,run⟩ := Option.bind_eq_some_iff.mp run
  have entered := foldl_of_foldlM (g := fun e r => descend r e) entered fun r e e' => same r e e'
  rw [addTargets, entered]
  exact foldl_of_foldlM run fun r e e' => ancestors_of_attempt same

end Attempts

theorem descendants_of_attempt {depth : Nat} {s : StateIndex} {e e' : EntrySet}
    (run : c.addDescendants? history depth s e = some e') : c.addDescendants history depth s e = e' := by
  induction depth generalizing s e e' with
  | zero => cases run
  | succ depth ih =>
    have same : ∀ s e e', c.addDescendants? history depth s e = some e' →
        c.addDescendants history depth s e = e' := fun _ _ _ => ih
    rw [addDescendants?] at run
    rw [addDescendants]
    by_cases past : c.isHistory s = true
    · simp only [past, if_true] at run ⊢
      cases found : history.lookup s with
      | some recorded =>
        rw [found] at run
        exact targets_of_attempt same run
      | none =>
        rw [found] at run
        cases enters : (c.state s).initial with
        | some d =>
          rw [enters] at run
          exact targets_of_attempt same run
        | none =>
          rw [enters] at run
          exact Option.some.inj run
    · simp only [past, Bool.false_eq_true, if_false] at run ⊢
      by_cases compound : c.isCompound s = true
      · simp only [compound, if_true] at run ⊢
        cases enters : (c.state s).initial with
        | some t =>
          rw [enters] at run
          exact targets_of_attempt same run
        | none =>
          rw [enters] at run
          exact Option.some.inj run
      · simp only [compound, Bool.false_eq_true, if_false] at run ⊢
        by_cases parallel : c.isParallel s = true
        · rw [if_pos parallel] at run ⊢
          exact regions_of_attempt same run
        · rw [if_neg parallel] at run ⊢
          exact Option.some.inj run

theorem enterFor_of_attempt {e e' : EntrySet} {t : TransitionIndex}
    (run : c.enterFor? history e t = some e') : c.enterFor history e t = e' := by
  have same : ∀ s e e', c.addDescendants? history c.nesting s e = some e' →
      c.addDescendants history c.nesting s e = e' := fun _ _ _ => descendants_of_attempt
  obtain ⟨e₁,entered,run⟩ := Option.bind_eq_some_iff.mp run
  have entered := foldl_of_foldlM (g := fun e s => c.addDescendants history c.nesting s e) entered
    fun s e e' => same s e e'
  simp only [enterFor, entered]
  cases found : c.domain? history t with
  | some d =>
    rw [found] at run
    exact foldl_of_foldlM run fun s e e' => ancestors_of_attempt same
  | none =>
    rw [found] at run
    exact Option.some.inj run

/-- Where the states to enter are found, they are those of the total function. -/
theorem entrySet_of_attempt {transitions : List TransitionIndex} {e : EntrySet}
    (run : c.entrySet? history transitions = some e) : e = c.entrySet history transitions :=
  (foldl_of_foldlM run fun _ _ _ => enterFor_of_attempt).symm

end Statechart.Chart

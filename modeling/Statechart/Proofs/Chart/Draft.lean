import Statechart.Chart.Compile
import Statechart.Proofs.Chart.Configuration

/- Charts in the making.

   States are added depth first, so the states of a subtree stand side by side: a subtree is a
   range of indices whose first is its top. Adding states changes nothing before the range. -/
namespace Statechart

namespace Compile

open Source

variable {α β : Type}

theorem bind_eq_ok {x : CompileM α} {f : α → CompileM β} {d d' : Draft} {b : β}
    (run : (x >>= f).run d = .ok (b, d')) :
    ∃ a e, x.run d = .ok (a, e) ∧ (f a).run e = .ok (b, d') := by
  rw [StateT.run_bind] at run
  cases first : x.run d with
  | error fault =>
    rw [first] at run
    cases run
  | ok p =>
    rw [first] at run
    exact ⟨p.1, p.2, rfl, run⟩

namespace Draft

def state (d : Draft) (s : StateIndex) : StateNode := d.states.getD s default

def transition (d : Draft) (t : TransitionIndex) : TransitionNode := d.transitions.getD t default

/-- Targets are given only after all states are known. -/
def Untargeted (d : Draft) : Prop := ∀ t : Nat, (d.transition t).targets = []

/-- A later draft, with the states below `keep` as they were. -/
structure Grows (keep : Nat) (d d' : Draft) : Prop where
  states_size : d.states.size ≤ d'.states.size
  states : ∀ s : Nat, s < keep → d'.state s = d.state s
  transitions_size : d.transitions.size ≤ d'.transitions.size
  transitions : ∀ t : Nat, t < d.transitions.size → d'.transition t = d.transition t
  untargeted : d.Untargeted → d'.Untargeted

variable {keep : Nat} {d d' d'' : Draft}

theorem Grows.refl (keep : Nat) (d : Draft) : Grows keep d d :=
  ⟨Nat.le_refl _, fun _ _ => rfl, Nat.le_refl _, fun _ _ => rfl, id⟩

theorem Grows.trans (first : Grows keep d d') (second : Grows keep d' d'') : Grows keep d d'' where
  states_size := Nat.le_trans first.states_size second.states_size
  states s hs := (second.states s hs).trans (first.states s hs)
  transitions_size := Nat.le_trans first.transitions_size second.transitions_size
  transitions t ht :=
    (second.transitions t (Nat.lt_of_lt_of_le ht first.transitions_size)).trans
      (first.transitions t ht)
  untargeted h := second.untargeted (first.untargeted h)

theorem Grows.weaken {less : Nat} (h : Grows keep d d') (fewer : less ≤ keep) : Grows less d d' :=
  { h with states := fun s hs => h.states s (Nat.lt_of_lt_of_le hs fewer) }

theorem grows_of_eq (states : d'.states = d.states) (transitions : d'.transitions = d.transitions) :
    Grows keep d d' where
  states_size := Nat.le_of_eq (congrArg Array.size states.symm)
  states s _ := by rw [state, state, states]
  transitions_size := Nat.le_of_eq (congrArg Array.size transitions.symm)
  transitions t _ := by rw [transition, transition, transitions]
  untargeted h := by
    intro t
    rw [transition, transitions]
    exact h t

end Draft

/-- Relations between drafts before and after that can be left out or put in a row. -/
class Lasting (R : Draft → Draft → Prop) : Prop where
  refl : ∀ d, R d d
  trans : ∀ {d d' d''}, R d d' → R d' d'' → R d d''

/-- A part of compiling that leads to related drafts. -/
def Keeps (R : Draft → Draft → Prop) (x : CompileM α) : Prop :=
  ∀ d a d', x.run d = .ok (a, d') → R d d'

namespace Keeps

variable {R : Draft → Draft → Prop} [Lasting R]

theorem pure (a : α) : Keeps R (Pure.pure a) := by
  intro d b d' run
  cases run
  exact Lasting.refl d

theorem bind {x : CompileM α} {f : α → CompileM β} (first : Keeps R x) (rest : ∀ a, Keeps R (f a)) :
    Keeps R (x >>= f) := by
  intro d b d' run
  obtain ⟨a,e,run₁,run₂⟩ := bind_eq_ok run
  exact Lasting.trans (first d a e run₁) (rest a e b d' run₂)

theorem lift (x : Except Fault α) : Keeps R (liftM x) := by
  intro d a d' run
  cases x with
  | error fault => cases run
  | ok b =>
    cases run
    exact Lasting.refl d

omit [Lasting R] in
theorem reject (defect : Defect) : Keeps R (Compile.reject defect : CompileM α) := by
  intro d a d' run
  cases run

theorem mapM {f : β → CompileM α} (each : ∀ b, Keeps R (f b)) (l : List β) : Keeps R (l.mapM f) := by
  induction l with
  | nil =>
    rw [List.mapM_nil]
    exact pure []
  | cons b rest ih =>
    rw [List.mapM_cons]
    exact bind (each b) fun a => bind ih fun as => pure (a :: as)

theorem get : Keeps R (MonadState.get : CompileM Draft) := by
  intro d a d' run
  cases run
  exact Lasting.refl d

end Keeps

/-- Neither states nor transitions have been added. Positions may have been given out. -/
structure Draft.Same (d d' : Draft) : Prop where
  states : d'.states = d.states
  transitions : d'.transitions = d.transitions
  next : d.nextDocument ≤ d'.nextDocument

instance : Lasting Draft.Same where
  refl _ := ⟨rfl, rfl, Nat.le_refl _⟩
  trans first second :=
    ⟨second.1.trans first.1, second.2.trans first.2, Nat.le_trans first.3 second.3⟩

/-- A part of compiling that adds neither states nor transitions. -/
abbrev Quiet (x : CompileM α) : Prop := Keeps Draft.Same x

/-- Nothing has been added, and no position given out. -/
structure Draft.Idle (d d' : Draft) : Prop extends Draft.Same d d' where
  idle : d'.nextDocument = d.nextDocument

instance : Lasting Draft.Idle where
  refl d := ⟨Lasting.refl d, rfl⟩
  trans first second :=
    ⟨Lasting.trans first.toSame second.toSame, second.idle.trans first.idle⟩

theorem freshDocument_quiet : Quiet freshDocument := by
  intro d a d' run
  cases run
  exact ⟨rfl, rfl, Nat.le_succ _⟩

theorem addPending_idle (t : TransitionIndex) (targets : List String) :
    Keeps Draft.Idle (addPending t targets) := by
  intro d a d' run
  cases run
  exact ⟨⟨rfl, rfl, Nat.le_refl _⟩, rfl⟩

theorem addPending_quiet (t : TransitionIndex) (targets : List String) :
    Quiet (addPending t targets) :=
  fun d a d' run => (addPending_idle t targets d a d' run).toSame

theorem stateId_idle (given : Option String) : Keeps Draft.Idle (stateId given) := by
  unfold stateId
  cases given with
  | some text => exact Keeps.bind (Keeps.lift _) fun _ => Keeps.pure _
  | none =>
    intro d a d' run
    cases run
    exact ⟨⟨rfl, rfl, Nat.le_refl _⟩, rfl⟩

theorem stateId_quiet (given : Option String) : Quiet (stateId given) :=
  fun d a d' run => (stateId_idle given d a d' run).toSame

/-- What an invoke is compiled to, if it does not name its source or its id twice. -/
def invokeNode (library : ActionLibrary) (i : InvokeDef) : CompileM InvokeNode := do
  let document ← freshDocument
  let srcExpr ← readOptional Expr.parse i.srcExpr
  let idLocation ← readOptional Expr.parseLocation i.idLocation
  let params ← i.params.mapM fun p => liftM (param p)
  let content ← optionalValue i.content
  let finalize ← actions library i.finalize
  return { document, type := i.type, src := i.src, srcExpr, id := i.id, idLocation, params, content,
           autoforward := i.autoforward, finalize }

theorem invokeNode_of_invoke {i : InvokeDef} {d d' : Draft} {node : InvokeNode}
    (run : (invoke library i).run d = .ok (node, d')) :
    (invokeNode library i).run d = .ok (node, d') := by
  unfold invoke at run
  simp only at run
  split at run
  · obtain ⟨_,_,rejected,_⟩ := bind_eq_ok run
    cases rejected
  · split at run
    · obtain ⟨_,_,rejected,_⟩ := bind_eq_ok run
      cases rejected
    · exact run

/-- An invoke is given a position, and nothing else is done to the draft. -/
theorem invoke_keeps {R : Draft → Draft → Prop} [Lasting R] (fresh : Keeps R freshDocument)
    (library : ActionLibrary) (i : InvokeDef) : Keeps R (invoke library i) := by
  have parts : Keeps R (invokeNode library i) := by
    refine Keeps.bind fresh fun _ => ?_
    refine Keeps.bind (Keeps.lift _) fun _ => ?_
    refine Keeps.bind (Keeps.lift _) fun _ => ?_
    refine Keeps.bind (Keeps.mapM (fun _ => Keeps.lift _) _) fun _ => ?_
    refine Keeps.bind (Keeps.lift _) fun _ => ?_
    exact Keeps.bind (Keeps.lift _) fun _ => Keeps.pure _
  exact fun d node d' run => parts d node d' (invokeNode_of_invoke run)

theorem invoke_quiet (library : ActionLibrary) (i : InvokeDef) : Quiet (invoke library i) :=
  invoke_keeps freshDocument_quiet library i

/-- The condition has been read from a text. -/
def Phrased (n : TransitionNode) : Prop :=
  ∀ cond, n.condition = some cond → ∃ text, Expr.parse text = .ok cond

theorem phrased_of_readOptional {text : Option String} {condition : Option Expr}
    (read : readOptional Expr.parse text = .ok condition) :
    ∀ cond, condition = some cond → ∃ text, Expr.parse text = .ok cond := by
  rintro cond rfl
  cases text with
  | none => cases read
  | some text =>
    cases parsed : Expr.parse text with
    | error f =>
      rw [readOptional, parsed] at read
      cases read
    | ok e =>
      rw [readOptional, parsed] at read
      cases read
      exact ⟨text, parsed⟩

theorem addTransition_ok {library : ActionLibrary} {source : StateIndex} {t : TransitionDef}
    {d d' : Draft} {i : TransitionIndex} (run : (addTransition library source t).run d = .ok (i, d')) :
    i = d.transitions.size ∧ d'.states = d.states ∧ ∃ node : TransitionNode,
      d'.transitions = d.transitions.push node ∧ node.source = source ∧ node.targets = [] ∧
      Phrased node := by
  obtain ⟨document,d₁,run₁,run⟩ := bind_eq_ok run
  obtain ⟨events,d₂,run₂,run⟩ := bind_eq_ok run
  obtain ⟨condition,d₃,run₃,run⟩ := bind_eq_ok run
  obtain ⟨body,d₄,run₄,run⟩ := bind_eq_ok run
  obtain ⟨j,d₅,run₅,run⟩ := bind_eq_ok run
  have q₁ := freshDocument_quiet _ _ _ run₁
  have q₂ : Draft.Same _ _ := Keeps.mapM (fun _ => Keeps.lift _) _ _ _ _ run₂
  have q₃ : Draft.Same _ _ := Keeps.lift _ _ _ _ run₃
  have q₄ : Draft.Same _ _ := Keeps.lift _ _ _ _ run₄
  have states : d₄.states = d.states := q₄.1.trans (q₃.1.trans (q₂.1.trans q₁.1))
  have transitions : d₄.transitions = d.transitions := q₄.2.trans (q₃.2.trans (q₂.2.trans q₁.2))
  have phrased : ∀ cond, condition = some cond → ∃ text, Expr.parse text = .ok cond := by
    cases read : readOptional Expr.parse t.cond with
    | error f =>
      rw [read] at run₃
      cases run₃
    | ok found =>
      rw [read] at run₃
      cases run₃
      exact phrased_of_readOptional read
  cases run₅
  have added : i = d₄.transitions.size ∧ d'.states = d₄.states ∧ ∃ node : TransitionNode,
      d'.transitions = d₄.transitions.push node ∧ node.source = source ∧ node.targets = [] ∧
      Phrased node := by
    cases target : t.target with
    | none =>
      rw [target] at run
      cases run
      exact ⟨rfl, rfl, _, rfl, rfl, rfl, phrased⟩
    | some targets =>
      rw [target] at run
      cases run
      exact ⟨rfl, rfl, _, rfl, rfl, rfl, phrased⟩
  rw [← states, ← transitions]
  exact added

namespace Draft

variable {keep : Nat} {d d' : Draft}

theorem grows_push {node : TransitionNode} (states : d'.states = d.states)
    (pushed : d'.transitions = d.transitions.push node) (bare : node.targets = []) :
    Grows keep d d' where
  states_size := Nat.le_of_eq (congrArg Array.size states.symm)
  states s _ := by rw [state, state, states]
  transitions_size := by rw [pushed, Array.size_push]; omega
  transitions t ht := by
    simp [transition, pushed, Array.getD_eq_getD_getElem?, Array.getElem?_push, Nat.ne_of_lt ht]
  untargeted h := by
    intro t
    have old := h t
    simp only [transition, pushed, Array.getD_eq_getD_getElem?, Array.getElem?_push] at old ⊢
    split
    · exact bare
    · exact old

theorem transition_pushed {node : TransitionNode}
    (pushed : d'.transitions = d.transitions.push node) :
    d'.transition d.transitions.size = node := by
  simp [transition, pushed, Array.getD_eq_getD_getElem?]

theorem state_modify {f : StateNode → StateNode} {s i : Nat}
    (modified : d'.states = d.states.modify s f) (inside : s < d.states.size) :
    d'.state i = if i = s then f (d.state s) else d.state i := by
  simp only [state, modified, Array.getD_eq_getD_getElem?, Array.getElem?_modify]
  by_cases eq : i = s
  · subst eq
    simp [inside]
  · simp [eq, Ne.symm eq]

/-- The transitions of a state have it as their source. -/
def Own (d : Draft) (s : Nat) : Prop :=
  ∀ t : Nat, t ∈ (d.state s).transitions → t < d.transitions.size ∧ (d.transition t).source = s

/-- A later draft in which one state has got transitions or invokes, and no other has changed. -/
structure Dresses (s : Nat) (d d' : Draft) : Prop where
  grows : Grows s d d'
  size : d'.states.size = d.states.size
  others : ∀ i : Nat, i ≠ s → d'.state i = d.state i
  kind : (d'.state s).kind = (d.state s).kind
  parent : (d'.state s).parent = (d.state s).parent
  own : d.Own s → d'.Own s

variable {s : Nat} {d'' : Draft}

theorem Dresses.refl (s : Nat) (d : Draft) : Dresses s d d :=
  ⟨Grows.refl s d, rfl, fun _ _ => rfl, rfl, rfl, id⟩

theorem Dresses.trans (first : Dresses s d d') (second : Dresses s d' d'') : Dresses s d d'' where
  grows := first.grows.trans second.grows
  size := second.size.trans first.size
  others i ne := (second.others i ne).trans (first.others i ne)
  kind := second.kind.trans first.kind
  parent := second.parent.trans first.parent
  own h := second.own (first.own h)

/-- A change of one state that keeps its place in the tree, after a transition of it has been
    added. -/
theorem dresses_modify {f : StateNode → StateNode} (node : TransitionNode) (s : Nat)
    (inside : s < d.states.size) (modified : d'.states = d.states.modify s f)
    (transitions : d'.transitions = d.transitions ∨
      (d'.transitions = d.transitions.push node ∧ node.source = s ∧ node.targets = []))
    (kind : (f (d.state s)).kind = (d.state s).kind)
    (parent : (f (d.state s)).parent = (d.state s).parent)
    (own : ∀ t : Nat, t ∈ (f (d.state s)).transitions → t ∈ (d.state s).transitions ∨
      (t = d.transitions.size ∧ d'.transitions = d.transitions.push node)) : Dresses s d d' := by
  have size : d'.states.size = d.states.size := by rw [modified, Array.size_modify]
  have at_s : d'.state s = f (d.state s) := by rw [state_modify modified inside, if_pos rfl]
  have others : ∀ i : Nat, i ≠ s → d'.state i = d.state i := by
    intro i ne
    rw [state_modify modified inside, if_neg ne]
  have grown : Grows 0 d { d' with states := d.states } := by
    rcases transitions with same | ⟨pushed,_,bare⟩
    · exact grows_of_eq rfl same
    · exact grows_push rfl pushed bare
  refine
    { grows :=
        { states_size := Nat.le_of_eq size.symm, states := fun i hi => others i (Nat.ne_of_lt hi)
          transitions_size := grown.transitions_size, transitions := grown.transitions
          untargeted := grown.untargeted }
      size, others, kind := by rw [at_s, kind], parent := by rw [at_s, parent], own := ?_ }
  intro had t ht
  rw [at_s] at ht
  rcases own t ht with old | ⟨rfl,pushed⟩
  · obtain ⟨small,source⟩ := had t old
    exact ⟨Nat.lt_of_lt_of_le small grown.transitions_size,
      (congrArg TransitionNode.source (grown.transitions t small)).trans source⟩
  · rcases transitions with same | ⟨pushed',source,_⟩
    · rw [same] at pushed
      have sizes := congrArg Array.size pushed
      rw [Array.size_push] at sizes
      omega
    · refine ⟨by rw [pushed', Array.size_push]; omega, ?_⟩
      rw [transition_pushed pushed']
      exact source

end Draft

theorem pushState_ok {node : StateNode} {d d' : Draft} {u : Unit}
    (run : (pushState node).run d = .ok (u, d')) :
    d'.states = d.states.push node ∧ d'.transitions = d.transitions := by
  cases run
  exact ⟨rfl, rfl⟩

theorem modifyState_ok {s : Nat} {f : StateNode → StateNode} {d d' : Draft} {u : Unit}
    (run : (modifyState s f).run d = .ok (u, d')) :
    d'.states = d.states.modify s f ∧ d'.transitions = d.transitions := by
  cases run
  exact ⟨rfl, rfl⟩

theorem pushTransition_ok {node : TransitionNode} {d d' : Draft} {i : TransitionIndex}
    (run : (pushTransition node).run d = .ok (i, d')) :
    i = d.transitions.size ∧ d'.states = d.states ∧ d'.transitions = d.transitions.push node := by
  cases run
  exact ⟨rfl, rfl, rfl⟩

theorem addTransitions_dresses {library : ActionLibrary} {s : Nat} {id : String} {kind : StateKind}
    {ts : List TransitionDef} {d d' : Draft} {u : Unit} (inside : s < d.states.size)
    (run : (addTransitions library s id kind ts).run d = .ok (u, d')) : Draft.Dresses s d d' := by
  induction ts generalizing d with
  | nil =>
    cases run
    exact Draft.Dresses.refl s _
  | cons t rest ih =>
    obtain ⟨i,d₁,run₁,run⟩ := bind_eq_ok run
    obtain ⟨rfl,states,node,pushed,source,bare,_⟩ := addTransition_ok run₁
    have dressed : ∀ {d₂ : Draft} {f : StateNode → StateNode},
        d₂.states = d₁.states.modify s f → d₂.transitions = d₁.transitions →
        (f (d.state s)).kind = (d.state s).kind → (f (d.state s)).parent = (d.state s).parent →
        (∀ t : Nat, t ∈ (f (d.state s)).transitions →
          t ∈ (d.state s).transitions ∨ t = d.transitions.size) → Draft.Dresses s d d₂ := by
      intro d₂ f modified same kind parent own
      refine Draft.dresses_modify node s inside (states ▸ modified)
        (Or.inr ⟨same.trans pushed, source, bare⟩) kind parent ?_
      intro t ht
      rcases own t ht with old | new
      · exact Or.inl old
      · exact Or.inr ⟨new, same.trans pushed⟩
    by_cases history : isHistoryKind kind = true
    · simp only [history, if_true] at run
      obtain ⟨d₁',d₁'',got,run⟩ := bind_eq_ok run
      cases got
      split at run
      · obtain ⟨_,_,rejected,_⟩ := bind_eq_ok run
        cases rejected
      · obtain ⟨_,d₂,run₂,run⟩ := bind_eq_ok run
        cases run₂
        have first : Draft.Dresses s d { d₁ with states := d₁.states.modify s fun n =>
            { n with initial := some d.transitions.size } } :=
          dressed (f := fun n => { n with initial := some d.transitions.size })
            rfl rfl rfl rfl fun t ht => Or.inl ht
        exact first.trans (ih (first.size ▸ inside) run)
    · simp only [history] at run
      obtain ⟨_,d₂,run₂,run⟩ := bind_eq_ok run
      cases run₂
      have first : Draft.Dresses s d { d₁ with states := d₁.states.modify s fun n =>
          { n with transitions := n.transitions ++ [d.transitions.size] } } :=
        dressed (f := fun n => { n with transitions := n.transitions ++ [d.transitions.size] })
          rfl rfl rfl rfl fun t ht =>
            (List.mem_append.mp ht).imp (fun h => h) List.mem_singleton.mp
      exact first.trans (ih (first.size ▸ inside) run)

namespace Draft

variable {keep : Nat} {d d' : Draft}

/-- A state is a leaf if it has to be, its transitions are its own, and it can be entered. -/
structure Fits (d : Draft) (i : Nat) : Prop where
  leaf : (d.state i).kind = .final ∨ isHistoryKind (d.state i).kind = true →
    (d.state i).children = []
  own : d.Own i
  initial : (d.state i).kind = .state → (d.state i).children ≠ [] →
    ∃ t : Nat, (d.state i).initial = some t ∧ t < d.transitions.size ∧
      (d.transition t).source = i ∧ (d.transition t).kind = .internal

theorem state_out_of_range (d : Draft) {i : Nat} (outside : d.states.size ≤ i) :
    d.state i = default := by
  simp [state, Array.getD_eq_getD_getElem?, Array.getElem?_eq_none outside]

theorem Fits.of_default {i : Nat} (nothing : d.state i = default) : d.Fits i where
  leaf _ := by
    rw [nothing]
    rfl
  own t ht := by
    rw [nothing] at ht
    cases ht
  initial _ inner := by
    rw [nothing] at inner
    exact absurd rfl inner

theorem Fits.grow {i : Nat} (fits : d.Fits i) (same : d'.state i = d.state i)
    (grows : Grows keep d d') : d'.Fits i where
  leaf := by
    rw [same]
    exact fits.leaf
  own t := by
    rw [same]
    intro ht
    obtain ⟨small,source⟩ := fits.own t ht
    exact ⟨Nat.lt_of_lt_of_le small grows.transitions_size,
      by rw [grows.transitions t small]; exact source⟩
  initial := by
    rw [same]
    intro kind some
    obtain ⟨t,enters,small,source,internal⟩ := fits.initial kind some
    refine ⟨t, enters, Nat.lt_of_lt_of_le small grows.transitions_size, ?_⟩
    rw [grows.transitions t small]
    exact ⟨source, internal⟩

/-- The states from `lo` up to `hi` are the trees below `tops`, which are children of `outer`. -/
structure Forest (d : Draft) (outer : Option Nat) (tops : List Nat) (lo hi : Nat) : Prop where
  ordered : lo ≤ hi
  tops_inside : ∀ k ∈ tops, lo ≤ k ∧ k < hi
  tops_parent : ∀ k ∈ tops, (d.state k).parent = outer
  inner_parent : ∀ i : Nat, lo ≤ i → i < hi → i ∉ tops →
    ∃ p : Nat, (d.state i).parent = some p ∧ lo ≤ p ∧ p < i
  children : ∀ i k : Nat, lo ≤ i → i < hi →
    (k ∈ (d.state i).children ↔ lo ≤ k ∧ k < hi ∧ (d.state k).parent = some i)
  fits : ∀ i : Nat, lo ≤ i → i < hi → d.Fits i
  /-- Between a state and its parent there are only states inside the parent. -/
  nested : ∀ i p k : Nat, lo ≤ k → k < i → i < hi → (d.state i).parent = some p → p < k →
    ∃ q : Nat, (d.state k).parent = some q ∧ p ≤ q

namespace Forest

variable {outer : Option Nat} {tops tops' : List Nat} {lo mid hi : Nat}

theorem empty (d : Draft) (outer : Option Nat) (lo : Nat) : Forest d outer [] lo lo where
  ordered := Nat.le_refl lo
  tops_inside k hk := by cases hk
  tops_parent k hk := by cases hk
  inner_parent i low high := by omega
  children i k low high := by omega
  fits i low high := by omega
  nested i p k low before high := by omega

theorem grow {d' : Draft} (forest : Forest d outer tops lo hi)
    (same : ∀ i : Nat, lo ≤ i → i < hi → d'.state i = d.state i) (grows : Grows keep d d') :
    Forest d' outer tops lo hi where
  ordered := forest.ordered
  tops_inside := forest.tops_inside
  tops_parent k hk := by
    obtain ⟨low,high⟩ := forest.tops_inside k hk
    rw [same k low high]
    exact forest.tops_parent k hk
  inner_parent i low high other := by
    rw [same i low high]
    exact forest.inner_parent i low high other
  children i k low high := by
    rw [same i low high, forest.children i k low high]
    refine and_congr_right fun low' => and_congr_right fun high' => ?_
    rw [same k low' high']
  fits i low high := (forest.fits i low high).grow (same i low high) grows
  nested i p k low before high := by
    rw [same i (by omega) high, same k low (by omega)]
    exact forest.nested i p k low before high

theorem parent_cases (forest : Forest d outer tops lo hi) {k p : Nat} (low : lo ≤ k)
    (high : k < hi) (hp : (d.state k).parent = some p) : outer = some p ∨ (lo ≤ p ∧ p < k) := by
  by_cases top : k ∈ tops
  · exact Or.inl ((forest.tops_parent k top).symm.trans hp)
  · obtain ⟨q,hq,bounds⟩ := forest.inner_parent k low high top
    rw [hp] at hq
    cases hq
    exact Or.inr bounds

theorem parent_exists (forest : Forest d outer tops lo hi) {k p : Nat} (low : lo ≤ k)
    (high : k < hi) (around : outer = some p) (out : p < lo) :
    ∃ q : Nat, (d.state k).parent = some q ∧ p ≤ q := by
  by_cases top : k ∈ tops
  · exact ⟨p, (forest.tops_parent k top).trans around, Nat.le_refl p⟩
  · obtain ⟨q,hq,bounds⟩ := forest.inner_parent k low high top
    exact ⟨q, hq, by omega⟩

theorem append (left : Forest d outer tops lo mid) (right : Forest d outer tops' mid hi)
    (outside : ∀ p, outer = some p → p < lo) : Forest d outer (tops ++ tops') lo hi := by
  have before := left.ordered
  have after := right.ordered
  refine ⟨Nat.le_trans before after, ?_, ?_, ?_, ?_, ?_, ?_⟩
  · intro k hk
    rcases List.mem_append.mp hk with hk | hk
    · have inside := left.tops_inside k hk
      omega
    · have inside := right.tops_inside k hk
      omega
  · intro k hk
    rcases List.mem_append.mp hk with hk | hk
    · exact left.tops_parent k hk
    · exact right.tops_parent k hk
  · intro i low high other
    rw [List.mem_append, not_or] at other
    by_cases first : i < mid
    · exact left.inner_parent i low first other.1
    · obtain ⟨p,hp,bounds⟩ := right.inner_parent i (by omega) high other.2
      exact ⟨p, hp, by omega⟩
  · intro i k low high
    by_cases first : i < mid
    · rw [left.children i k low first]
      constructor
      · rintro ⟨low',high',hk⟩
        exact ⟨low', by omega, hk⟩
      · rintro ⟨low',high',hk⟩
        refine ⟨low', ?_, hk⟩
        by_cases far : k < mid
        · exact far
        · rcases right.parent_cases (by omega) high' hk with out | bounds
          · have := outside i out
            omega
          · omega
    · rw [right.children i k (by omega) high]
      constructor
      · rintro ⟨low',high',hk⟩
        exact ⟨by omega, high', hk⟩
      · rintro ⟨low',high',hk⟩
        refine ⟨?_, high', hk⟩
        by_cases near : mid ≤ k
        · exact near
        · rcases left.parent_cases low' (by omega) hk with out | bounds
          · have := outside i out
            omega
          · omega
  · intro i low high
    by_cases first : i < mid
    · exact left.fits i low first
    · exact right.fits i (by omega) high
  · intro i p k low earlier high hp above
    by_cases first : i < mid
    · exact left.nested i p k low earlier first hp above
    · rcases right.parent_cases (by omega) high hp with out | bounds
      · have far := outside p out
        by_cases near : k < mid
        · exact left.parent_exists low near out far
        · exact right.parent_exists (by omega) (by omega) out (by omega)
      · exact right.nested i p k (by omega) earlier high hp above

theorem tree (forest : Forest d (some lo) tops (lo + 1) hi) (parent : (d.state lo).parent = outer)
    (children : (d.state lo).children = tops) (fits : d.Fits lo)
    (outside : ∀ p, outer = some p → p < lo) : Forest d outer [lo] lo hi := by
  have ordered := forest.ordered
  have one : ∀ k, k ∈ [lo] ↔ k = lo := fun k => List.mem_singleton
  refine ⟨by omega, ?_, ?_, ?_, ?_, ?_, ?_⟩
  · intro k hk
    rw [one] at hk
    omega
  · intro k hk
    rw [(one k).mp hk]
    exact parent
  · intro i low high other
    rw [one] at other
    by_cases top : i ∈ tops
    · exact ⟨lo, forest.tops_parent i top, by omega⟩
    · obtain ⟨p,hp,bounds⟩ := forest.inner_parent i (by omega) high top
      exact ⟨p, hp, by omega⟩
  · intro i k low high
    by_cases first : i = lo
    · subst first
      rw [children]
      constructor
      · intro hk
        have inside := forest.tops_inside k hk
        exact ⟨by omega, inside.2, forest.tops_parent k hk⟩
      · rintro ⟨low',high',hk⟩
        by_cases top : k ∈ tops
        · exact top
        · by_cases self : k = i
          · subst self
            rw [parent] at hk
            have := outside k hk
            omega
          · obtain ⟨p,hp,bounds⟩ := forest.inner_parent k (by omega) high' top
            rw [hk] at hp
            cases hp
            omega
    · rw [forest.children i k (by omega) high]
      constructor
      · rintro ⟨low',high',hk⟩
        exact ⟨by omega, high', hk⟩
      · rintro ⟨low',high',hk⟩
        refine ⟨?_, high', hk⟩
        by_cases self : k = lo
        · subst self
          rw [parent] at hk
          have := outside i hk
          omega
        · omega
  · intro i low high
    by_cases first : i = lo
    · subst first
      exact fits
    · exact forest.fits i (by omega) high
  · intro i p k low earlier high hp above
    by_cases first : k = lo
    · subst first
      rcases forest.parent_cases (by omega) high hp with around | bounds
      · cases around
        omega
      · omega
    · exact forest.nested i p k (by omega) earlier high hp above

end Forest

/-- A draft to which one state without children has been added. -/
structure Topped (d d' : Draft) (parent : Option Nat) (kind : StateKind) : Prop where
  grows : Grows d.states.size d d'
  size : d'.states.size = d.states.size + 1
  parent : (d'.state d.states.size).parent = parent
  kind : (d'.state d.states.size).kind = kind
  own : d'.Own d.states.size

theorem topped_push {node : StateNode} (states : d'.states = d.states.push node)
    (transitions : d'.transitions = d.transitions) (bare : node.transitions = []) :
    Topped d d' node.parent node.kind := by
  have top : d'.state d.states.size = node := by
    simp [state, states, Array.getD_eq_getD_getElem?]
  have grown : Grows 0 d { d' with states := d.states } := grows_of_eq rfl transitions
  refine
    { grows :=
        { states_size := by rw [states, Array.size_push]; omega
          states := ?_, transitions_size := grown.transitions_size
          transitions := grown.transitions, untargeted := grown.untargeted }
      size := by rw [states, Array.size_push], parent := by rw [top], kind := by rw [top]
      own := ?_ }
  · intro s hs
    simp [state, states, Array.getD_eq_getD_getElem?, Array.getElem?_push, Nat.ne_of_lt hs]
  · intro t ht
    rw [top, bare] at ht
    cases ht

theorem Topped.dress {parent : Option Nat} {kind : StateKind} (topped : Topped d d' parent kind)
    (dresses : Dresses d.states.size d' d'') : Topped d d'' parent kind where
  grows := topped.grows.trans dresses.grows
  size := dresses.size.trans topped.size
  parent := dresses.parent.trans topped.parent
  kind := dresses.kind.trans topped.kind
  own := dresses.own topped.own

/-- A top that has got its children. -/
theorem Topped.tree {parent : Option Nat} {kind : StateKind} {kids : List Nat} {e f : Draft}
    (topped : Topped d d' parent kind) (outside : ∀ p, parent = some p → p < d.states.size)
    (grows : Grows d'.states.size d' e)
    (forest : Forest e (some d.states.size) kids (d.states.size + 1) e.states.size)
    (dresses : Dresses d.states.size e f) (children : (f.state d.states.size).children = kids)
    (leaf : kind = .final ∨ isHistoryKind kind = true → kids = [])
    (initial : kind = .state → kids ≠ [] → ∃ t : Nat, (f.state d.states.size).initial = some t ∧
      t < f.transitions.size ∧ (f.transition t).source = d.states.size ∧
      (f.transition t).kind = .internal) :
    Grows d.states.size d f ∧ d.states.size < f.states.size ∧
      (f.state d.states.size).kind = kind ∧
      Forest f parent [d.states.size] d.states.size f.states.size := by
  have size := topped.size
  have top : e.state d.states.size = d'.state d.states.size := grows.states _ (by omega)
  have kind' : (f.state d.states.size).kind = kind := by rw [dresses.kind, top, topped.kind]
  have own : f.Own d.states.size := by
    refine dresses.own fun t ht => ?_
    rw [top] at ht
    obtain ⟨small,source⟩ := topped.own t ht
    exact ⟨Nat.lt_of_lt_of_le small grows.transitions_size,
      by rw [grows.transitions t small]; exact source⟩
  have fits : f.Fits d.states.size := by
    refine ⟨?_, own, ?_⟩
    · rw [kind', children]
      exact leaf
    · rw [kind', children]
      exact initial
  have inner : Forest f (some d.states.size) kids (d.states.size + 1) f.states.size := by
    rw [dresses.size]
    exact forest.grow (fun i low _ => dresses.others i (by omega)) dresses.grows
  refine ⟨?_, ?_, kind', ?_⟩
  · exact topped.grows.trans ((grows.weaken (by omega)).trans dresses.grows)
  · have := grows.states_size
    have := dresses.size
    omega
  · refine inner.tree ?_ children fits outside
    rw [dresses.parent, top, topped.parent]

end Draft

end Compile

end Statechart

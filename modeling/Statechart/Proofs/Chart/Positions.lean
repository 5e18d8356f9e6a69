import Statechart.Proofs.Chart.Preorder

/- Which positions belong to which states.

   Every position that is given out goes to a state, an invoke or a transition, so all together have
   the positions from zero on, each once. A state is added in one go with all that is inside it: what
   comes meanwhile belongs to states inside, and what comes later does not, except that a state outside
   may get its entry. So the positions of a subtree are one stretch. -/
namespace Statechart

namespace Chart

def statePositions (c : Chart) (s : StateIndex) : List (StateIndex × DocumentId) :=
  (s, (c.state s).document) :: (c.state s).invokes.map fun i => (s, i.document)

/-- All positions in a chart, of states, invokes and transitions, with the state that each belongs
    to. -/
def positions (c : Chart) : List (StateIndex × DocumentId) :=
  c.indices.flatMap c.statePositions ++ (List.range c.transitions.size).map fun t =>
    ((c.transition t).source, (c.transition t).document)

end Chart

namespace Compile

open Source

namespace Draft

/-- How many positions have been given out. -/
def given (d : Draft) : Nat := d.nextDocument

def position (d : Draft) (s : Nat) : Nat := (d.state s).document

def statePositions (d : Draft) (s : Nat) : List (Nat × Nat) :=
  (s, (d.state s).document) :: (d.state s).invokes.map fun i => (s, i.document)

def positions (d : Draft) : List (Nat × Nat) :=
  (List.range d.states.size).flatMap d.statePositions ++ (List.range d.transitions.size).map fun t =>
    ((d.transition t).source, (d.transition t).document)

def transitionDocuments (d : Draft) : List Nat :=
  (List.range d.transitions.size).map fun t => (d.transition t).document

/-- Ascending numbers from `low` up to `high` have been added to a list. -/
def Continues (low high : Nat) (l l' : List Nat) : Prop :=
  ∃ more, l' = l ++ more ∧ more.Pairwise (· < ·) ∧ ∀ n ∈ more, low ≤ n ∧ n < high

/-- What has been added: states inside of `hosts` or of other new states, and positions that belong to
    `owners` or to new states. The positions are all those that have been given out meanwhile. -/
structure Adds (hosts owners : Nat → Prop) (d d' : Draft) : Prop where
  size : d.states.size ≤ d'.states.size
  given : d.given ≤ d'.given
  parent : ∀ s : Nat, s < d.states.size → (d'.state s).parent = (d.state s).parent
  document : ∀ s : Nat, s < d.states.size → (d'.state s).document = (d.state s).document
  hosted : ∀ s p : Nat, d.states.size ≤ s → (d'.state s).parent = some p →
    (hosts p ∨ d.states.size ≤ p) ∧ p < s
  numbered : Continues d.given d'.given d.transitionDocuments d'.transitionDocuments
  owned : ∃ more : List (Nat × Nat), d'.positions.Perm (d.positions ++ more) ∧
    (more.map (·.2)).Perm (List.range' d.given (d'.given - d.given)) ∧
    ∀ e ∈ more, (owners e.1 ∨ d.states.size ≤ e.1) ∧ e.1 < d'.states.size

variable {hosts owners hosts' owners' : Nat → Prop} {d d' d'' : Draft} {s : Nat}

theorem Continues.refl (low : Nat) (l : List Nat) : Continues low low l l :=
  ⟨[], by simp, List.Pairwise.nil, by simp⟩

theorem Continues.trans {low mid high : Nat} {l l' l'' : List Nat} (up : low ≤ mid)
    (up' : mid ≤ high) (first : Continues low mid l l') (second : Continues mid high l' l'') :
    Continues low high l l'' := by
  obtain ⟨more,rfl,ordered,bounds⟩ := first
  obtain ⟨more',rfl,ordered',bounds'⟩ := second
  refine ⟨more ++ more', by simp, ?_, ?_⟩
  · apply List.pairwise_append.mpr
    refine ⟨ordered, ordered', ?_⟩
    intro a ha b hb
    have before := bounds a ha
    have after := bounds' b hb
    omega
  · intro n hn
    rcases List.mem_append.mp hn with old | new
    · have bound := bounds n old
      omega
    · have bound := bounds' n new
      omega

namespace Adds

theorem trans (first : Adds hosts owners d d') (second : Adds hosts' owners' d' d'')
    (hosted : ∀ p, hosts' p → hosts p ∨ d.states.size ≤ p)
    (owned : ∀ o, owners' o → owners o ∨ d.states.size ≤ o) : Adds hosts owners d d'' := by
  have larger := first.size
  have larger' := second.size
  have further := first.given
  have further' := second.given
  constructor
  · omega
  · omega
  · intro s hs
    rw [second.parent s (by omega), first.parent s hs]
  · intro s hs
    rw [second.document s (by omega), first.document s hs]
  · intro s p hs hp
    by_cases early : s < d'.states.size
    · rw [second.parent s early] at hp
      exact first.hosted s p hs hp
    · obtain ⟨at_host,before⟩ := second.hosted s p (by omega) hp
      refine ⟨?_, before⟩
      rcases at_host with host | new
      · exact hosted p host
      · exact Or.inr (by omega)
  · exact first.numbered.trans further further' second.numbered
  · obtain ⟨more,same,docs,own⟩ := first.owned
    obtain ⟨more',same',docs',own'⟩ := second.owned
    refine ⟨more ++ more', ?_, ?_, ?_⟩
    · rw [← List.append_assoc]
      exact same'.trans (same.append_right more')
    · rw [List.map_append]
      have stretch : List.range' d.given (d''.given - d.given)
          = List.range' d.given (d'.given - d.given)
            ++ List.range' d'.given (d''.given - d'.given) := by
        have joined := List.range'_append_1 (s := d.given) (m := d'.given - d.given)
          (n := d''.given - d'.given)
        rw [show d.given + (d'.given - d.given) = d'.given by omega,
          show d'.given - d.given + (d''.given - d'.given) = d''.given - d.given by omega] at joined
        exact joined.symm
      rw [stretch]
      exact docs.append docs'
    · intro e he
      rcases List.mem_append.mp he with old | new
      · have bound := own e old
        exact ⟨bound.1, by omega⟩
      · obtain ⟨at_owner,inside⟩ := own' e new
        refine ⟨?_, inside⟩
        rcases at_owner with owner | late
        · exact owned e.1 owner
        · exact Or.inr (by omega)

theorem mono (adds : Adds hosts owners d d') (more : ∀ p, hosts p → hosts' p)
    (more' : ∀ o, owners o → owners' o) : Adds hosts' owners' d d' :=
  { adds with
    hosted := fun s p hs hp =>
      (adds.hosted s p hs hp).imp (fun h => h.imp (more p) id) id
    owned := by
      obtain ⟨l,same,docs,own⟩ := adds.owned
      exact ⟨l, same, docs, fun e he => (own e he).imp (fun h => h.imp (more' e.1) id) id⟩ }

end Adds

theorem state_unlisted (outside : d.states.size ≤ s) : d.state s = default := by
  simp [state, Array.getD_eq_getD_getElem?, Array.getElem?_eq_none outside]

theorem transition_old {node : TransitionNode} (pushed : d'.transitions = d.transitions.push node)
    {t : Nat} (old : t < d.transitions.size) : d'.transition t = d.transition t := by
  simp [transition, pushed, Array.getD_eq_getD_getElem?, Array.getElem?_push, Nat.ne_of_lt old]

theorem range_pushed {node : TransitionNode} (pushed : d'.transitions = d.transitions.push node)
    {α : Type} (part : TransitionNode → α) :
    (List.range d'.transitions.size).map (fun t => part (d'.transition t))
      = (List.range d.transitions.size).map (fun t => part (d.transition t)) ++ [part node] := by
  rw [pushed, Array.size_push, List.range_succ, List.map_append, List.map_singleton,
    transition_pushed pushed]
  congr 1
  apply List.map_congr_left
  intro t ht
  rw [transition_old pushed (List.mem_range.mp ht)]

theorem statePositions_congr (document : (d'.state s).document = (d.state s).document)
    (invokes : (d'.state s).invokes = (d.state s).invokes) :
    d'.statePositions s = d.statePositions s := by
  rw [statePositions, statePositions, document, invokes]

/-- Nothing is added that has a position. -/
theorem adds_unnumbered (size : d'.states.size = d.states.size)
    (parent : ∀ s : Nat, (d'.state s).parent = (d.state s).parent)
    (document : ∀ s : Nat, (d'.state s).document = (d.state s).document)
    (invokes : ∀ s : Nat, (d'.state s).invokes = (d.state s).invokes)
    (transitions : d'.transitions = d.transitions) (given : d'.given = d.given) :
    Adds hosts owners d d' := by
  constructor
  · omega
  · omega
  · exact fun s _ => parent s
  · exact fun s _ => document s
  · intro s p hs hp
    rw [parent, state_unlisted hs] at hp
    cases hp
  · have listed : d'.transitionDocuments = d.transitionDocuments := by
      simp only [transitionDocuments, transition, transitions]
    rw [listed, given]
    exact .refl _ _
  · have same : d'.positions = d.positions := by
      simp only [positions, transition, transitions, size]
      congr 2
      funext s
      exact statePositions_congr (document s) (invokes s)
    refine ⟨[], ?_, by simp [given], by simp⟩
    rw [same, List.append_nil]

/-- A transition is added at the next position. -/
theorem adds_transition {node : TransitionNode} (states : d'.states = d.states)
    (pushed : d'.transitions = d.transitions.push node) (inside : node.source < d.states.size)
    (owner : owners node.source) (document : node.document = d.given) (given : d'.given = d.given + 1) :
    Adds hosts owners d d' := by
  have state : ∀ s : Nat, d'.state s = d.state s := fun s => by
    rw [Draft.state, Draft.state, states]
  have size : d'.states.size = d.states.size := congrArg Array.size states
  constructor
  · omega
  · omega
  · exact fun s _ => congrArg (·.parent) (state s)
  · exact fun s _ => congrArg (·.document) (state s)
  · intro s p hs hp
    rw [state, state_unlisted hs] at hp
    cases hp
  · refine ⟨[d.given], ?_, List.pairwise_singleton _ _, ?_⟩
    · rw [transitionDocuments, range_pushed pushed (·.document), document]
      rfl
    · intro n hn
      rw [List.mem_singleton] at hn
      omega
  · refine ⟨[(node.source, d.given)], ?_, ?_, ?_⟩
    · have own : d'.statePositions = d.statePositions := by
        funext s
        exact statePositions_congr (by rw [state]) (by rw [state])
      rw [positions, range_pushed pushed fun n => (n.source, n.document), own, size, document,
        ← List.append_assoc]
      exact .refl _
    · simp [given]
    · intro e he
      rw [List.mem_singleton] at he
      subst he
      exact ⟨Or.inl owner, size ▸ inside⟩

/-- A state is added at the next position. -/
theorem adds_state {node : StateNode} (pushed : d'.states = d.states.push node)
    (transitions : d'.transitions = d.transitions)
    (parent : ∀ p : Nat, node.parent = some p → hosts p ∧ p < d.states.size)
    (invokes : node.invokes = []) (document : node.document = d.given)
    (given : d'.given = d.given + 1) : Adds hosts owners d d' := by
  have size : d'.states.size = d.states.size + 1 := by rw [pushed, Array.size_push]
  have old : ∀ s : Nat, s < d.states.size → d'.state s = d.state s := by
    intro s hs
    rw [state_pushed pushed, if_neg (by omega)]
  have last : d'.state d.states.size = node := by rw [state_pushed pushed, if_pos rfl]
  constructor
  · omega
  · omega
  · exact fun s hs => congrArg (·.parent) (old s hs)
  · exact fun s hs => congrArg (·.document) (old s hs)
  · intro s p hs hp
    rw [state_pushed pushed] at hp
    split at hp
    · obtain ⟨host,before⟩ := parent p hp
      exact ⟨Or.inl host, by omega⟩
    · rw [state_unlisted hs] at hp
      cases hp
  · have listed : d'.transitionDocuments = d.transitionDocuments := by
      simp only [transitionDocuments, transition, transitions]
    exact ⟨[], by simp [listed], List.Pairwise.nil, by simp⟩
  · have own : d'.statePositions d.states.size = [(d.states.size, d.given)] := by
      rw [statePositions, last, invokes, document]
      rfl
    have others : (List.range d.states.size).flatMap d'.statePositions
        = (List.range d.states.size).flatMap d.statePositions := by
      apply List.flatMap_congr
      intro s hs
      have same := old s (List.mem_range.mp hs)
      exact statePositions_congr (by rw [same]) (by rw [same])
    refine ⟨[(d.states.size, d.given)], ?_, by simp [given], ?_⟩
    · rw [positions, size, List.range_succ, List.flatMap_append, List.flatMap_singleton, own, others,
        positions, List.append_assoc, List.append_assoc]
      simp only [transition, transitions]
      exact .append_left _ List.perm_append_comm
    · intro e he
      rw [List.mem_singleton] at he
      subst he
      exact ⟨Or.inr (Nat.le_refl _), by omega⟩

/-- The last state gets invokes at the next positions. -/
theorem adds_invokes {f : StateNode → StateNode} {more : List InvokeNode}
    (last : s + 1 = d.states.size) (modified : d'.states = d.states.modify s f)
    (transitions : d'.transitions = d.transitions) (owner : owners s)
    (parent : (f (d.state s)).parent = (d.state s).parent)
    (document : (f (d.state s)).document = (d.state s).document)
    (none : (d.state s).invokes = []) (invokes : (f (d.state s)).invokes = more)
    (numbered : more.map (·.document) = List.range' d.given more.length)
    (given : d'.given = d.given + more.length) : Adds hosts owners d d' := by
  have size : d'.states.size = d.states.size := by rw [modified, Array.size_modify]
  have state : ∀ i : Nat, d'.state i = if i = s then f (d.state s) else d.state i :=
    fun i => state_modify modified (by omega)
  constructor
  · omega
  · omega
  · intro i _
    rw [state]
    split
    · rename_i eq
      rw [parent, eq]
    · rfl
  · intro i _
    rw [state]
    split
    · rename_i eq
      rw [document, eq]
    · rfl
  · intro i p hi hp
    rw [state, if_neg (by omega), state_unlisted hi] at hp
    cases hp
  · have listed : d'.transitionDocuments = d.transitionDocuments := by
      simp only [transitionDocuments, transition, transitions]
    exact ⟨[], by simp [listed], List.Pairwise.nil, by simp⟩
  · have own : d'.statePositions s = d.statePositions s ++ more.map fun i => (s, i.document) := by
      rw [statePositions, statePositions, state, if_pos rfl, invokes, document, none]
      rfl
    have others : (List.range s).flatMap d'.statePositions
        = (List.range s).flatMap d.statePositions := by
      apply List.flatMap_congr
      intro i hi
      have other : d'.state i = d.state i := by
        rw [state, if_neg (by have := List.mem_range.mp hi; omega)]
      exact statePositions_congr (by rw [other]) (by rw [other])
    refine ⟨more.map fun i => (s, i.document), ?_, ?_, ?_⟩
    · rw [positions, positions, size, ← last, List.range_succ, List.flatMap_append,
        List.flatMap_append, List.flatMap_singleton, List.flatMap_singleton, own, others]
      simp only [transition, transitions, List.append_assoc]
      exact .append_left _ (.append_left _ List.perm_append_comm)
    · rw [given, Nat.add_sub_cancel_left, ← numbered, List.map_map]
      exact .refl _
    · intro e he
      obtain ⟨i,_,rfl⟩ := List.mem_map.mp he
      exact ⟨Or.inl owner, by omega⟩

/-- One state gets positions. -/
def Fills (s : Nat) (d d' : Draft) : Prop :=
  s < d.states.size → Adds (fun _ => False) (· = s) d d'

/-- Some part of every state is as it was. -/
def Alike {α : Type} (part : StateNode → α) (d d' : Draft) : Prop :=
  ∀ s : Nat, part (d'.state s) = part (d.state s)

end Draft

instance (s : Nat) : Lasting (Draft.Fills s) where
  refl d _ := Draft.adds_unnumbered rfl (fun _ => rfl) (fun _ => rfl) (fun _ => rfl) rfl rfl
  trans first second inside := by
    have before := first inside
    have larger := before.size
    exact before.trans (second (by omega)) (fun p hp => hp.elim) (fun o ho => Or.inl ho)

instance {α : Type} (part : StateNode → α) : Lasting (Draft.Alike part) where
  refl _ _ := rfl
  trans first second s := (second s).trans (first s)

section Parts

variable {α β : Type} {library : ActionLibrary} {s : Nat}

theorem Draft.Idle.adds {d d' : Draft} (idle : d.Idle d') {hosts owners : Nat → Prop} :
    d.Adds hosts owners d' := by
  have state : ∀ s : Nat, d'.state s = d.state s := fun s => by
    rw [Draft.state, Draft.state, idle.states]
  apply Draft.adds_unnumbered (congrArg Array.size idle.states)
  · exact fun s => congrArg (·.parent) (state s)
  · exact fun s => congrArg (·.document) (state s)
  · exact fun s => congrArg (·.invokes) (state s)
  · exact idle.transitions
  · exact idle.idle

theorem Keeps.alike {x : CompileM α} (part : StateNode → β) (quiet : Quiet x) :
    Keeps (Draft.Alike part) x := by
  intro d a d' run s
  rw [Draft.state, Draft.state, (quiet d a d' run).states]

theorem modifyState_alike (part : StateNode → β) (s : Nat) {f : StateNode → StateNode}
    (kept : ∀ n, part (f n) = part n) : Keeps (Draft.Alike part) (modifyState s f) := by
  intro d u d' run i
  cases run
  simp only [Draft.state, Array.getD_eq_getD_getElem?, Array.getElem?_modify]
  split
  · cases d.states[i]? with
    | none => rfl
    | some n => exact kept n
  · rfl

theorem pushTransition_alike (part : StateNode → β) (n : TransitionNode) :
    Keeps (Draft.Alike part) (pushTransition n) := by
  intro d i d' run
  cases run
  exact fun _ => rfl

theorem addTransitions_alike (part : StateNode → β)
    (initial : ∀ n i, part { n with initial := i } = part n)
    (listed : ∀ n l, part { n with transitions := l } = part n) (id : String) (kind : StateKind)
    (ts : List TransitionDef) :
    Keeps (Draft.Alike part) (addTransitions library s id kind ts) := by
  apply addTransitions_keeps
  · exact addTransition_keeps (.alike part freshDocument_quiet) (pushTransition_alike part)
      (fun _ _ => .alike part (addPending_quiet _ _)) library s
  · exact fun i => modifyState_alike part s fun n => initial n (some i)
  · exact fun i => modifyState_alike part s fun n => listed n (n.transitions ++ [i])

/-- A change of a state that leaves its place and its positions alone. -/
theorem modifyState_adds {i : Nat} {f : StateNode → StateNode}
    (parent : ∀ n, (f n).parent = n.parent) (document : ∀ n, (f n).document = n.document)
    (invokes : ∀ n, (f n).invokes = n.invokes) {hosts owners : Nat → Prop} :
    Keeps (Draft.Adds hosts owners) (modifyState i f) := by
  intro d u d' run
  have parents := modifyState_alike (·.parent) i parent d u d' run
  have documents := modifyState_alike (·.document) i document d u d' run
  have services := modifyState_alike (·.invokes) i invokes d u d' run
  obtain ⟨states,transitions⟩ := modifyState_ok run
  have size : d'.states.size = d.states.size := by rw [states, Array.size_modify]
  cases run
  exact Draft.adds_unnumbered size parents documents services transitions rfl

theorem modifyState_fills {i : Nat} {f : StateNode → StateNode}
    (parent : ∀ n, (f n).parent = n.parent) (document : ∀ n, (f n).document = n.document)
    (invokes : ∀ n, (f n).invokes = n.invokes) : Keeps (Draft.Fills s) (modifyState i f) :=
  fun d u d' run _ => modifyState_adds parent document invokes d u d' run

theorem addTransition_fills (t : TransitionDef) :
    Keeps (Draft.Fills s) (addTransition library s t) := by
  intro d i d' run inside
  obtain ⟨document,next⟩ := addTransition_document run
  obtain ⟨rfl,states,node,pushed,rfl,_⟩ := addTransition_ok run
  rw [Draft.transition_pushed pushed] at document
  exact Draft.adds_transition states pushed inside rfl document next

theorem addTransitions_fills (id : String) (kind : StateKind) (ts : List TransitionDef) :
    Keeps (Draft.Fills s) (addTransitions library s id kind ts) := by
  apply addTransitions_keeps addTransition_fills
  · exact fun i => modifyState_fills (fun _ => rfl) (fun _ => rfl) fun _ => rfl
  · exact fun i => modifyState_fills (fun _ => rfl) (fun _ => rfl) fun _ => rfl

/-- An invoke gets the next position. -/
theorem invoke_document {i : InvokeDef} {d d' : Draft} {node : InvokeNode}
    (run : (invoke library i).run d = .ok (node, d')) :
    node.document = d.given ∧ d'.given = d.given + 1 := by
  obtain ⟨document,d₁,run₁,run⟩ := bind_eq_ok (invokeNode_of_invoke run)
  obtain ⟨srcExpr,d₂,run₂,run⟩ := bind_eq_ok run
  obtain ⟨idLocation,d₃,run₃,run⟩ := bind_eq_ok run
  obtain ⟨params,d₄,run₄,run⟩ := bind_eq_ok run
  obtain ⟨content,d₅,run₅,run⟩ := bind_eq_ok run
  obtain ⟨finalize,d₆,run₆,run⟩ := bind_eq_ok run
  have q₂ : Draft.Idle _ _ := Keeps.lift _ _ _ _ run₂
  have q₃ : Draft.Idle _ _ := Keeps.lift _ _ _ _ run₃
  have q₄ : Draft.Idle _ _ := Keeps.mapM (fun _ => Keeps.lift _) _ _ _ _ run₄
  have q₅ : Draft.Idle _ _ := Keeps.lift _ _ _ _ run₅
  have q₆ : Draft.Idle _ _ := Keeps.lift _ _ _ _ run₆
  have later : Draft.Idle d₁ d₆ := Lasting.trans q₂ (Lasting.trans q₃ (Lasting.trans q₄
    (Lasting.trans q₅ q₆)))
  cases run
  cases run₁
  exact ⟨rfl, later.idle⟩

theorem invokes_documents {l : List InvokeDef} {d d' : Draft} {nodes : List InvokeNode}
    (run : (l.mapM (invoke library)).run d = .ok (nodes, d')) :
    nodes.map (·.document) = List.range' d.given nodes.length
      ∧ d'.given = d.given + nodes.length := by
  induction l generalizing d nodes with
  | nil =>
    rw [List.mapM_nil] at run
    cases run
    exact ⟨rfl, rfl⟩
  | cons i rest ih =>
    rw [List.mapM_cons] at run
    obtain ⟨node,d₁,run₁,run⟩ := bind_eq_ok run
    obtain ⟨others,d₂,run₂,run⟩ := bind_eq_ok run
    cases run
    obtain ⟨document,next⟩ := invoke_document run₁
    obtain ⟨documents,next'⟩ := ih run₂
    constructor
    · rw [List.map_cons, List.length_cons, List.range'_succ, documents, document, next]
    · rw [next', next, List.length_cons]
      omega

theorem addEntry_alike (part : StateNode → β) (initial : ∀ n i, part { n with initial := i } = part n)
    (s : Nat) (id : String) (info : StateInfo) (hasChildren : Bool) (kids : List Nat) :
    Keeps (Draft.Alike part) (addEntry s id info hasChildren kids) :=
  addEntry_keeps (.alike part freshDocument_quiet) (pushTransition_alike part)
    (fun _ _ => .alike part (addPending_quiet _ _))
    (fun s i => modifyState_alike part s fun n => initial n (some i)) s id info hasChildren kids

theorem addEntry_fills (id : String) (info : StateInfo) (hasChildren : Bool) (kids : List Nat) :
    Keeps (Draft.Fills s) (addEntry s id info hasChildren kids) := by
  intro d u d' run inside
  unfold addEntry at run
  split at run
  · obtain ⟨targets,d₁,run₁,run⟩ := bind_eq_ok run
    obtain ⟨document,d₂,run₂,run⟩ := bind_eq_ok run
    obtain ⟨i,d₃,run₃,run⟩ := bind_eq_ok run
    obtain ⟨_,d₄,run₄,run⟩ := bind_eq_ok run
    have q₁ : Draft.Idle _ _ := initialTargets_keeps _ _ _ _ _ _ run₁
    have q₄ := addPending_idle _ _ _ _ _ run₄
    have entered : d₄.Adds (fun _ => False) (· = s) d' :=
      modifyState_adds (f := fun n => { n with initial := some i }) (fun _ => rfl) (fun _ => rfl)
        (fun _ => rfl) _ _ _ run
    have inside₁ : s < d₁.states.size := by rw [q₁.states]; exact inside
    have pushed : d₁.Adds (fun _ => False) (· = s) d₃ := by
      cases run₂
      cases run₃
      exact Draft.adds_transition rfl rfl inside₁ rfl rfl rfl
    exact Lasting.trans (R := Draft.Fills s) (fun _ => q₁.adds)
      (Lasting.trans (R := Draft.Fills s) (fun _ => pushed)
        (Lasting.trans (R := Draft.Fills s) (fun _ => q₄.adds) fun _ => entered)) inside
  · cases run
    exact Lasting.refl (R := Draft.Fills s) d inside

theorem addAlone_adds {parent : Option Nat} {info : StateInfo} {hasChildren : Bool} {d d' : Draft}
    {own : Nat × String} (outside : ∀ p, parent = some p → p < d.states.size)
    (run : (addAlone library parent info hasChildren).run d = .ok (own, d')) :
    d.Adds (fun p => parent = some p) (fun _ => False) d' ∧ d'.states.size = d.states.size + 1 ∧
      (d'.state d.states.size).document = d.given ∧ d.Alike StateNode.children d' := by
  obtain ⟨-,-,node,e,e₁,e₂,invokes,rfl,-,-,children,none,document,quiet,next,listed,invoked,given⟩ :=
    addAlone_parts run
  generalize same : ({ e with states := e.states.push node } : Draft) = e₀ at listed
  have pushed : e₀.states = d.states.push node := by rw [← same, ← quiet.states]
  have transitions : e₀.transitions = d.transitions := by rw [← same, ← quiet.transitions]
  have size : e₀.states.size = d.states.size + 1 := by rw [pushed, Array.size_push]
  have last : e₀.state d.states.size = node := by rw [Draft.state_pushed pushed, if_pos rfl]
  have stood : d.Adds (fun p => node.parent = some p) (fun _ => False) e₀ :=
    Draft.adds_state pushed transitions (fun p hp => ⟨hp, outside p hp⟩) none document
      (by rw [← same]; exact next)
  have filled : e₀.Adds (fun _ => False) (· = d.states.size) e₁ :=
    addTransitions_fills _ _ _ _ _ _ listed (by omega)
  have dressed := addTransitions_dresses (by omega) listed
  have size₁ : e₁.states.size = e₀.states.size := dressed.size
  have bare : (e₁.state d.states.size).invokes = [] := by
    have kept := addTransitions_alike StateNode.invokes (fun _ _ => rfl) (fun _ _ => rfl)
      _ _ _ _ _ _ listed d.states.size
    rw [kept, last, none]
  have q : e₁.Same e₂ := Keeps.mapM (invoke_quiet library) _ _ _ _ invoked
  obtain ⟨numbered,further⟩ := invokes_documents invoked
  obtain ⟨modified,transitions'⟩ := modifyState_ok given
  rw [q.states] at modified
  rw [q.transitions] at transitions'
  have count : d'.given = e₁.given + invokes.length := by
    cases given
    exact further
  have served : e₁.Adds (fun _ => False) (· = d.states.size) d' :=
    Draft.adds_invokes (by omega) modified transitions' rfl rfl rfl bare rfl numbered count
  have own : e₀.Adds (fun _ => False) (· = d.states.size) d' :=
    filled.trans served (fun _ h => h.elim) (fun o ho => Or.inl ho)
  refine ⟨stood.trans own (fun _ h => h.elim) (fun o ho => Or.inr (Nat.le_of_eq ho.symm)), ?_, ?_, ?_⟩
  · rw [modified, Array.size_modify]
    omega
  · rw [own.document _ (by omega), last]
    exact document
  · intro i
    have listed' := addTransitions_alike StateNode.children (fun _ _ => rfl) (fun _ _ => rfl)
      _ _ _ _ _ _ listed i
    have invoked' := Keeps.alike StateNode.children (Keeps.mapM (invoke_quiet library) _) _ _ _
      invoked i
    have given' := modifyState_alike StateNode.children _ (f := fun n => { n with invokes })
      (fun _ => rfl) _ _ _ given i
    rw [given', invoked', listed', Draft.state_pushed pushed]
    split
    · rename_i eq
      rw [children, eq, Draft.state_unlisted (Nat.le_refl _)]
      rfl
    · rfl

end Parts

namespace Draft

/-- What has been added so far: parents stand before children and list them in ascending order, and
    positions belong to states. -/
structure Sound (d : Draft) : Prop where
  parents : ∀ s p : Nat, (d.state s).parent = some p → p < s
  children : ∀ s : Nat, (d.state s).children.Pairwise (· < ·)
  owned : ∀ o k : Nat, (o, k) ∈ d.positions → o < d.states.size ∧ k < d.given

/-- The states from `s` up to `stop` are those inside of `s`, and the positions from that of `s` up to
    `last` are those of these states. -/
structure Piece (d : Draft) (s stop last : Nat) : Prop where
  inside : s < stop
  declared : stop ≤ d.states.size
  given : last ≤ d.given
  nested : ∀ x p : Nat, x ≠ s → (d.state x).parent = some p →
    (s ≤ p ∧ p < stop ↔ s ≤ x ∧ x < stop)
  owned : ∀ o k : Nat, (o, k) ∈ d.positions →
    (s ≤ o ∧ o < stop ↔ d.position s ≤ k ∧ k < last)

variable {hosts owners : Nat → Prop} {d d' : Draft} {s stop last : Nat}

theorem Adds.cases (adds : Adds hosts owners d d') {o k : Nat} (mem : (o, k) ∈ d'.positions) :
    (o, k) ∈ d.positions ∨ ((owners o ∨ d.states.size ≤ o) ∧ o < d'.states.size ∧ d.given ≤ k ∧
      k < d'.given) := by
  obtain ⟨more,same,docs,own⟩ := adds.owned
  have further := adds.given
  rcases List.mem_append.mp (same.mem_iff.mp mem) with old | new
  · exact Or.inl old
  · have range := docs.mem_iff.mp (List.mem_map_of_mem new)
    rw [List.mem_range'_1] at range
    obtain ⟨owner,inside⟩ := own _ new
    exact Or.inr ⟨owner, inside, range.1, by omega⟩

theorem Sound.adds (sound : d.Sound) (adds : Adds hosts owners d d')
    (children : ∀ s : Nat, (d'.state s).children.Pairwise (· < ·)) : d'.Sound where
  parents s p hp := by
    by_cases old : s < d.states.size
    · rw [adds.parent s old] at hp
      exact sound.parents s p hp
    · exact (adds.hosted s p (by omega) hp).2
  children := children
  owned o k mem := by
    have larger := adds.size
    have further := adds.given
    rcases adds.cases mem with old | ⟨_,inside,_,early⟩
    · have bound := sound.owned o k old
      omega
    · exact ⟨inside, early⟩

/-- A piece stays one when nothing is added to its states. -/
theorem Piece.later (piece : d.Piece s stop last) (adds : Adds hosts owners d d')
    (hosts : ∀ p, hosts p → p < s) (owners : ∀ o, owners o → o < s) : d'.Piece s stop last := by
  have inside := piece.inside
  have declared := piece.declared
  have given := piece.given
  have larger := adds.size
  have further := adds.given
  constructor
  · exact inside
  · omega
  · omega
  · intro x p other hp
    by_cases old : x < d.states.size
    · rw [adds.parent x old] at hp
      exact piece.nested x p other hp
    · obtain ⟨host,_⟩ := adds.hosted x p (by omega) hp
      rcases host with host | new
      · have before := hosts p host
        omega
      · omega
  · intro o k mem
    have kept : d'.position s = d.position s := adds.document s (by omega)
    rw [kept]
    rcases adds.cases mem with old | ⟨owner,_,late,_⟩
    · exact piece.owned o k old
    · have after : ¬ k < last := by omega
      rcases owner with owner | new
      · have before := owners o owner
        omega
      · omega

theorem Adds.piece {e : Draft} (sound : d.Sound)
    (parents : ∀ s p : Nat, (d'.state s).parent = some p → p < s)
    (alone : Adds hosts (fun _ => False) d e) (size : e.states.size = d.states.size + 1)
    (document : (e.state d.states.size).document = d.given)
    (rest : Adds (· = d.states.size) (· = d.states.size) e d') :
    d'.Piece d.states.size d'.states.size d'.given := by
  have larger := rest.size
  have whole : Adds (fun _ => True) (fun _ => False) d d' :=
    (alone.mono (fun _ _ => trivial) (fun _ => id)).trans rest (fun _ _ => Or.inl trivial)
      fun o ho => Or.inr (Nat.le_of_eq ho.symm)
  have first : d'.position d.states.size = d.given := by
    rw [position, rest.document _ (by omega), document]
  constructor
  · omega
  · omega
  · omega
  · intro x p other hp
    have before := parents x p hp
    have inside : x < d'.states.size := by
      by_contra outside
      rw [state_unlisted (by omega)] at hp
      cases hp
    by_cases old : x < d.states.size
    · omega
    · obtain ⟨host,_⟩ := rest.hosted x p (by omega) hp
      omega
  · intro o k mem
    rw [first]
    rcases whole.cases mem with old | ⟨owner,inside,late,early⟩
    · have bound := sound.owned o k old
      omega
    · rcases owner with none | new
      · exact none.elim
      · omega

end Draft

section Adding

variable (library : ActionLibrary)

mutual

theorem addState_pieces : ∀ (parent : Option Nat) (info : StateInfo) (inner : List StateDef)
    (d d' : Draft) (s : Nat), (∀ p, parent = some p → p < d.states.size) → d.Sound →
    (addState library parent (.mk info inner)).run d = .ok (s, d') →
    s = d.states.size ∧ d.states.size < d'.states.size ∧
      d.Adds (fun p => parent = some p) (fun _ => False) d' ∧ d'.Sound ∧
      ∀ x : Nat, d.states.size ≤ x → x < d'.states.size → ∃ stop last, d'.Piece x stop last
  | parent, info, inner, d, d', s, outside, sound, run => by
    rw [addState_eq] at run
    obtain ⟨own,d₁,run₁,run⟩ := bind_eq_ok run
    obtain ⟨kids,d₂,run₂,run⟩ := bind_eq_ok run
    obtain ⟨_,d₃,run₃,run⟩ := bind_eq_ok run
    obtain ⟨_,d₄,run₄,run⟩ := bind_eq_ok run
    obtain ⟨eq,_,_⟩ := addAlone_topped run₁
    obtain ⟨alone,size,document,alike⟩ := addAlone_adds outside run₁
    rw [eq] at run₂ run₃ run₄ run
    have sound₁ : d₁.Sound := sound.adds alone fun i => by
      rw [alike i]
      exact sound.children i
    obtain ⟨ascending,_,added,sound₂,pieces⟩ :=
      addStates_pieces d.states.size inner d₁ d₂ kids (by omega) sound₁ run₂
    have larger := added.size
    have hung : d₂.Adds (· = d.states.size) (· = d.states.size) d₃ :=
      modifyState_adds (f := fun n => { n with children := kids }) (fun _ => rfl) (fun _ => rfl)
        (fun _ => rfl) _ _ _ run₃
    obtain ⟨states₃,_⟩ := modifyState_ok run₃
    have size₃ : d₃.states.size = d₂.states.size := by rw [states₃, Array.size_modify]
    have entered := addEntry_fills _ _ _ _ _ _ _ run₄ (by omega)
    have size₄ : d₄.states.size = d₃.states.size := (addEntry_ok (by omega) run₄).1.size
    have ended : s = d.states.size ∧ d' = d₄ := by
      split at run
      · cases run
      · cases run
        exact ⟨rfl, rfl⟩
    obtain ⟨rfl,rfl⟩ := ended
    have later : d₂.Adds (· = d.states.size) (· = d.states.size) d' :=
      hung.trans (entered.mono (fun _ h => h.elim) fun _ => id) (fun _ => Or.inl) fun _ => Or.inl
    have rest : d₁.Adds (· = d.states.size) (· = d.states.size) d' :=
      (added.mono (fun _ => id) fun _ h => h.elim).trans later (fun _ => Or.inl) fun _ => Or.inl
    have children : ∀ i : Nat, (d'.state i).children.Pairwise (· < ·) := by
      intro i
      have kept := addEntry_alike StateNode.children (fun _ _ => rfl) _ _ _ _ _ _ _ _ run₄ i
      rw [kept, Draft.state_modify states₃ (by omega)]
      split
      · exact ascending
      · exact sound₂.children i
    have sound' : d'.Sound := sound₂.adds later children
    have whole : d.Adds (fun p => parent = some p) (fun _ => False) d' :=
      alone.trans rest (fun p hp => Or.inr (Nat.le_of_eq hp.symm)) fun o ho =>
        Or.inr (Nat.le_of_eq ho.symm)
    have grown := later.size
    refine ⟨rfl, by omega, whole, sound', ?_⟩
    intro x low high
    by_cases top : x = d.states.size
    · subst top
      exact ⟨_, _, alone.piece sound sound'.parents size document rest⟩
    · obtain ⟨stop,last,piece⟩ := pieces x (by omega) (by omega)
      exact ⟨stop, last, piece.later later (fun p hp => by omega) fun o ho => by omega⟩
termination_by _ info inner => sizeOf (StateDef.mk info inner)

theorem addStates_pieces : ∀ (parent : Nat) (states : List StateDef) (d d' : Draft)
    (kids : List Nat), parent < d.states.size → d.Sound →
    (addStates library parent states).run d = .ok (kids, d') →
    kids.Pairwise (· < ·) ∧ (∀ k ∈ kids, d.states.size ≤ k) ∧
      d.Adds (· = parent) (fun _ => False) d' ∧ d'.Sound ∧
      ∀ x : Nat, d.states.size ≤ x → x < d'.states.size → ∃ stop last, d'.Piece x stop last
  | parent, [], d, d', kids, inside, sound, run => by
    rw [addStates] at run
    cases run
    refine ⟨List.Pairwise.nil, by simp, ?_, sound, fun x low high => by omega⟩
    exact Draft.adds_unnumbered rfl (fun _ => rfl) (fun _ => rfl) (fun _ => rfl) rfl rfl
  | parent, .mk info inner :: rest, d, d', kids, inside, sound, run => by
    rw [addStates] at run
    obtain ⟨s,d₁,run₁,run⟩ := bind_eq_ok run
    obtain ⟨others,d₂,run₂,run⟩ := bind_eq_ok run
    cases run
    have outside : ∀ p, some parent = some p → p < d.states.size := by
      intro p eq
      cases eq
      exact inside
    obtain ⟨rfl,larger,first,sound₁,pieces⟩ :=
      addState_pieces (some parent) info inner d d₁ s outside sound run₁
    obtain ⟨ascending,bounds,second,sound₂,pieces'⟩ :=
      addStates_pieces parent rest d₁ d' others (by omega) sound₁ run₂
    refine ⟨?_, ?_, ?_, sound₂, ?_⟩
    · apply List.pairwise_cons.mpr
      refine ⟨?_, ascending⟩
      intro k hk
      have bound := bounds k hk
      omega
    · intro k hk
      rcases List.mem_cons.mp hk with rfl | later
      · exact Nat.le_refl _
      · have bound := bounds k later
        omega
    · have hosted : d.Adds (· = parent) (fun _ => False) d₁ :=
        first.mono (fun p hp => (Option.some.inj hp).symm) fun _ => id
      exact hosted.trans second (fun _ => Or.inl) fun _ => Or.inl
    · intro x low high
      by_cases early : x < d₁.states.size
      · obtain ⟨stop,last,piece⟩ := pieces x low early
        exact ⟨stop, last, piece.later second (fun p hp => by omega) fun o ho => ho.elim⟩
      · exact pieces' x (by omega) high
termination_by _ states => sizeOf states

end

end Adding

end Compile

end Statechart

import Statechart.Proofs.Chart.Numbering

/- The order of a document. A subtree stands in one piece, and the transitions of a state come after
   the state and before all that stands later. So of three transitions in document order of which the
   last lies inside the source of the first, the one between lies there too. -/
namespace Statechart

namespace Compile

open Source

namespace Draft

/-- The transitions of a state are numbered after it and before the states that follow. -/
structure Spaced (d : Draft) : Prop where
  numbered : ∀ s : Nat, s < d.states.size → (d.state s).document < d.nextDocument
  known : ∀ s t : Nat, t ∈ (d.state s).transitions → t < d.transitions.size
  after : ∀ s t : Nat, t ∈ (d.state s).transitions → (d.state s).document < (d.transition t).document
  given : ∀ s t : Nat, t ∈ (d.state s).transitions → (d.transition t).document < d.nextDocument
  before : ∀ s t s' : Nat, t ∈ (d.state s).transitions → s < s' → s' < d.states.size →
    (d.transition t).document < (d.state s').document

/-- The states are those that there were, at their positions and with their transitions. -/
structure Retains (d d' : Draft) : Prop where
  size : d'.states.size = d.states.size
  document : ∀ s : Nat, (d'.state s).document = (d.state s).document
  listed : ∀ s : Nat, (d'.state s).transitions = (d.state s).transitions
  transitions_size : d.transitions.size ≤ d'.transitions.size
  transitions : ∀ t : Nat, t < d.transitions.size → d'.transition t = d.transition t
  next : d.nextDocument ≤ d'.nextDocument

variable {d d' d'' : Draft}

theorem Retains.trans (first : Retains d d') (second : Retains d' d'') : Retains d d'' where
  size := second.size.trans first.size
  document s := (second.document s).trans (first.document s)
  listed s := (second.listed s).trans (first.listed s)
  transitions_size := Nat.le_trans first.transitions_size second.transitions_size
  transitions t ht :=
    (second.transitions t (Nat.lt_of_lt_of_le ht first.transitions_size)).trans
      (first.transitions t ht)
  next := Nat.le_trans first.next second.next

theorem retains_of_same (same : d.Same d') : Retains d d' where
  size := congrArg Array.size same.states
  document s := by rw [state, state, same.states]
  listed s := by rw [state, state, same.states]
  transitions_size := Nat.le_of_eq (congrArg Array.size same.transitions.symm)
  transitions t _ := by rw [transition, transition, same.transitions]
  next := same.next

instance : Lasting Retains where
  refl d := retains_of_same (Lasting.refl d)
  trans first second := first.trans second

theorem Spaced.retain (spaced : d.Spaced) (retains : Retains d d') : d'.Spaced where
  numbered s hs := by
    rw [retains.document]
    exact Nat.lt_of_lt_of_le (spaced.numbered s (retains.size ▸ hs)) retains.next
  known s t ht := by
    rw [retains.listed] at ht
    exact Nat.lt_of_lt_of_le (spaced.known s t ht) retains.transitions_size
  after s t ht := by
    rw [retains.listed] at ht
    rw [retains.document, retains.transitions t (spaced.known s t ht)]
    exact spaced.after s t ht
  given s t ht := by
    rw [retains.listed] at ht
    rw [retains.transitions t (spaced.known s t ht)]
    exact Nat.lt_of_lt_of_le (spaced.given s t ht) retains.next
  before s t s' ht later hs' := by
    rw [retains.listed] at ht
    rw [retains.document, retains.transitions t (spaced.known s t ht)]
    exact spaced.before s t s' ht later (retains.size ▸ hs')

theorem state_pushed {node : StateNode} (pushed : d'.states = d.states.push node) (s : Nat) :
    d'.state s = if s = d.states.size then node else d.state s := by
  simp only [state, pushed, Array.getD_eq_getD_getElem?, Array.getElem?_push]
  split <;> rfl

theorem Spaced.push {node : StateNode} (spaced : d.Spaced) (pushed : d'.states = d.states.push node)
    (same : d'.transitions = d.transitions) (bare : node.transitions = [])
    (document : node.document = d.nextDocument) (next : d.nextDocument < d'.nextDocument) :
    d'.Spaced := by
  have size : d'.states.size = d.states.size + 1 := by rw [pushed, Array.size_push]
  have transition : ∀ t : Nat, d'.transition t = d.transition t := fun t => by
    rw [Draft.transition, Draft.transition, same]
  have old : ∀ s t : Nat, t ∈ (d'.state s).transitions →
      d'.state s = d.state s ∧ t ∈ (d.state s).transitions := by
    intro s t ht
    rw [state_pushed pushed] at ht ⊢
    split at ht
    · rw [bare] at ht
      cases ht
    · rename_i other
      exact ⟨if_neg other, ht⟩
  refine ⟨?_, ?_, ?_, ?_, ?_⟩
  · intro s hs
    rw [state_pushed pushed]
    split
    · rw [document]
      exact next
    · exact Nat.lt_trans (spaced.numbered s (by omega)) next
  · intro s t ht
    rw [same]
    exact spaced.known s t (old s t ht).2
  · intro s t ht
    obtain ⟨eq,ht⟩ := old s t ht
    rw [eq, transition]
    exact spaced.after s t ht
  · intro s t ht
    rw [transition]
    exact Nat.lt_trans (spaced.given s t (old s t ht).2) next
  · intro s t s' ht later hs'
    obtain ⟨-,ht⟩ := old s t ht
    rw [transition, state_pushed pushed]
    split
    · rw [document]
      exact spaced.given s t ht
    · exact spaced.before s t s' ht later (by omega)

theorem Spaced.list {s t : Nat} {f : StateNode → StateNode} (spaced : d.Spaced)
    (last : s + 1 = d.states.size) (known : t < d.transitions.size)
    (after : (d.state s).document < (d.transition t).document)
    (given : (d.transition t).document < d.nextDocument)
    (modified : d'.states = d.states.modify s f) (same : d'.transitions = d.transitions)
    (next : d'.nextDocument = d.nextDocument) (document : (f (d.state s)).document = (d.state s).document)
    (listed : (f (d.state s)).transitions = (d.state s).transitions ++ [t]) : d'.Spaced := by
  have size : d'.states.size = d.states.size := by rw [modified, Array.size_modify]
  have transition : ∀ u : Nat, d'.transition u = d.transition u := fun u => by
    rw [Draft.transition, Draft.transition, same]
  have documents : ∀ i : Nat, (d'.state i).document = (d.state i).document := by
    intro i
    rw [state_modify modified (by omega)]
    split
    · rename_i eq
      rw [document, eq]
    · rfl
  have cases : ∀ i u : Nat, u ∈ (d'.state i).transitions →
      u ∈ (d.state i).transitions ∨ (i = s ∧ u = t) := by
    intro i u hu
    rw [state_modify modified (by omega)] at hu
    split at hu
    · rename_i eq
      rw [listed, List.mem_append, List.mem_singleton] at hu
      exact hu.imp (fun old => eq ▸ old) fun new => ⟨eq, new⟩
    · exact Or.inl hu
  refine ⟨?_, ?_, ?_, ?_, ?_⟩
  · intro i hi
    rw [documents, next]
    exact spaced.numbered i (size ▸ hi)
  · intro i u hu
    rw [same]
    rcases cases i u hu with old | ⟨-,rfl⟩
    · exact spaced.known i u old
    · exact known
  · intro i u hu
    rw [documents, transition]
    rcases cases i u hu with old | ⟨rfl,rfl⟩
    · exact spaced.after i u old
    · exact after
  · intro i u hu
    rw [transition, next]
    rcases cases i u hu with old | ⟨-,rfl⟩
    · exact spaced.given i u old
    · exact given
  · intro i u j hu later hj
    rw [transition, documents]
    rcases cases i u hu with old | ⟨rfl,-⟩
    · exact spaced.before i u j old later (size ▸ hj)
    · omega

end Draft

/-- A part of compiling that leaves the states at their positions and with their transitions. -/
abbrev Retaining {α : Type} (x : CompileM α) : Prop := Keeps Draft.Retains x

theorem Keeps.retaining {α : Type} {x : CompileM α} (quiet : Quiet x) : Retaining x :=
  fun d a d' run => Draft.retains_of_same (quiet d a d' run)

theorem pushTransition_retaining (t : TransitionNode) : Retaining (pushTransition t) := by
  intro d i d' run
  cases run
  refine ⟨rfl, fun _ => rfl, fun _ => rfl, ?_, ?_, Nat.le_refl _⟩
  · rw [Array.size_push]
    omega
  · intro u hu
    simp [Draft.transition, Array.getD_eq_getD_getElem?, Array.getElem?_push, Nat.ne_of_lt hu]

theorem modifyState_retaining (s : StateIndex) {f : StateNode → StateNode}
    (document : ∀ n, (f n).document = n.document)
    (listed : ∀ n, (f n).transitions = n.transitions) : Retaining (modifyState s f) := by
  intro d u d' run
  cases run
  have field {β : Type} (part : StateNode → β) (kept : ∀ n, part (f n) = part n) (i : Nat) :
      part (({ d with states := d.states.modify s f } : Draft).state i) = part (d.state i) := by
    simp only [Draft.state, Array.getD_eq_getD_getElem?, Array.getElem?_modify]
    split
    · cases d.states[i]? with
      | none => rfl
      | some n => exact kept n
    · rfl
  exact ⟨Array.size_modify .., field (·.document) document, field (·.transitions) listed,
    Nat.le_refl _, fun _ _ => rfl, Nat.le_refl _⟩

theorem addTransition_retaining (library : ActionLibrary) (source : StateIndex)
    (t : TransitionDef) : Retaining (addTransition library source t) :=
  addTransition_keeps (Keeps.retaining freshDocument_quiet) pushTransition_retaining
    (fun _ _ => Keeps.retaining (addPending_quiet _ _)) library source t

theorem addEntry_retaining (s : StateIndex) (id : String) (info : StateInfo) (hasChildren : Bool)
    (kids : List StateIndex) : Retaining (addEntry s id info hasChildren kids) :=
  addEntry_keeps (Keeps.retaining freshDocument_quiet) pushTransition_retaining
    (fun _ _ => Keeps.retaining (addPending_quiet _ _))
    (fun _ _ => modifyState_retaining _ (fun _ => rfl) fun _ => rfl) s id info hasChildren kids

theorem addTransition_document {library : ActionLibrary} {source : StateIndex} {t : TransitionDef}
    {d d' : Draft} {i : TransitionIndex} (run : (addTransition library source t).run d = .ok (i, d')) :
    (d'.transition i).document = d.nextDocument ∧ d'.nextDocument = d.nextDocument + 1 := by
  obtain ⟨document,d₁,run₁,run⟩ := bind_eq_ok run
  obtain ⟨events,d₂,run₂,run⟩ := bind_eq_ok run
  obtain ⟨condition,d₃,run₃,run⟩ := bind_eq_ok run
  obtain ⟨body,d₄,run₄,run⟩ := bind_eq_ok run
  obtain ⟨j,d₅,run₅,run⟩ := bind_eq_ok run
  have q₂ : Draft.Idle _ _ := Keeps.mapM (fun _ => Keeps.lift _) _ _ _ _ run₂
  have q₃ : Draft.Idle _ _ := Keeps.lift _ _ _ _ run₃
  have q₄ : Draft.Idle _ _ := Keeps.lift _ _ _ _ run₄
  have quiet : Draft.Idle d₁ d₄ := Lasting.trans q₂ (Lasting.trans q₃ q₄)
  have last : Draft.Idle d₅ d' ∧ i = j := by
    cases target : t.target with
    | none =>
      rw [target] at run
      cases run
      exact ⟨Lasting.refl _, rfl⟩
    | some targets =>
      rw [target] at run
      obtain ⟨_,d₆,run₆,run⟩ := bind_eq_ok run
      cases run
      exact ⟨addPending_idle _ _ _ _ _ run₆, rfl⟩
  obtain ⟨last,rfl⟩ := last
  cases run₁
  cases run₅
  refine ⟨?_, last.idle.trans quiet.idle⟩
  rw [Draft.transition, last.transitions]
  simp [Array.getD_eq_getD_getElem?]

theorem addTransitions_spaced {library : ActionLibrary} {s : Nat} {id : String} {kind : StateKind}
    {ts : List TransitionDef} {d d' : Draft} {u : Unit} (spaced : d.Spaced)
    (last : s + 1 = d.states.size)
    (run : (addTransitions library s id kind ts).run d = .ok (u, d')) : d'.Spaced := by
  induction ts generalizing d with
  | nil =>
    cases run
    exact spaced
  | cons t rest ih =>
    obtain ⟨i,d₁,run₁,run⟩ := bind_eq_ok run
    have retains := addTransition_retaining library s t d i d₁ run₁
    obtain ⟨document,next⟩ := addTransition_document run₁
    have advanced : d.nextDocument < d₁.nextDocument := Nat.lt_of_succ_le (Nat.le_of_eq next.symm)
    obtain ⟨rfl,-,node,pushed,-⟩ := addTransition_ok run₁
    have spaced₁ := spaced.retain retains
    have last₁ : s + 1 = d₁.states.size := by rw [retains.size]; exact last
    by_cases history : isHistoryKind kind = true
    · simp only [history, if_true] at run
      obtain ⟨_,_,got,run⟩ := bind_eq_ok run
      cases got
      split at run
      · obtain ⟨_,_,rejected,_⟩ := bind_eq_ok run
        cases rejected
      · obtain ⟨_,d₂,run₂,run⟩ := bind_eq_ok run
        have kept := modifyState_retaining s
          (f := fun n => { n with initial := some d.transitions.size }) (fun _ => rfl)
          (fun _ => rfl) _ _ _ run₂
        exact ih (spaced₁.retain kept) (by rw [kept.size]; exact last₁) run
    · simp only [history] at run
      obtain ⟨_,d₂,run₂,run⟩ := bind_eq_ok run
      have after : (d₁.state s).document < (d₁.transition d.transitions.size).document := by
        rw [document, retains.document]
        exact spaced.numbered s (by omega)
      have known : d.transitions.size < d₁.transitions.size := by
        rw [pushed, Array.size_push]
        omega
      obtain ⟨states,transitions⟩ := modifyState_ok run₂
      have size : d₂.states.size = d₁.states.size := by rw [states, Array.size_modify]
      cases run₂
      refine ih ?_ (size ▸ last₁) run
      exact spaced₁.list last₁ known after (document ▸ advanced) states transitions rfl rfl rfl

/-- A part of compiling that keeps the positions in order. -/
abbrev Spacing {α : Type} (x : CompileM α) : Prop := Keeps (fun d d' => d.Spaced → d'.Spaced) x

instance : Lasting fun d d' : Draft => d.Spaced → d'.Spaced where
  refl _ := id
  trans first second := fun spaced => second (first spaced)

theorem Keeps.spacing {α : Type} {x : CompileM α} (retaining : Retaining x) : Spacing x :=
  fun d a d' run spaced => spaced.retain (retaining d a d' run)

theorem addAlone_spacing (library : ActionLibrary) (parent : Option StateIndex)
    (info : StateInfo) (hasChildren : Bool) :
    Spacing (addAlone library parent info hasChildren) := by
  intro d own d' run spaced
  obtain ⟨-,-,node,e,e₁,e₂,invokes,-,-,bare,-,-,document,quiet,next,listed,invoked,given⟩ :=
    addAlone_parts run
  have later : d.nextDocument < e.nextDocument := Nat.lt_of_succ_le (Nat.le_of_eq next.symm)
  have pushed : ({ e with states := e.states.push node } : Draft).states = d.states.push node := by
    rw [quiet.states]
  have spaced₁ := spaced.push pushed quiet.transitions bare document later
  have spaced₂ := addTransitions_spaced spaced₁ (by rw [pushed, Array.size_push]) listed
  have served : Draft.Retains e₁ e₂ :=
    Keeps.mapM (invoke_keeps (Keeps.retaining freshDocument_quiet) library) _ _ _ _ invoked
  have kept := modifyState_retaining d.states.size (f := fun n => { n with invokes })
    (fun _ => rfl) (fun _ => rfl) _ _ _ given
  exact spaced₂.retain (served.trans kept)

theorem addState_spacing (library : ActionLibrary) (parent : Option StateIndex)
    (info : StateInfo) (inner : List StateDef) :
    Spacing (addState library parent (.mk info inner)) :=
  addState_keeps (addAlone_spacing library)
    (fun _ _ => Keeps.spacing (modifyState_retaining _ (fun _ => rfl) fun _ => rfl))
    (fun _ _ _ _ _ => Keeps.spacing (addEntry_retaining _ _ _ _ _)) parent info inner

theorem Draft.spaced_nothing : ({} : Draft).Spaced := by
  have none : ∀ s : Nat, (({} : Draft).state s).transitions = [] := fun _ => rfl
  refine ⟨fun s hs => absurd hs (Nat.not_lt_zero s), ?_, ?_, ?_, ?_⟩ <;>
    · intro s t
      simp [none]

end Compile

namespace Chart

open Compile

/-- The states stand in the order of a walk through the tree, each before its transitions and these
    before the states that follow. -/
structure Preordered (c : Chart) : Prop where
  nested : ∀ s p k : Nat, (c.state s).parent = some p → p < k → k < s →
    ∃ q : Nat, (c.state k).parent = some q ∧ p ≤ q
  after : ∀ s t : Nat, t ∈ (c.state s).transitions →
    (c.state s).document < (c.transition t).document
  before : ∀ s t s' : Nat, t ∈ (c.state s).transitions → s < s' → s' < c.states.size →
    (c.transition t).document < (c.state s').document

theorem compile_preordered {library : ActionLibrary} {source : Source.ChartDef} {c : Chart}
    (accepted : compile library source = .ok c) : c.Preordered := by
  obtain ⟨_,top,d,built,targeted,_⟩ := compile_parts accepted
  obtain ⟨_,_,_,_,_,forest⟩ :=
    addState_tree library none _ source.states {} d top (fun p eq => by cases eq) built
  have spaced : d.Spaced :=
    addState_spacing library none _ source.states {} top d built Draft.spaced_nothing
  have states : ∀ s : Nat, c.state s = d.state s := fun s =>
    congrArg (fun a : Array StateNode => a.getD s default) targeted.states
  have size : c.states.size = d.states.size := congrArg Array.size targeted.states
  have document : ∀ t : Nat, (c.transition t).document = (d.transition t).document :=
    targeted.document
  refine ⟨?_, ?_, ?_⟩
  · intro s p k hp above between
    have inside := c.parent_in_range hp
    rw [states] at hp ⊢
    exact forest.nested s p k (Nat.zero_le k) between (size ▸ inside) hp above
  · intro s t listed
    rw [states] at listed ⊢
    rw [document]
    exact spaced.after s t listed
  · intro s t s' listed later inside
    rw [states] at listed ⊢
    rw [document]
    exact spaced.before s t s' listed later (size ▸ inside)

namespace Preordered

variable {c : Chart} {a b s t r u x : Nat}

/-- A subtree stands in one piece. -/
theorem within_of_between (order : c.Preordered) (tree : c.IsTree) (inside : c.Within b a)
    (low : a ≤ x) (high : x ≤ b) : c.Within x a := by
  induction b using Nat.strongRecOn generalizing x with
  | ind b outer =>
    rcases inside with rfl | below
    · exact Or.inl (Nat.le_antisymm high low)
    · obtain ⟨p,hp,up⟩ := tree.below_iff.mp below
      have before := tree.parent_lt hp
      -- From the parent on there are only states inside the parent, up to the state itself.
      have piece : ∀ k : Nat, p ≤ k → k < b → c.Within k p := by
        intro k
        induction k using Nat.strongRecOn with
        | ind k inner =>
          intro from_p to_b
          rcases Nat.eq_or_lt_of_le from_p with rfl | above
          · exact Or.inl rfl
          · obtain ⟨q,hq,around⟩ := order.nested b p k hp above to_b
            have lower := tree.parent_lt hq
            exact Or.inr (tree.below_iff.mpr ⟨q, hq, inner q lower around (by omega)⟩)
      rcases Nat.eq_or_lt_of_le high with rfl | lower
      · exact Or.inr below
      · by_cases early : x ≤ p
        · exact outer p before up low early
        · exact tree.within_trans (piece x (Nat.le_of_lt (Nat.lt_of_not_le early)) lower) up

theorem listed_in_range (c : Chart) (listed : t ∈ (c.state s).transitions) : s < c.states.size := by
  by_cases inside : s < c.states.size
  · exact inside
  · rw [c.state_out_of_range (by omega)] at listed
    cases listed

theorem state_le (order : c.Preordered) (listed : t ∈ (c.state s).transitions)
    (listed' : u ∈ (c.state r).transitions)
    (earlier : (c.transition t).document < (c.transition u).document) : s ≤ r := by
  by_contra crossed
  have first := order.before r u s listed' (by omega) (listed_in_range c listed)
  have second := order.after s t listed
  exact Nat.lt_asymm earlier (Nat.lt_trans first second)

theorem source_within (order : c.Preordered) (tree : c.IsTree)
    (first : t ∈ (c.state a).transitions) (middle : r ∈ (c.state x).transitions)
    (last : u ∈ (c.state b).transitions)
    (before : (c.transition t).document < (c.transition r).document)
    (after : (c.transition r).document < (c.transition u).document) (inside : c.Within b a) :
    c.Within x a :=
  order.within_of_between tree inside (order.state_le first middle before)
    (order.state_le middle last after)

end Preordered

end Chart

end Statechart

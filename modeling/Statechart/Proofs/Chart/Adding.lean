import Statechart.Proofs.Chart.Draft

/- Adding a state of a definition, with all that is inside it, adds a tree to a draft. -/
namespace Statechart.Compile

open Source

theorem initialTargets_keeps {R : Draft → Draft → Prop} [Lasting R] (id : String)
    (given : Option (List String)) (children : List StateIndex) :
    Keeps R (initialTargets id given children) := by
  unfold initialTargets
  cases given with
  | some targets => exact .pure _
  | none =>
    refine .bind .get fun d => ?_
    simp only
    split
    · exact .pure _
    · exact .reject _

theorem structureDefect_leaf {id : String} {info : StateInfo} {inner : Bool}
    (sound : structureDefect? id info inner = none)
    (leaf : stateKind info = .final ∨ isHistoryKind (stateKind info) = true) : inner = false := by
  simp only [structureDefect?] at sound
  split at sound
  · cases sound
  · split at sound
    · cases sound
    · rename_i _ free
      cases inner with
      | false => rfl
      | true => simp [leaf] at free

/-- The part of adding a state that is about the state alone. -/
def addAlone (library : ActionLibrary) (parent : Option StateIndex) (info : StateInfo)
    (hasChildren : Bool) : CompileM (StateIndex × String) := do
  let s := (← get).states.size
  let document ← freshDocument
  let id ← stateId info.id
  match structureDefect? id info hasChildren with
  | some d => reject d
  | none =>
    let onEntry ← actions library info.onEntry
    let onExit ← actions library info.onExit
    let data ← info.data.mapM fun d => do
      let expr ← liftM (valueExpr d.init)
      return { id := d.id, expr : DataNode }
    let doneData ← optionalValue info.doneData
    pushState
      { id, document, kind := stateKind info, parent, children := [], transitions := []
        initial := none, onEntry, onExit, invokes := [], data, doneData }
    addTransitions library s id (stateKind info) info.transitions
    let invokes ← info.invokes.mapM (invoke library)
    modifyState s fun n => { n with invokes }
    return (s, id)

/-- Lets a state be entered through its children. -/
def addEntry (s : StateIndex) (id : String) (info : StateInfo) (hasChildren : Bool)
    (kids : List StateIndex) : CompileM Unit := do
  if stateKind info = .state && hasChildren then
    let targets ← initialTargets id info.initial kids
    let document ← freshDocument
    let i ← pushTransition
      { document, source := s, events := [], condition := none, targets := [],
        kind := .internal, actions := [] }
    addPending i targets
    modifyState s fun n => { n with initial := some i }

theorem addTransition_keeps {R : Draft → Draft → Prop} [Lasting R] (fresh : Keeps R freshDocument)
    (push : ∀ n, Keeps R (pushTransition n)) (pending : ∀ t names, Keeps R (addPending t names))
    (library : ActionLibrary) (source : StateIndex) (t : TransitionDef) :
    Keeps R (addTransition library source t) := by
  unfold addTransition
  refine .bind fresh fun _ => ?_
  refine .bind (.mapM (fun _ => .lift _) _) fun _ => ?_
  refine .bind (.lift _) fun _ => .bind (.lift _) fun _ => ?_
  refine .bind (push _) fun i => ?_
  simp only
  split
  · exact .bind (pending _ _) fun _ => .pure _
  · exact .pure _

theorem addTransitions_keeps {R : Draft → Draft → Prop} [Lasting R] {library : ActionLibrary}
    {s : StateIndex} (add : ∀ t, Keeps R (addTransition library s t))
    (enter : ∀ i, Keeps R (modifyState s fun n => { n with initial := some i }))
    (list : ∀ i, Keeps R (modifyState s fun n => { n with transitions := n.transitions ++ [i] }))
    (id : String) (kind : StateKind) (ts : List TransitionDef) :
    Keeps R (addTransitions library s id kind ts) := by
  induction ts with
  | nil => exact .pure _
  | cons t rest ih =>
    rw [addTransitions]
    refine .bind (add t) fun i => ?_
    simp only
    split
    · refine .bind .get fun d => ?_
      split
      · exact .bind (.reject _) fun _ => .bind (enter i) fun _ => ih
      · exact .bind (enter i) fun _ => ih
    · exact .bind (list i) fun _ => ih

theorem addEntry_keeps {R : Draft → Draft → Prop} [Lasting R] (fresh : Keeps R freshDocument)
    (push : ∀ n, Keeps R (pushTransition n)) (pending : ∀ t names, Keeps R (addPending t names))
    (enter : ∀ s i, Keeps R (modifyState s fun n => { n with initial := some i }))
    (s : StateIndex) (id : String) (info : StateInfo) (hasChildren : Bool) (kids : List StateIndex) :
    Keeps R (addEntry s id info hasChildren kids) := by
  unfold addEntry
  split
  · refine .bind (initialTargets_keeps _ _ _) fun _ => ?_
    refine .bind fresh fun _ => .bind (push _) fun _ => ?_
    exact .bind (pending _ _) fun _ => enter _ _
  · exact .pure _

theorem addState_eq (library : ActionLibrary) (parent : Option StateIndex) (info : StateInfo)
    (children : List StateDef) :
    addState library parent (.mk info children) = (do
      let own ← addAlone library parent info (!children.isEmpty)
      let kids ← addStates library own.1 children
      modifyState own.1 fun n => { n with children := kids }
      addEntry own.1 own.2 info (!children.isEmpty) kids
      if isHistoryKind (stateKind info) && info.transitions.isEmpty then
        reject (.historyWithoutDefault own.2)
      return own.1) := by
  rw [addState]
  unfold addAlone addEntry
  simp only [bind_assoc]
  congr 1
  funext d
  congr 1
  funext document
  congr 1
  funext id
  cases structureDefect? id info (!children.isEmpty) with
  | some defect => rfl
  | none =>
    simp only [bind_assoc, pure_bind]
    split
    · simp only [bind_assoc]
    · simp only [pure_bind]

/-- Adding a state alone: the state is pushed without transitions, at a position that was free, and
    gets its transitions and invokes after that. -/
theorem addAlone_parts {library : ActionLibrary} {parent : Option Nat} {info : StateInfo}
    {hasChildren : Bool} {d d' : Draft} {own : Nat × String}
    (run : (addAlone library parent info hasChildren).run d = .ok (own, d')) :
    own.1 = d.states.size ∧ structureDefect? own.2 info hasChildren = none ∧
      ∃ (node : StateNode) (e e₁ e₂ : Draft) (invokes : List InvokeNode),
        node.parent = parent ∧ node.kind = stateKind info ∧ node.transitions = [] ∧
        node.children = [] ∧ node.invokes = [] ∧ node.document = d.nextDocument ∧ d.Same e ∧
        e.nextDocument = d.nextDocument + 1 ∧
        (addTransitions library d.states.size own.2 (stateKind info) info.transitions).run
          { e with states := e.states.push node } = .ok ((), e₁) ∧
        (info.invokes.mapM (invoke library)).run e₁ = .ok (invokes, e₂) ∧
        (modifyState d.states.size fun n => { n with invokes }).run e₂ = .ok ((), d') := by
  obtain ⟨_,_,got,run⟩ := bind_eq_ok run
  cases got
  obtain ⟨document,d₁,run₁,run⟩ := bind_eq_ok run
  obtain ⟨id,d₂,run₂,run⟩ := bind_eq_ok run
  cases sound : structureDefect? id info hasChildren with
  | some defect =>
    rw [sound] at run
    cases run
  | none =>
    rw [sound] at run
    obtain ⟨onEntry,d₃,run₃,run⟩ := bind_eq_ok run
    obtain ⟨onExit,d₄,run₄,run⟩ := bind_eq_ok run
    obtain ⟨data,d₅,run₅,run⟩ := bind_eq_ok run
    obtain ⟨doneData,d₆,run₆,run⟩ := bind_eq_ok run
    obtain ⟨_,e₀,pushed,run⟩ := bind_eq_ok run
    obtain ⟨_,e₁,run₇,run⟩ := bind_eq_ok run
    obtain ⟨invokes,e₂,run₈,run⟩ := bind_eq_ok run
    obtain ⟨_,e₃,run₉,run⟩ := bind_eq_ok run
    cases run
    cases pushed
    have q₂ := stateId_idle _ _ _ _ run₂
    have q₃ : Draft.Idle _ _ := Keeps.lift _ _ _ _ run₃
    have q₄ : Draft.Idle _ _ := Keeps.lift _ _ _ _ run₄
    have q₅ : Draft.Idle _ _ :=
      Keeps.mapM (fun _ => Keeps.bind (Keeps.lift _) fun _ => Keeps.pure _) _ _ _ _ run₅
    have q₆ : Draft.Idle _ _ := Keeps.lift _ _ _ _ run₆
    have later : Draft.Idle d₁ d₆ := Lasting.trans q₂ (Lasting.trans q₃ (Lasting.trans q₄
      (Lasting.trans q₅ q₆)))
    have quiet := Lasting.trans (freshDocument_quiet _ _ _ run₁) later.toSame
    cases run₁
    exact ⟨rfl, sound, _, d₆, e₁, e₂, invokes, rfl, rfl, rfl, rfl, rfl, rfl, quiet, later.idle, run₇,
      run₈, run₉⟩

theorem addAlone_topped {library : ActionLibrary} {parent : Option Nat} {info : StateInfo}
    {hasChildren : Bool} {d d' : Draft} {own : Nat × String}
    (run : (addAlone library parent info hasChildren).run d = .ok (own, d')) :
    own.1 = d.states.size ∧ d.Topped d' parent (stateKind info) ∧
      (stateKind info = .final ∨ isHistoryKind (stateKind info) = true → hasChildren = false) := by
  obtain ⟨own_eq,sound,node,e,e₁,e₂,invokes,rfl,kind,bare,-,-,-,quiet,-,listed,invoked,given⟩ :=
    addAlone_parts run
  refine ⟨own_eq, ?_, structureDefect_leaf sound⟩
  have pushed : ({ e with states := e.states.push node } : Draft).states = d.states.push node := by
    rw [quiet.states]
  have alone := Draft.topped_push pushed quiet.transitions bare
  have dressed := alone.dress (addTransitions_dresses (by rw [alone.size]; omega) listed)
  have q : Draft.Same _ _ := Keeps.mapM (invoke_quiet library) _ _ _ _ invoked
  obtain ⟨states,transitions⟩ := modifyState_ok given
  rw [q.states] at states
  rw [q.transitions] at transitions
  rw [kind] at dressed
  exact dressed.dress (Draft.dresses_modify default d.states.size
    (by rw [dressed.size]; omega) states (Or.inl transitions) rfl rfl fun t ht => Or.inl ht)

theorem addEntry_ok {s : Nat} {id : String} {info : StateInfo} {hasChildren : Bool}
    {kids : List Nat} {d d' : Draft} {u : Unit} (inside : s < d.states.size)
    (run : (addEntry s id info hasChildren kids).run d = .ok (u, d')) :
    Draft.Dresses s d d' ∧ (d'.state s).children = (d.state s).children ∧
      (stateKind info = .state → hasChildren = true → ∃ t : Nat, (d'.state s).initial = some t ∧
        t < d'.transitions.size ∧ (d'.transition t).source = s ∧
        (d'.transition t).kind = .internal) := by
  unfold addEntry at run
  by_cases entered : (decide (stateKind info = .state) && hasChildren) = true
  · rw [if_pos entered] at run
    obtain ⟨targets,d₁,run₁,run⟩ := bind_eq_ok run
    obtain ⟨document,d₂,run₂,run⟩ := bind_eq_ok run
    obtain ⟨i,d₃,run₃,run⟩ := bind_eq_ok run
    obtain ⟨_,d₄,run₄,run⟩ := bind_eq_ok run
    have q₁ : Draft.Same _ _ := initialTargets_keeps _ _ _ _ _ _ run₁
    have q₂ := freshDocument_quiet _ _ _ run₂
    have q₄ := addPending_quiet _ _ _ _ _ run₄
    obtain ⟨rfl,states₃,transitions₃⟩ := pushTransition_ok run₃
    obtain ⟨states,transitions⟩ := modifyState_ok run
    rw [q₄.1, states₃, q₂.1, q₁.1] at states
    rw [q₄.2, transitions₃, q₂.2, q₁.2] at transitions
    have at_s := Draft.state_modify (i := s) states inside
    rw [if_pos rfl] at at_s
    refine ⟨?_, by rw [at_s], ?_⟩
    · exact Draft.dresses_modify _ s inside states (Or.inr ⟨transitions, rfl, rfl⟩) rfl rfl
        fun t ht => Or.inl ht
    · intro _ _
      refine ⟨d₂.transitions.size, by rw [at_s], ?_⟩
      rw [q₂.2, q₁.2, Draft.transition_pushed transitions, transitions, Array.size_push]
      exact ⟨Nat.lt_succ_self _, rfl, rfl⟩
  · rw [if_neg entered] at run
    cases run
    refine ⟨Draft.Dresses.refl _ _, rfl, ?_⟩
    intro kind some
    simp [kind, some] at entered

section Keeping

variable {R : Draft → Draft → Prop} [Lasting R] {library : ActionLibrary}

mutual

/-- What adding a state alone, its children and its entry keep is kept by adding it as a whole. -/
theorem addState_keeps
    (alone : ∀ parent info hasChildren, Keeps R (addAlone library parent info hasChildren))
    (parental : ∀ s kids, Keeps R (modifyState s fun n => { n with children := kids }))
    (entry : ∀ s id info hasChildren kids, Keeps R (addEntry s id info hasChildren kids)) :
    ∀ (parent : Option StateIndex) (info : StateInfo) (inner : List StateDef),
      Keeps R (addState library parent (.mk info inner))
  | parent, info, inner => by
    rw [addState_eq]
    refine .bind (alone parent info _) fun own => ?_
    refine .bind (addStates_keeps alone parental entry own.1 inner) fun kids => ?_
    refine .bind (parental _ _) fun _ => .bind (entry _ _ info _ kids) fun _ => ?_
    split
    · exact .bind (.reject _) fun _ => .pure _
    · exact .pure _
termination_by _ info inner => sizeOf (StateDef.mk info inner)

theorem addStates_keeps
    (alone : ∀ parent info hasChildren, Keeps R (addAlone library parent info hasChildren))
    (parental : ∀ s kids, Keeps R (modifyState s fun n => { n with children := kids }))
    (entry : ∀ s id info hasChildren kids, Keeps R (addEntry s id info hasChildren kids)) :
    ∀ (parent : StateIndex) (states : List StateDef), Keeps R (addStates library parent states)
  | _, [] => by
    rw [addStates]
    exact .pure _
  | parent, .mk info inner :: rest => by
    rw [addStates]
    refine .bind (addState_keeps alone parental entry (some parent) info inner) fun _ => ?_
    exact .bind (addStates_keeps alone parental entry parent rest) fun _ => .pure _
termination_by _ states => sizeOf states

end

end Keeping

mutual

/-- Adding a state with all that is inside it adds a tree. -/
theorem addState_tree (library : ActionLibrary) : ∀ (parent : Option Nat) (info : StateInfo)
    (inner : List StateDef) (d d' : Draft) (s : Nat), (∀ p, parent = some p → p < d.states.size) →
    (addState library parent (.mk info inner)).run d = .ok (s, d') →
    s = d.states.size ∧ (d'.state d.states.size).children.length = inner.length ∧
      Draft.Grows d.states.size d d' ∧ d.states.size < d'.states.size ∧
      (d'.state d.states.size).kind = stateKind info ∧
      d'.Forest parent [d.states.size] d.states.size d'.states.size
  | parent, info, inner, d, d', s, outside, run => by
    rw [addState_eq] at run
    obtain ⟨own,d₁,run₁,run⟩ := bind_eq_ok run
    obtain ⟨kids,d₂,run₂,run⟩ := bind_eq_ok run
    obtain ⟨_,d₃,run₃,run⟩ := bind_eq_ok run
    obtain ⟨_,d₄,run₄,run⟩ := bind_eq_ok run
    obtain ⟨eq,topped,leaf⟩ := addAlone_topped run₁
    rw [eq] at run₂ run₃ run₄ run
    have size := topped.size
    obtain ⟨length,grows,forest⟩ :=
      addStates_forest library d.states.size inner d₁ d₂ kids (by omega) run₂
    have larger := grows.states_size
    rw [size] at forest
    obtain ⟨states₃,transitions₃⟩ := modifyState_ok run₃
    have inside : d.states.size < d₃.states.size := by
      rw [states₃, Array.size_modify]
      omega
    have given := Draft.state_modify (i := d.states.size) states₃ (by omega)
    rw [if_pos rfl] at given
    have dresses₃ : d₂.Dresses d.states.size d₃ :=
      Draft.dresses_modify default d.states.size (by omega) states₃ (Or.inl transitions₃)
        rfl rfl fun t ht => Or.inl ht
    obtain ⟨dresses₄,children,initial⟩ := addEntry_ok inside run₄
    rw [given] at children
    have ended : s = d.states.size ∧ d' = d₄ := by
      split at run
      · cases run
      · cases run
        exact ⟨rfl, rfl⟩
    obtain ⟨rfl,rfl⟩ := ended
    refine ⟨rfl, by rw [children]; exact length, ?_⟩
    refine topped.tree outside grows forest (dresses₃.trans dresses₄) children ?_ ?_
    · intro special
      have none : inner = [] := by simpa using leaf special
      rw [none] at length
      exact List.length_eq_zero_iff.mp length
    · intro kind some
      refine initial kind ?_
      have present : inner ≠ [] := by
        rintro rfl
        exact some (List.length_eq_zero_iff.mp length)
      simpa using present
termination_by _ info inner => sizeOf (StateDef.mk info inner)

theorem addStates_forest (library : ActionLibrary) : ∀ (parent : Nat) (states : List StateDef)
    (d d' : Draft) (kids : List Nat), parent < d.states.size →
    (addStates library parent states).run d = .ok (kids, d') →
    kids.length = states.length ∧ Draft.Grows d.states.size d d' ∧
      d'.Forest (some parent) kids d.states.size d'.states.size
  | parent, [], d, d', kids, inside, run => by
    rw [addStates] at run
    cases run
    exact ⟨rfl, Draft.Grows.refl _ _, Draft.Forest.empty _ _ _⟩
  | parent, .mk info inner :: rest, d, d', kids, inside, run => by
    have outside : ∀ p, some parent = some p → p < d.states.size := by
      intro p eq
      cases eq
      exact inside
    rw [addStates] at run
    obtain ⟨s,d₁,run₁,run⟩ := bind_eq_ok run
    obtain ⟨others,d₂,run₂,run⟩ := bind_eq_ok run
    cases run
    obtain ⟨rfl,_,grows,larger,_,tree⟩ :=
      addState_tree library (some parent) info inner d d₁ s outside run₁
    obtain ⟨length,grows',forest⟩ :=
      addStates_forest library parent rest d₁ d' others (by omega) run₂
    refine ⟨by simp [length], grows.trans (grows'.weaken (by omega)), ?_⟩
    have tree := tree.grow (fun i _ high => grows'.states i high) grows'
    exact tree.append forest outside
termination_by _ states => sizeOf states

end

end Statechart.Compile

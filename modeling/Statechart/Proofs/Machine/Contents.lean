import Statechart.Proofs.Chart.Defaults
import Statechart.Proofs.Machine.Returning

/- Which executable content a microstep runs.

   A microstep is a row of portions: leaving, then the transitions one after another, then what is
   entered state by state. The content of a transition is a portion of its own, be it run for the
   transition itself, for a compound state that is entered by default, or for a state with a history
   state. So how often content is run is how often it stands in the row. -/
namespace Statechart

/-- One thing that a microstep does. -/
inductive Portion where
  /-- Records and leaves what some transitions leave. -/
  | leave (transitions : List TransitionIndex)
  | announce (t : TransitionIndex)
  /-- Runs the executable content of a transition. -/
  | content (t : TransitionIndex)
  | conclude (t : TransitionIndex)
  /-- Makes a state active and runs what it does on entry. -/
  | enter (s : StateIndex)
  | arrive (s : StateIndex)
deriving DecidableEq

def Chart.targetText (c : Chart) (t : TransitionIndex) : String :=
  String.intercalate " " ((c.transition t).targets.map fun s => (c.state s).id)

namespace Portion

open MachineM

def run (c : Chart) : Portion → MachineM Unit
  | .leave transitions => exitStates transitions
  | .announce t =>
    let node := c.transition t
    update (·.trace (.performing node.kind.name node.eventText (c.targetText t)))
  | .content t => executeBlock (c.transition t).actions
  | .conclude t =>
    let node := c.transition t
    update (·.trace (.performed node.kind.name node.eventText (c.targetText t)))
  | .enter s => do
    update (·.trace (.entering (c.state s).id))
    update (·.activate s)
    executeBlock (c.state s).onEntry
  | .arrive s => MachineM.arrive c s

/-- A transition is taken. -/
def performing (t : TransitionIndex) : List Portion := [.announce t, .content t, .conclude t]

/-- The transitions whose content is run in a state that is entered: the initial one if the state is
    entered by default, and the default that is noted for it. -/
def contents (c : Chart) (e : EntrySet) (s : StateIndex) : List TransitionIndex :=
  (if e.byDefault.contains s then (c.state s).initial.toList else []) ++
    (e.historyContent.lookup s).toList

def entering (c : Chart) (e : EntrySet) (s : StateIndex) : List Portion :=
  .enter s :: ((contents c e s).map .content ++ [.arrive s])

end Portion

namespace Machine

variable (m : Machine) (transitions : List TransitionIndex)

/-- What the machine enters when it takes some transitions. -/
def entry : EntrySet :=
  m.chart.entrySet (m.chart.recalled m.context.history m.context.configuration transitions) transitions

/-- What the machine does when it takes some transitions, portion by portion. Nothing is left at the
    initial entry. -/
def portions : List Portion :=
  let e := m.entry transitions
  let first :=
    if m.context.initialized then .leave transitions :: transitions.flatMap Portion.performing else []
  first ++ e.states.flatMap (Portion.entering m.chart e)

/-- How often the machine runs the content of a transition when it takes some transitions. -/
def timesRun (t : TransitionIndex) : Nat := (m.portions transitions).count (.content t)

/-- The machine comes across a history state without a record when it takes some transitions. -/
def FallsBack (h : StateIndex) : Prop :=
  m.chart.FallsBack (m.chart.recalled m.context.history m.context.configuration transitions)
    transitions (m.entry transitions).byDefault h

/-- The way the machine takes transitions: by a microstep, or by entering if it has not been entered. -/
def taking : MachineM Unit :=
  if m.context.initialized then MachineM.microstep transitions else MachineM.enterStates transitions

end Machine

namespace MachineM

open Machine

variable {α β : Type} {m m' n : Machine} {transitions : List TransitionIndex}

theorem forM_append (f : α → MachineM Unit) (l l' : List α) :
    (l ++ l').forM f = (l.forM f >>= fun _ => l'.forM f) := by
  induction l with
  | nil => rfl
  | cons a rest ih =>
    change (f a >>= fun _ => (rest ++ l').forM f) = ((f a >>= fun _ => rest.forM f) >>= _)
    rw [ih, bind_assoc]

theorem forM_singleton (f : α → MachineM Unit) (a : α) : [a].forM f = f a :=
  (bind_pure_unit : (f a >>= fun _ => pure ()) = f a)

theorem run_chart (c : Chart) (portion : Portion) :
    Same (fun m => m.chart) onlyCrash (portion.run c) := by
  have framed : ∀ {x : MachineM Unit}, Frames onlyCrash x → Same (fun m => m.chart) onlyCrash x :=
    Same.of_frames fun _ => rfl
  cases portion with
  | leave transitions => exact (exitStates_shell transitions).coarsen fun m => m.chart
  | announce t => exact framed (trace_frames _)
  | content t => exact framed (executeBlock_frames _)
  | conclude t => exact framed (trace_frames _)
  | enter s =>
    refine Keeps.bind (framed (trace_frames _)) fun _ => ?_
    exact Keeps.bind (Keeps.update fun _ => rfl) fun _ => framed (executeBlock_frames _)
  | arrive s =>
    exact enterByHistory_keeps (fun drifts => congrArg (fun m => m.chart) drifts.frame)
      (fun _ _ => rfl) {} c s

theorem forM_portions {f : α → MachineM Unit} {g : α → List Portion} {c : Chart} {l : List α}
    (step : ∀ a ∈ l, ∀ n : Machine, n.chart = c → f a n = (g a).forM (Portion.run c) n)
    (chart : n.chart = c) : l.forM f n = (l.flatMap g).forM (Portion.run c) n := by
  induction l generalizing n with
  | nil => rfl
  | cons a rest ih =>
    have first := step a List.mem_cons_self n chart
    have split : ((a :: rest).flatMap g).forM (Portion.run c) =
        ((g a).forM (Portion.run c) >>= fun _ => (rest.flatMap g).forM (Portion.run c)) :=
      forM_append _ (g a) _
    rw [split]
    change (f a >>= fun _ => rest.forM f) n = _
    cases run : (g a).forM (Portion.run c) n with
    | error i k => rw [bind_of_error _ run, bind_of_error _ (first.trans run)]
    | ok u k =>
      have kept : k.chart = n.chart := (Keeps.forM (fun b _ => run_chart c b) n).of_ok run
      rw [bind_of_ok _ run, bind_of_ok _ (first.trans run)]
      exact ih (fun b hb => step b (List.mem_cons_of_mem _ hb)) (kept.trans chart)

theorem performTransitions_run {c : Chart} (transitions : List TransitionIndex)
    (chart : n.chart = c) :
    performTransitions transitions n =
      (transitions.flatMap Portion.performing).forM (Portion.run c) n := by
  refine forM_portions (fun t _ n chart => ?_) chart
  subst chart
  rfl

theorem enterByHistory_eq (e : EntrySet) (c : Chart) (s : StateIndex) :
    enterByHistory e c s = (do
      ((e.historyContent.lookup s).toList.map Portion.content).forM (Portion.run c)
      arrive c s) := by
  unfold enterByHistory
  cases e.historyContent.lookup s with
  | none => rfl
  | some d => exact (congrArg (· >>= fun _ => arrive c s) (forM_singleton _ _)).symm

theorem afterActivation_eq (e : EntrySet) (c : Chart) (s : StateIndex) :
    afterActivation e c s = (do
      executeBlock (c.state s).onEntry
      ((Portion.contents c e s).map Portion.content).forM (Portion.run c)
      arrive c s) := by
  unfold afterActivation
  rw [Portion.contents, List.map_append, forM_append, bind_assoc, ← enterByHistory_eq]
  congr 1
  funext u
  cases e.byDefault.contains s with
  | false => rfl
  | true =>
    cases (c.state s).initial with
    | none => rfl
    | some t => exact (congrArg (· >>= fun _ => enterByHistory e c s) (forM_singleton _ _)).symm

theorem enterState_run {c : Chart} (e : EntrySet) (s : StateIndex) (chart : n.chart = c) :
    enterState e s n = (Portion.entering c e s).forM (Portion.run c) n := by
  subst chart
  rw [enterState_eq, get_bind, afterActivation_eq]
  refine congrArg (fun x : MachineM Unit => x n) ?_
  have row : (Portion.entering n.chart e s).forM (Portion.run n.chart) =
      (Portion.run n.chart (.enter s) >>= fun _ =>
        ((Portion.contents n.chart e s).map Portion.content).forM (Portion.run n.chart) >>=
          fun _ => [Portion.arrive s].forM (Portion.run n.chart)) :=
    congrArg (fun x => Portion.run n.chart (.enter s) >>= fun _ => x) (forM_append _ _ _)
  rw [row, forM_singleton]
  rfl

theorem enterStates_run {c : Chart} (chart : n.chart = c)
    (run : enterStates transitions n = .ok () m') :
    let e := c.entrySet n.context.history transitions
    (e.states.flatMap (Portion.entering c e)).forM (Portion.run c) n = .ok () m' := by
  subst chart
  exact (forM_portions (fun s _ n chart => enterState_run _ s chart) rfl).symm.trans
    (forM_of_enterStates run)

theorem microstep_run {c : Chart} (chart : n.chart = c)
    (run : microstep transitions n = .ok () m') :
    let e := c.entrySet (c.recalled n.context.history n.context.configuration transitions) transitions
    (.leave transitions :: transitions.flatMap Portion.performing ++
      e.states.flatMap (Portion.entering c e)).forM (Portion.run c) n = .ok () m' := by
  intro e
  obtain ⟨_,k,leaving,run⟩ := bind_eq_ok run
  obtain ⟨_,l,content,run⟩ := bind_eq_ok run
  obtain ⟨chart',-,recorded⟩ := exitStates_ok leaving
  have framed := (performTransitions_frames transitions).eq_of_ok content
  have chart'' : l.chart = k.chart := congrArg (fun m => m.chart) framed
  have history : l.context.history = k.context.history :=
    congrArg (fun m => m.context.history) framed
  have performed := (performTransitions_run transitions (chart'.trans chart)).symm.trans content
  have entered := enterStates_run (chart''.trans (chart'.trans chart)) run
  rw [history, recorded, chart] at entered
  have row : (.leave transitions :: transitions.flatMap Portion.performing ++
        e.states.flatMap (Portion.entering c e)).forM (Portion.run c) =
      (exitStates transitions >>= fun _ =>
        (transitions.flatMap Portion.performing).forM (Portion.run c) >>= fun _ =>
          (e.states.flatMap (Portion.entering c e)).forM (Portion.run c)) :=
    congrArg (fun x => exitStates transitions >>= fun _ => x) (forM_append _ _ _)
  rw [row, bind_of_ok _ leaving, bind_of_ok _ performed]
  exact entered

theorem taking_run (empty : m.context.initialized = false → m.context.configuration = [])
    (same : n.ground = m.ground) (run : m.taking transitions n = .ok () m') :
    (m.portions transitions).forM (Portion.run m.chart) n = .ok () m' := by
  obtain ⟨chart,configuration,history,_⟩ := ground_eq same
  unfold taking at run
  unfold portions entry
  cases entered : m.context.initialized with
  | true =>
    rw [entered] at run
    have run := microstep_run chart run
    rw [configuration, history] at run
    exact run
  | false =>
    rw [entered] at run
    have run := enterStates_run chart run
    have recalled : m.chart.recalled m.context.history m.context.configuration transitions =
        m.context.history := by
      rw [empty entered]
      simp [Chart.recalled, Chart.exitSet, Chart.recordAll]
    rw [history, ← recalled] at run
    exact run

theorem taking_shell (m : Machine) (transitions : List TransitionIndex) :
    Same Machine.shell onlyCrash (m.taking transitions) := by
  unfold taking
  split
  · exact microstep_shell transitions
  · exact enterStates_shell transitions

end MachineM

namespace Machine

open MachineM

variable {c : Chart} {m m' n : Machine} {transitions : List TransitionIndex}

theorem FallsBack.of_target {h : Nat}
    (direct : (∃ t ∈ transitions, h ∈ (m.chart.transition t).targets) ∧ m.chart.isHistory h = true ∧
      (m.chart.recalled m.context.history m.context.configuration transitions).lookup h = none) :
    m.FallsBack transitions h := by
  obtain ⟨⟨t,taken,named⟩,past,unrecorded⟩ := direct
  exact ⟨.target taken named, past, unrecorded⟩

/-- Transitions are taken where the machine is, and the machine goes on from there. -/
def Performs (m : Machine) (transitions : List TransitionIndex) (m' : Machine) : Prop :=
  ∃ (n : Machine) (rest : MachineM Control),
    n.ground = m.ground ∧ m' = n.proceed (m.taking transitions >>= fun _ => rest)

theorem performs_start (control : m.control = .starting) (something : m.ahead ≠ []) :
    m.Performs m.ahead (m.proceed MachineM.start) := by
  cases outside : m.context.initialized with
  | true => exact absurd (by simp [ahead, control, outside]) something
  | false =>
    have run := start_first outside
    cases declared : initializeData (m.reach .started) with
    | error i k => exact absurd (by simp [ahead, control, outside, declared]) something
    | ok u k =>
      have own : m.ahead = (m.chart.state Chart.root).initial.toList := by
        simp [ahead, control, outside, declared]
      have declaring : KeepsAt (fun m m' : Machine => m'.ground = m.ground) refused _ _ :=
        initializeData_frames (m.reach .started)
      have same : k.ground = m.ground := (declaring.of_ok declared).trans (ground_reach m _)
      unfold enterInitial at run
      rw [bind_of_ok _ declared] at run
      cases entry : (m.chart.state Chart.root).initial with
      | none => exact absurd (by rw [own, entry]; rfl) something
      | some t =>
        rw [entry] at run own
        unfold Performs
        rw [own, taking, if_neg (by simp [outside])]
        exact ⟨k, _, same, proceed_of_eq run⟩

theorem performs_macrostep (entered : m.context.initialized = true) (control : m.control = .macrostep)
    (something : m.ahead ≠ []) : m.Performs m.ahead (m.proceed macrostep) := by
  cases found : m.passAhead with
  | none => exact absurd (by simp [ahead, control, found]) something
  | some enabled =>
    have own : m.ahead = enabled := by simp [ahead, control, found]
    rw [own] at something ⊢
    obtain ⟨-,event,n,run,allowed⟩ := passAhead_look found
    have framed : n.frame = m.frame := (look_same m).of_ok run
    have same : n.frame.ground = m.frame.ground := congrArg ground framed
    refine ⟨{ n with steps := n.steps + 1 }, pure (.effects .macrostep), same, ?_⟩
    refine proceed_of_eq ((macrostep_of_look run).trans ((pass_run enabled n).trans ?_))
    rw [if_neg (by omega), if_neg (by simpa using something), taking, if_pos entered]

theorem performs_take (entered : m.control = .waiting → m.context.initialized = true) {input : Input}
    (something : m.aheadOn input ≠ []) : m.Performs (m.aheadOn input) (m.take input) := by
  rcases aheadOn_receive m input with none | ⟨waiting,e,n,rfl,run,same⟩
  · exact absurd none something
  · refine ⟨{ n with steps := n.steps + 1 }, pure (.effects .macrostep), same, ?_⟩
    rw [take_waiting waiting]
    refine proceed_of_eq ?_
    rw [takeInput, process_eq, bind_of_ok _ run, taking, if_pos (entered waiting)]
    have some' : (!(m.aheadOn (.event e)).isEmpty) = true := by simpa using something
    rw [respond, if_pos some']
    rfl

theorem takes_performs (unentered : m.Unentered) (takes : Takes m transitions m')
    (something : transitions ≠ []) : m.Performs transitions m' := by
  cases takes with
  | work work =>
    cases work.worked with
    | start control => exact performs_start control something
    | macrostep control =>
      have entered := unentered.entered (by simp [control]) (by simp [control])
      exact performs_macrostep entered control something
    | goOn control => exact absurd (ahead_other (by simp [control]) (by simp [control])) something
    | effects control => exact absurd (ahead_other (by simp [control]) (by simp [control])) something
    | started control => exact absurd (ahead_other (by simp [control]) (by simp [control])) something
  | take input =>
    exact performs_take (fun waiting => unentered.entered (by simp [waiting]) (by simp [waiting]))
      something
  | disturb => exact absurd rfl something
  | restart => exact absurd rfl something
  | retry => exact absurd rfl something

/-- What is taken has been prompted or enters the root, and neither can be by a history state. -/
theorem Intact.sources {library : ActionLibrary} {source : Source.ChartDef}
    (accepted : Chart.compile library source = .ok c) (intact : m.Intact c)
    (takes : Takes m transitions m') :
    ∀ t ∈ transitions, c.isHistory (c.transition t).source = false := by
  have wf := Chart.compile_wellFormed accepted
  obtain ⟨⟨rfl,-,-⟩,-,ordinary⟩ := intact
  rcases takes_origin takes with rfl | ⟨t,rfl,-,enters⟩ | chosen
  · exact fun t none => by cases none
  · intro u hu
    obtain rfl := List.mem_singleton.mp hu
    rw [Chart.compile_entries accepted enters, Chart.isHistory, wf.root_kind]
  · intro t ht
    obtain ⟨y,hy,-,within⟩ := chosen.prompted wf t ht
    rcases within with here | below
    · exact here ▸ ordinary y hy
    · exact wf.ordinary_of_below below

theorem run_records {library : ActionLibrary} {source : Source.ChartDef}
    (accepted : Chart.compile library source = .ok c) {options : Options} {memory : Memory}
    (run : Run (create c options memory).start m) : m.control = .crashed ∨
      (m.Intact c ∧ ∀ entry ∈ m.context.history, ∀ r ∈ entry.2, c.isHistory r = false) := by
  have wf := Chart.compile_wellFormed accepted
  refine @Run.invariant (fun m => m.control = .crashed ∨ (m.Intact c ∧
    ∀ entry ∈ m.context.history, ∀ r ∈ entry.2, c.isHistory r = false)) _ _ run
    (Or.inr ⟨create_intact accepted options memory, fun _ none => (by cases none)⟩) ?_
  rintro a b (crashed | ⟨intact,records⟩) move
  · obtain ⟨transitions,takes⟩ := move.takes
    exact Or.inl (takes_crashed takes crashed)
  · obtain ⟨transitions,takes⟩ := move.takes
    refine (intact.onward wf takes).imp id ?_
    rintro ⟨intact',arrives⟩
    refine ⟨intact', ?_⟩
    obtain ⟨⟨rfl,-,-⟩,-,ordinary⟩ := intact
    cases arrives with
    | taken taken =>
      rw [taken.history]
      exact Chart.recalled_ordinary ordinary records
    | left left =>
      rw [left.history]
      exact records

/-- Of rows that are put together, only one has something in it. -/
theorem count_flatMap_of_one {α β : Type} [DecidableEq α] [DecidableEq β] {l : List α}
    {f : α → List β} {b : β} {a : α} {k : Nat} (once : l.Nodup)
    (counts : ∀ x ∈ l, (f x).count b = if x = a then k else 0) :
    (l.flatMap f).count b = if a ∈ l then k else 0 := by
  induction l with
  | nil => rfl
  | cons x rest ih =>
    obtain ⟨fresh,once⟩ := List.nodup_cons.mp once
    rw [List.flatMap_cons, List.count_append, counts x List.mem_cons_self,
      ih once fun y hy => counts y (List.mem_cons_of_mem _ hy)]
    by_cases here : x = a
    · subst here
      simp [fresh]
    · simp [here, Ne.symm here]

section Counting

variable {library : ActionLibrary} {source : Source.ChartDef} {h p d s : Nat}
  (accepted : Chart.compile library source = .ok c) (intact : m.Intact c)
  (records : ∀ entry ∈ m.context.history, ∀ r ∈ entry.2, c.isHistory r = false)
  (uncircular : c.Uncircular)

include accepted intact records uncircular

theorem entry_noted (back : m.FallsBack transitions h) (hp : (c.state h).parent = some p)
    (enters : (c.state h).initial = some d) :
    ∃ d', (m.entry transitions).historyContent.lookup p = some d' := by
  have wf := Chart.compile_wellFormed accepted
  obtain ⟨⟨rfl,-,inward⟩,-,ordinary⟩ := intact
  exact wf.entrySet_noted (inward.recordAll wf.toIsTree _) (Chart.recalled_ordinary ordinary records)
    uncircular back hp enters

theorem entry_accounted (noted : (m.entry transitions).historyContent.lookup p = some d) :
    ∃ h, m.FallsBack transitions h ∧ (c.state h).parent = some p ∧
      (c.state h).initial = some d := by
  have wf := Chart.compile_wellFormed accepted
  obtain ⟨⟨rfl,-,inward⟩,-,ordinary⟩ := intact
  exact wf.entrySet_accounted (inward.recordAll wf.toIsTree _)
    (Chart.recalled_ordinary ordinary records) uncircular noted

/-- The default of a history state is run where its parent is entered, if it is what is noted there. -/
theorem contents_default (past : c.isHistory h = true) (hp : (c.state h).parent = some p)
    (enters : (c.state h).initial = some d) (plain : c.isHistory s = false) :
    (Portion.contents c (m.entry transitions) s).count d =
      if s = p then ((m.entry transitions).historyContent.lookup p).toList.count d else 0 := by
  have own : (c.transition d).source = h := Chart.compile_entries accepted enters
  have other : d ∉ (if (m.entry transitions).byDefault.contains s then
      (c.state s).initial.toList else []) := by
    intro found
    split at found
    · have same := Chart.compile_entries accepted (Option.mem_toList.mp found)
      rw [← same, own, past] at plain
      cases plain
    · cases found
  rw [Portion.contents, List.count_append, List.count_eq_zero.mpr other, Nat.zero_add]
  split
  · rename_i here
    rw [here]
  · rename_i elsewhere
    refine List.count_eq_zero.mpr fun noted => elsewhere ?_
    obtain ⟨g,-,hg,enters'⟩ :=
      entry_accounted accepted intact records uncircular (Option.mem_toList.mp noted)
    obtain rfl : g = h := (Chart.compile_entries accepted enters').symm.trans own
    exact Option.some.inj (hg.symm.trans hp)

/-- The default of a history state is run if its parent is entered and it is what is noted there. -/
theorem timesRun_default (takes : Takes m transitions m') (past : c.isHistory h = true)
    (hp : (c.state h).parent = some p) (enters : (c.state h).initial = some d) :
    m.timesRun transitions d =
      if p ∈ (m.entry transitions).states then
        ((m.entry transitions).historyContent.lookup p).toList.count d else 0 := by
  have own : (c.transition d).source = h := Chart.compile_entries accepted enters
  have first : Portion.content d ∉ (if m.context.initialized then
      .leave transitions :: transitions.flatMap Portion.performing else [] : List Portion) := by
    intro found
    split at found
    · rcases List.mem_cons.mp found with absurd | found
      · cases absurd
      · obtain ⟨t,ht,found⟩ := List.mem_flatMap.mp found
        obtain rfl : d = t := by simpa [Portion.performing] using found
        have plain := intact.sources accepted takes d ht
        rw [own, past] at plain
        cases plain
    · cases found
  rw [timesRun, portions, List.count_append, List.count_eq_zero.mpr first, Nat.zero_add]
  have wf := Chart.compile_wellFormed accepted
  obtain rfl := intact.grounded.chart
  refine count_flatMap_of_one ((m.chart.entrySet_ascending _ _).imp Nat.ne_of_lt) fun s hs => ?_
  rw [← contents_default accepted intact records uncircular past hp enters
    (wf.entrySet_ordinary _ _ s hs)]
  have apart : Portion.content d ∉ [Portion.arrive s] := by simp
  rw [Portion.entering, List.count_cons_of_ne (by simp), List.count_append,
    List.count_eq_zero.mpr apart, Nat.add_zero]
  exact List.count_map_of_injective _ _ (fun a b same => Portion.content.inj same) d

end Counting

/-- Let no default of a history state lead back to it. A machine takes transitions portion by portion
    until it breaks down. When it comes across a history state without a record whose parent is entered,
    the content of the default of one such child of the parent is run once, and that of no other history
    state there. So it is run once if there is no other such child. If the parent is not entered, the
    content is not run. -/
theorem history_defaults_run {library : ActionLibrary} {source : Source.ChartDef}
    (accepted : Chart.compile library source = .ok c) (uncircular : c.Uncircular) {options : Options}
    {memory : Memory} (run : Run (create c options memory).start m) (takes : Takes m transitions m')
    (going : m'.control ≠ .crashed) :
    (transitions ≠ [] → ∃ (n k : Machine) (rest : MachineM Control), n.ground = m.ground ∧
      m.taking transitions n = .ok () k ∧ (m.portions transitions).forM (Portion.run c) n = .ok () k ∧
      m' = k.proceed rest) ∧
    ∀ h p d : Nat, m.FallsBack transitions h → (c.state h).parent = some p →
      (c.state h).initial = some d →
      (p ∈ (m.entry transitions).states →
        (∃ g e : Nat, m.FallsBack transitions g ∧ (c.state g).parent = some p ∧
          (c.state g).initial = some e ∧ m.timesRun transitions e = 1 ∧
          ∀ g' e' : Nat, c.isHistory g' = true → (c.state g').parent = some p →
            (c.state g').initial = some e' → g' ≠ g → m.timesRun transitions e' = 0) ∧
        ((∀ g, m.FallsBack transitions g → (c.state g).parent = some p → g = h) →
          m.timesRun transitions d = 1)) ∧
      (p ∉ (m.entry transitions).states → m.timesRun transitions d = 0) := by
  have going' : m.control ≠ .crashed := fun crashed => going (takes_crashed takes crashed)
  obtain ⟨intact,records⟩ := (run_records accepted run).resolve_left going'
  have times := fun {h p d : Nat} => timesRun_default (h := h) (p := p) (d := d) accepted intact records
    uncircular takes
  have chart := intact.grounded.chart
  refine ⟨fun something => ?_, fun h p d back hp enters => ⟨fun entered => ?_, fun outside => ?_⟩⟩
  · have unentered := intact.grounded.unentered
    obtain ⟨n,rest,same,moved⟩ := takes_performs unentered takes something
    cases taken : m.taking transitions n with
    | error i k =>
      -- Nothing but a crash stops the transitions, and the machine has not crashed.
      obtain rfl : i = .crash := ((taking_shell m transitions n).of_error taken).2
      refine absurd ?_ going
      rw [moved, proceed, bind_of_error _ taken]
    | ok u k =>
      refine ⟨n, k, rest, same, taken, ?_, moved.trans (proceed_of_eq (bind_of_ok _ taken))⟩
      exact chart ▸ taking_run (fun outside => (unentered outside).1) same taken
  · -- One default is noted for the parent; it is that of a history state without a record.
    obtain ⟨e,noted⟩ := entry_noted accepted intact records uncircular back hp enters
    obtain ⟨g,back',hg,enters'⟩ := entry_accounted accepted intact records uncircular noted
    have one : m.timesRun transitions e = 1 := by
      rw [times (chart ▸ back'.past) hg enters', if_pos entered, noted]
      simp
    refine ⟨⟨g, e, back', hg, enters', one, fun g' e' past hg' enters'' other => ?_⟩, fun alone => ?_⟩
    · rw [times past hg' enters'', if_pos entered, noted]
      refine List.count_eq_zero.mpr fun same => other ?_
      obtain rfl : e' = e := by simpa using same
      exact (Chart.compile_entries accepted enters'').symm.trans (Chart.compile_entries accepted enters')
    · obtain rfl := alone g back' hg
      rw [enters] at enters'
      cases enters'
      exact one
  · rw [times (chart ▸ back.past) hp enters, if_neg outside]

end Machine

namespace LoggingDefaults

open Source

def going (event : String) (targets : List String) : TransitionDef :=
  ⟨some [event], none, some targets, .external, []⟩

/-- A history state whose default logs its name. -/
def past (name target : String) : StateDef :=
  .mk (.simple name .history [⟨none, none, some [target], .external, [.log (some name) none]⟩]) []

/-- A state that can be left for one or two history states of a parallel state, or go back to its own
    history state. -/
def source : ChartDef where
  name := none
  initial := none
  data := []
  extra := none
  states :=
    [.mk (.simple "p" .state [])
      [past "h" "p1",
        .mk (.simple "p1" .state [going "again" ["h"], going "one" ["g"], going "both" ["g", "i"]]) []],
      .mk (.simple "q" .parallel [])
        [past "g" "a2", past "i" "b2",
          .mk (.simple "a" .state []) [.mk (.simple "a1" .state []) [], .mk (.simple "a2" .state []) []],
          .mk (.simple "b" .state []) [.mk (.simple "b1" .state []) [], .mk (.simple "b2" .state []) []]]]

def chart : Chart := Chart.compiled [] source

def machine : Machine := (Machine.create chart { sessionId := "s" } default).start

def waiting : Machine := Machine.step^[4] machine

def event (name : String) : Event := { name := ⟨[name]⟩, type := .external }

def sending (name : String) : Machine := waiting.take (.event (event name))

def lines (m : Machine) : List String := m.reports.filterMap Report.line?

theorem takes {name : String} {t : TransitionIndex}
    (found : waiting.aheadOn (.event (event name)) = [t]) : Machine.Takes waiting [t] (sending name) :=
  found ▸ .take _ _

/-- The chart is accepted and no default is circular, and the machine comes to wait. -/
theorem ready : Chart.compile [] source = .ok chart ∧ chart.Uncircular ∧
    Machine.Run machine waiting := by
  have peopled : chart.Peopled := Chart.peopled_of_check (by decide +kernel)
  exact ⟨Chart.compile_eq_compiled (by decide +kernel), peopled.uncircular,
    .iterate (.refl _) 4 (by decide +kernel)⟩

/-- What is taken on each event, and with it the history states without a record that it comes across. -/
theorem taken : (waiting.aheadOn (.event (event "again")) = [1] ∧
      (sending "again").isOver = false ∧ waiting.FallsBack [1] 2) ∧
    (waiting.aheadOn (.event (event "one")) = [2] ∧ (sending "one").isOver = false ∧
      waiting.FallsBack [2] 5 ∧ ∀ g, waiting.FallsBack [2] g → g = 5) ∧
    waiting.aheadOn (.event (event "both")) = [3] ∧ (sending "both").isOver = false ∧
      waiting.FallsBack [3] 5 ∧ waiting.FallsBack [3] 6 := by
  have only : ∀ g ∈ [5, 9, 11], waiting.chart.isHistory g = true → g = 5 := by decide +kernel
  refine ⟨⟨?_, ?_, .of_target ?_⟩, ⟨?_, ?_, .of_target ?_, fun g back => ?_⟩, ?_, ?_, .of_target ?_,
    .of_target ?_⟩
  case refine_7 => exact only g (back.sought.mem (by decide +kernel)) back.past
  all_goals decide +kernel

/-- Of two history states of the parallel state one has its default run, and if there is only one, this
    has. That of the state that stays active has not. -/
theorem defaults_logged : waiting.timesRun [2] 5 = 1 ∧ lines (sending "one") = ["INFO g: undefined"] ∧
    (∃ g e : Nat, waiting.FallsBack [3] g ∧ (chart.state g).initial = some e ∧
      waiting.timesRun [3] e = 1) ∧ lines (sending "both") = ["INFO i: undefined"] ∧
    waiting.timesRun [1] 0 = 0 ∧ lines (sending "again") = [] := by
  obtain ⟨accepted,uncircular,run⟩ := ready
  obtain ⟨⟨again,going,back⟩,⟨one,going',back',alone⟩,both,going'',back'',-⟩ := taken
  have run₁ := (Machine.history_defaults_run accepted uncircular run (takes again)
    (Machine.not_crashed going)).2 2 1 0 back
  have run₂ := (Machine.history_defaults_run accepted uncircular run (takes one)
    (Machine.not_crashed going')).2 5 4 5 back'
  have run₃ := (Machine.history_defaults_run accepted uncircular run (takes both)
    (Machine.not_crashed going'')).2 5 4 5 back''
  obtain ⟨⟨home,home',enters,enters'⟩,⟨outside,entered,entered'⟩,quiet,first,second⟩ :
      ((chart.state 2).parent = some 1 ∧ (chart.state 5).parent = some 4 ∧
        (chart.state 2).initial = some 0 ∧ (chart.state 5).initial = some 5) ∧
      (1 ∉ (waiting.entry [1]).states ∧ 4 ∈ (waiting.entry [2]).states ∧
        4 ∈ (waiting.entry [3]).states) ∧
      lines (sending "again") = [] ∧ lines (sending "one") = ["INFO g: undefined"] ∧
      lines (sending "both") = ["INFO i: undefined"] := by decide +kernel
  obtain ⟨g,e,fallen,-,own,once,-⟩ := ((run₃ home' enters').1 entered').1
  exact ⟨((run₂ home' enters').1 entered).2 fun g fallen _ => alone g fallen, first,
    ⟨g, e, fallen, own, once⟩, second, (run₁ home enters).2 outside, quiet⟩

/-- Both of two history states of the parallel state have a default to log, and only one is logged. That
    of the history state whose parent stays active is not logged at all. -/
theorem defaults_passed_over : Chart.compile [] source = .ok chart ∧ chart.Uncircular ∧
    Machine.Run machine waiting ∧
    (Machine.Takes waiting [3] (sending "both") ∧ (sending "both").isOver = false ∧
      waiting.FallsBack [3] 5 ∧ waiting.FallsBack [3] 6 ∧ (chart.state 5).initial = some 5 ∧
      (chart.transition 5).actions.length = 1 ∧ waiting.timesRun [3] 5 = 0 ∧
      waiting.timesRun [3] 6 = 1 ∧ lines (sending "both") = ["INFO i: undefined"]) ∧
    Machine.Takes waiting [1] (sending "again") ∧ (sending "again").isOver = false ∧
      waiting.FallsBack [1] 2 ∧ (chart.state 2).initial = some 0 ∧
      (chart.transition 0).actions.length = 1 ∧ waiting.timesRun [1] 0 = 0 ∧
      lines (sending "again") = [] := by
  obtain ⟨accepted,uncircular,run⟩ := ready
  obtain ⟨⟨again,going,back⟩,-,both,going',back',back''⟩ := taken
  refine ⟨accepted, uncircular, run, ⟨takes both, going', back', back'', ?_⟩, takes again, going, back, ?_⟩
  · decide +kernel
  · decide +kernel

end LoggingDefaults

end Statechart

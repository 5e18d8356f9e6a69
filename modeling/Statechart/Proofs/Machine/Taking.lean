import Statechart.Proofs.Chart.Scope
import Statechart.Proofs.Machine.Orderly

/- What a move of a machine does to its configuration and to the records of its history states.

   Only taking transitions changes them, in a microstep or at the initial entry, and completing,
   which leaves all states. So a move is known by the transitions that it takes. -/
namespace Statechart

namespace Machine

open MachineM

variable {m m' n : Machine} {transitions : List TransitionIndex}

/-- The transitions of the pass that the next piece of work carries out, if it carries one out. -/
def passAhead (m : Machine) : Option (List TransitionIndex) :=
  match m.control with
  | .macrostep =>
    match look m with
    | .ok (.transitions _ enabled) n =>
      if n.steps < n.options.maxMicrosteps then some enabled else none
    | _ => none
  | _ => none

/-- The transitions that the next piece of work takes: those that a pass has found, or the one that
    enters the initial configuration. -/
def ahead (m : Machine) : List TransitionIndex :=
  match m.control with
  | .starting =>
    match m.context.initialized, initializeData (m.reach .started) with
    | false, .ok _ _ => (m.chart.state Chart.root).initial.toList
    | _, _ => []
  | _ => m.passAhead.getD []

/-- The transitions that a waiting machine takes on an input. -/
def aheadOn (m : Machine) (input : Input) : List TransitionIndex :=
  match m.control, input with
  | .waiting, .event e =>
    match receive e m with
    | .ok enabled _ => enabled
    | .error _ _ => []
  | _, _ => []

inductive Takes : Machine → List TransitionIndex → Machine → Prop where
  | work {m m' : Machine} (work : Work m m') : Takes m m.ahead m'
  | take (m : Machine) (input : Input) : Takes m (m.aheadOn input) (m.take input)
  | disturb (m : Machine) (memory : Memory) (destroyed : Bool) (reports : List Report) :
      Takes m [] (m.disturb memory destroyed reports)
  | restart (m : Machine) (status : ExitStatus) (early : status ≠ .completed)
      (ended : m.control = .exited status) : Takes m [] m.start
  | retry (m : Machine) (fault : Fault) (ended : m.control = .aborted fault) : Takes m [] m.start

theorem Takes.move (takes : Takes m transitions m') : Move m m' := by
  cases takes with
  | work work => exact .work work
  | take input => exact .take m input
  | disturb memory destroyed reports => exact .disturb m memory destroyed reports
  | restart status early ended => exact .restart m status early ended
  | retry fault ended => exact .retry m fault ended

theorem Move.takes (move : Move m m') : ∃ transitions, Takes m transitions m' := by
  cases move with
  | work work => exact ⟨_, .work work⟩
  | take input => exact ⟨_, .take m input⟩
  | disturb memory destroyed reports => exact ⟨_, .disturb m memory destroyed reports⟩
  | restart status early ended => exact ⟨_, .restart m status early ended⟩
  | retry fault ended => exact ⟨_, .retry m fault ended⟩

/-- A run in which all that is taken satisfies a condition on the machine that takes it. -/
inductive Course (P : Machine → List TransitionIndex → Prop) : Machine → Machine → Prop where
  | refl (m : Machine) : Course P m m
  | next {m m' m'' : Machine} {transitions : List TransitionIndex} (course : Course P m m')
      (takes : Takes m' transitions m'') (holds : P m' transitions) : Course P m m''

theorem Course.run {P : Machine → List TransitionIndex → Prop} (course : Course P m m') :
    Run m m' := by
  induction course with
  | refl => exact .refl _
  | next _ takes _ ih => exact .next ih takes.move

theorem Course.iterate {P : Machine → List TransitionIndex → Prop} (course : Course P n m) (k : Nat)
    (free : ∀ i < k, (step^[i] m).isBlocked = false ∧ P (step^[i] m) (step^[i] m).ahead) :
    Course P n (step^[k] m) := by
  induction k with
  | zero => exact course
  | succ k ih =>
    obtain ⟨running,holds⟩ := free k k.lt_succ_self
    rw [Function.iterate_succ_apply']
    exact (ih fun i hi => free i (Nat.lt_succ_of_lt hi)).next (.work (.step _ running)) holds

/-- What the configuration and the records depend on. -/
def ground (m : Machine) : Chart × List StateIndex × HistoryTable × Bool :=
  (m.chart, m.context.configuration, m.context.history, m.context.initialized)

/-- Before the initial entry nothing is active, and nothing but the entry can come next. -/
def Unentered (m : Machine) : Prop :=
  m.context.initialized = false →
    m.context.configuration = [] ∧ (m.control = .starting ∨ ∃ f, m.control = .aborted f)

/-- The machine comes to enter a state: what is entered before it has been. -/
def Approaches (m : Machine) (transitions : List TransitionIndex) (s : StateIndex) (k : Machine) :
    Prop :=
  ∃ before after, (m.chart.entrySet m.context.history transitions).states = before ++ s :: after ∧
    before.forM (enterState (m.chart.entrySet m.context.history transitions)) m = .ok () k

/-- What the machine is when it is about to enter a state for the transitions that it takes, in a
    microstep or at the initial entry. Nothing that matters has changed before. -/
inductive Entering (m : Machine) (transitions : List TransitionIndex) (s : StateIndex)
    (k : Machine) : Prop where
  | microstep {n n' : Machine} (same : n.ground = m.ground)
      (left : (do exitStates transitions; performTransitions transitions) n = .ok () n')
      (next : n'.Approaches transitions s k)
  | initial {n : Machine} (same : n.ground = m.ground) (empty : m.context.configuration = [])
      (next : n.Approaches transitions s k)

/-- Transitions have been taken: what they leave is left and recorded, what they enter is entered
    state by state and active. -/
structure Taken (m : Machine) (transitions : List TransitionIndex) (m' : Machine) : Prop where
  chart : m'.chart = m.chart
  configuration : ∀ x, x ∈ m'.context.configuration ↔
    m.chart.Remains m.context.history m.context.configuration transitions x ∨
      x ∈ m.chart.entered m.context.history m.context.configuration transitions
  history : m'.context.history =
    m.chart.recalled m.context.history m.context.configuration transitions
  entries : ∀ s ∈ m.chart.entered m.context.history m.context.configuration transitions,
    ∃ k k', Entering m transitions s k ∧
      enterState (k.chart.entrySet k.context.history transitions) s k = .ok () k'

theorem Taken.entering (taken : Taken m transitions m') :
    ∀ s ∈ m.chart.entered m.context.history m.context.configuration transitions,
      ∃ k, Entering m transitions s k := fun s hs =>
  have ⟨k,_,entering,_⟩ := taken.entries s hs
  ⟨k, entering⟩

/-- All states have been left. -/
structure Left (m m' : Machine) : Prop where
  chart : m'.chart = m.chart
  configuration : m'.context.configuration = []
  history : m'.context.history = m.context.history

/-- Where a move leads. -/
inductive Arrives (m : Machine) : List TransitionIndex → Machine → Prop where
  | taken {transitions : List TransitionIndex} {m' : Machine} (taken : Taken m transitions m') :
      Arrives m transitions m'
  | left {m' : Machine} (left : Left m m') : Arrives m [] m'

theorem ground_reach (m : Machine) (p : LifePoint) : (m.reach p).ground = m.ground := by
  have framed : (m.reach p).frame.ground = m.frame.ground := congrArg ground (m.frame_reach p)
  exact framed

theorem ground_eq (same : m'.ground = n.ground) : m'.chart = n.chart ∧
    m'.context.configuration = n.context.configuration ∧
    m'.context.history = n.context.history ∧ m'.context.initialized = n.context.initialized := by
  simpa [ground] using same

theorem Arrives.of_ground (arrives : Arrives m transitions n) (same : m'.ground = n.ground) :
    Arrives m transitions m' := by
  obtain ⟨chart,configuration,history,_⟩ := ground_eq same
  cases arrives with
  | taken taken =>
    exact .taken ⟨chart.trans taken.chart, by rw [configuration]; exact taken.configuration,
      history.trans taken.history, taken.entries⟩
  | left left =>
    exact .left ⟨chart.trans left.chart, configuration.trans left.configuration,
      history.trans left.history⟩

theorem Entering.from_ground {s : StateIndex} {k : Machine} (entering : Entering n transitions s k)
    (same : n.ground = m.ground) : Entering m transitions s k := by
  cases entering with
  | microstep first left next => exact .microstep (first.trans same) left next
  | initial first empty next =>
    exact .initial (first.trans same) ((ground_eq same).2.1.symm.trans empty) next

theorem Taken.from_ground (taken : Taken n transitions m') (same : n.ground = m.ground) :
    Taken m transitions m' := by
  obtain ⟨chart,configuration,history,_⟩ := ground_eq same
  refine ⟨taken.chart.trans chart, ?_, ?_, ?_⟩
  · rw [← chart, ← configuration, ← history]
    exact taken.configuration
  · rw [← chart, ← configuration, ← history]
    exact taken.history
  · rw [← chart, ← configuration, ← history]
    intro s hs
    obtain ⟨k,k',entering,entered⟩ := taken.entries s hs
    exact ⟨k, k', entering.from_ground same, entered⟩

/-- Taking nothing changes nothing. -/
theorem Arrives.none (same : m'.ground = m.ground) : Arrives m [] m' := by
  refine Arrives.of_ground (n := m) (.taken ⟨rfl, fun x => ?_, ?_, ?_⟩) same
  · simp [Chart.Remains, Chart.entered, Chart.exitSet, Chart.entrySet]
  · simp [Chart.recalled, Chart.exitSet, Chart.recordAll]
  · intro s hs
    cases hs

theorem Unentered.entered (unentered : m.Unentered) (started : m.control ≠ .starting)
    (unbroken : ∀ f, m.control ≠ .aborted f) : m.context.initialized = true := by
  by_contra outside
  rcases (unentered (by simpa using outside)).2 with starting | ⟨f,aborted⟩
  · exact started starting
  · exact unbroken f aborted

theorem Unentered.of_entered (entered : m.context.initialized = true) : m.Unentered := by
  intro outside
  rw [entered] at outside
  cases outside

/-- A move leads on, unless the machine breaks down. -/
def Onward (m : Machine) (transitions : List TransitionIndex) (m' : Machine) : Prop :=
  m'.control = .crashed ∨ (m'.Unentered ∧ Arrives m transitions m')

theorem onward_of_leads {part : MachineM Control} {k : Machine}
    (leads : Leads part k (fun _ n => n.context.initialized = true ∧ Arrives m transitions n)
      fun i n => i = .crash ∨ (n.context.initialized = true ∧ Arrives m transitions n)) :
    Onward m transitions (k.proceed part) := by
  have settled : ∀ a b : Machine, a.ground = b.ground →
      b.context.initialized = true ∧ Arrives m transitions b → Onward m transitions a := by
    intro a b same after
    exact Or.inr ⟨.of_entered ((ground_eq same).2.2.2.trans after.1), after.2.of_ground same⟩
  have aborted : ∀ f (n : Machine), Interrupt.fault f = .crash ∨
      (n.context.initialized = true ∧ Arrives m transitions n) →
        Onward m transitions (proceed.abort n f) := by
    rintro f n (absurd | after)
    · cases absurd
    · exact settled _ n (ground_reach n _) after
  refine proceed_leads leads ?_ aborted ?_ ?_
  · exact fun control n _ after => settled _ n rfl after
  · rintro f n (absurd | after)
    · cases absurd
    · exact aborted _ n (Or.inr after)
  · exact fun n _ => Or.inl rfl

theorem onward_of_same {part : MachineM Control} {P : Interrupt → Prop} {k : Machine}
    (entered : m.context.initialized = true) (start : k.ground = m.ground)
    (same : Same ground P part) : Onward m [] (k.proceed part) := by
  have reached : ∀ n : Machine, n.ground = k.ground →
      n.context.initialized = true ∧ Arrives m [] n := by
    intro n same
    have all := same.trans start
    exact ⟨(ground_eq all).2.2.2.trans entered, .none all⟩
  exact onward_of_leads ((same k).leads.mono (fun _ n _ kept => reached n kept)
    fun _ n stopped => Or.inr (reached n stopped.1))

end Machine

namespace MachineM

open Machine

variable {m m' n : Machine} {transitions : List TransitionIndex}

theorem enterStates_history (enabled : List TransitionIndex) :
    Same (fun m => m.context.history) onlyCrash (enterStates enabled) :=
  enterStates_keeps (fun drifts => congrArg (fun m => m.context.history) drifts.frame)
    (fun _ _ => rfl) (fun _ _ => rfl) enabled

theorem forM_append_ok {α : Type} {f : α → MachineM Unit} {before after : List α} {u : Unit}
    (run : (before ++ after).forM f m = .ok u m') :
    ∃ k, before.forM f m = .ok () k ∧ after.forM f k = .ok u m' := by
  induction before generalizing m with
  | nil => exact ⟨m, rfl, run⟩
  | cons a rest ih =>
    obtain ⟨_,n,first,run⟩ := bind_eq_ok run
    obtain ⟨k,rest,later⟩ := ih run
    exact ⟨k, (bind_of_ok _ first).trans rest, later⟩

theorem enterStates_entries {u : Unit} {s : StateIndex}
    (run : enterStates transitions m = .ok u m')
    (hs : s ∈ (m.chart.entrySet m.context.history transitions).states) :
    ∃ k k', m.Approaches transitions s k ∧
      enterState (k.chart.entrySet k.context.history transitions) s k = .ok () k' := by
  obtain ⟨before,after,order⟩ := List.append_of_mem hs
  have all : (m.chart.entrySet m.context.history transitions).states.forM
      (enterState (m.chart.entrySet m.context.history transitions)) m = .ok u m' :=
    forM_of_enterStates run
  rw [order] at all
  obtain ⟨k,first,run⟩ := forM_append_ok all
  obtain ⟨_,k',entered,_⟩ := bind_eq_ok run
  have recorded : Same (fun m => m.context.history) onlyCrash
      (before.forM (enterState (m.chart.entrySet m.context.history transitions))) :=
    Keeps.forM fun s _ => enterState_keeps
      (fun drifts => congrArg (fun m => m.context.history) drifts.frame) (fun _ _ => rfl) _ s
      fun _ => rfl
  have kept : k.context.history = m.context.history := (recorded m).of_ok first
  refine ⟨k, k', ⟨before, after, order, first⟩, ?_⟩
  rw [(enterAll_ok first).1, kept]
  exact entered

theorem microstep_taken {u : Unit} (run : microstep transitions m = .ok u m') :
    Taken m transitions m' := by
  obtain ⟨chart,members⟩ := microstep_ok run
  obtain ⟨_,m₁,leaving,run⟩ := bind_eq_ok run
  obtain ⟨_,m₂,content,run⟩ := bind_eq_ok run
  obtain ⟨own,_,recorded⟩ := exitStates_ok leaving
  have framed := (performTransitions_frames transitions).eq_of_ok content
  have same : m₂.chart = m.chart := (congrArg (fun m => m.chart) framed).trans own
  have kept : m₂.context.history = _ :=
    (congrArg (fun m => m.context.history) framed).trans recorded
  refine ⟨chart, members, ((enterStates_history transitions m₂).of_ok run).trans kept, ?_⟩
  intro s hs
  obtain ⟨k,k',next,entered⟩ := enterStates_entries run (by rw [same, kept]; exact hs)
  exact ⟨k, k', .microstep rfl ((bind_of_ok _ leaving).trans content) next, entered⟩

theorem microstep_onward (entered : n.context.initialized = true) (same : n.ground = m.ground) :
    Leads (do microstep transitions; return Control.effects .macrostep) n
      (fun _ k => k.context.initialized = true ∧ Arrives m transitions k)
      fun i k => i = .crash ∨ (k.context.initialized = true ∧ Arrives m transitions k) := by
  refine Leads.bind ((microstep_shell transitions n).leads.mono ?_ ?_)
    fun _ _ _ after => after
  · intro _ k run shell
    have initialized : k.context.initialized = n.context.initialized :=
      congrArg (fun m => m.context.initialized) shell
    exact ⟨initialized.trans entered, .taken ((microstep_taken run).from_ground same)⟩
  · exact fun i k stopped => Or.inl stopped.2

/-- Completing leaves all states. -/
theorem complete_left {control : Control} (run : complete m = .ok control m') : Left m m' := by
  have each : ∀ (c : Chart) (l : List StateIndex) (n k : Machine) (u : Unit),
      (l.forM fun s => do
        executeBlock (c.state s).onExit
        update fun m => (m.cancelInvocationsOf s).deactivate s
        update (·.trace (.exited (c.state s).id))) n = .ok u k →
      k.frame = (l.foldl left n).frame := by
    intro c l
    induction l with
    | nil =>
      intro n k u run
      cases run
      rfl
    | cons s rest ih =>
      intro n k u run
      obtain ⟨_,n₁,first,run⟩ := bind_eq_ok run
      obtain ⟨_,n₂,block,first⟩ := bind_eq_ok first
      obtain ⟨_,n₃,leaving,first⟩ := bind_eq_ok first
      have e₁ := (executeBlock_frames _).eq_of_ok block
      have e₂ := (trace_frames (P := onlyCrash) _).eq_of_ok first
      cases leaving
      rw [ih _ _ _ run, List.foldl_cons]
      refine frame_foldl_left rest (e₂.trans ?_)
      change (left n₂ s).frame = _
      rw [frame_left, e₁, ← frame_left]
  obtain ⟨_,_,got,run⟩ := bind_eq_ok run
  cases got
  obtain ⟨_,k,leaving,run⟩ := bind_eq_ok run
  cases run
  have framed := each _ _ _ _ _ leaving
  refine ⟨?_, ?_, ?_⟩
  · exact (congrArg Machine.chart framed).trans (chart_foldl_left _ _)
  · have same := congrArg (fun m => m.context.configuration) framed
    refine same.trans ((configuration_foldl_left _ _).trans ?_)
    simp
  · have same := congrArg (fun m => m.context.history) framed
    exact same.trans (history_foldl_left _ _)

theorem macrostep_onward (control : m.control = .macrostep) (entered : m.context.initialized = true) :
    Onward m (m.passAhead.getD []) (m.proceed macrostep) := by
  refine onward_of_leads ?_
  have grounded : ∀ n : Machine, n.frame = m.frame →
      n.ground = m.ground ∧ n.context.initialized = true := by
    intro n framed
    have same : n.frame.ground = m.frame.ground := congrArg ground framed
    exact ⟨same, (ground_eq same).2.2.2.trans entered⟩
  cases run : look m with
  | error i n =>
    obtain ⟨same,initialized⟩ := grounded n ((look_same m).of_error run).1
    have none : m.passAhead = none := by simp [passAhead, control, run]
    rw [none, Leads, macrostep_of_error run]
    exact Or.inr ⟨initialized, .none same⟩
  | ok found n =>
    obtain ⟨same,initialized⟩ := grounded n ((look_same m).of_ok run)
    refine Leads.of_eq (macrostep_of_look run) ?_
    cases found with
    | completion =>
      have none : m.passAhead = none := by simp [passAhead, control, run]
      rw [none]
      refine (complete_leads n).mono ?_ fun i k stopped => Or.inl stopped.1
      intro control k run led
      have kept : k.context.initialized = n.context.initialized :=
        congrArg (fun m => m.context.initialized) led.2
      obtain ⟨chart,configuration,history,_⟩ := ground_eq same
      obtain ⟨chart',configuration',history'⟩ := complete_left run
      exact ⟨kept.trans initialized,
        .left ⟨chart'.trans chart, configuration', history'.trans history⟩⟩
    | destruction =>
      have none : m.passAhead = none := by simp [passAhead, control, run]
      rw [none]
      exact ⟨initialized, .none same⟩
    | stability =>
      have none : m.passAhead = none := by simp [passAhead, control, run]
      rw [none]
      exact ⟨initialized, .none same⟩
    | transitions event enabled =>
      change Leads (pass enabled) n _ _
      by_cases allowed : n.steps < n.options.maxMicrosteps
      · have ahead : m.passAhead = some enabled := by simp [passAhead, control, run, allowed]
        rw [ahead, Option.getD_some]
        by_cases nothing : enabled.isEmpty = true
        · refine Leads.of_eq (y := pure .macrostep) (n := { n with steps := n.steps + 1 }) ?_ ?_
          · rw [pass_run, if_neg (by omega), if_pos nothing]
            rfl
          · rw [List.isEmpty_iff.mp nothing]
            exact ⟨initialized, .none same⟩
        · refine Leads.of_eq (n := { n with steps := n.steps + 1 }) ?_
            (microstep_onward (m := m) initialized same)
          rw [pass_run, if_neg (by omega), if_neg nothing]
      · have none : m.passAhead = none := by simp [passAhead, control, run, allowed]
        rw [none, Leads, pass_run, if_pos (by omega)]
        exact Or.inr ⟨initialized, .none same⟩

/-- Looking for what an event means changes nothing but the trace and what conditions do. -/
theorem receiving_outline (e : Event) : Same Machine.outline refused
    (announce e >>= fun _ => selectTransitions (some e.name)) := by
  refine Keeps.bind (announce_outline e) fun _ => ?_
  exact (Same.of_frames (fun _ => rfl) (selectTransitions_frames _)).refused

theorem process_onward (entered : m.context.initialized = true) (control : m.control = .waiting)
    (e : Event) : Onward m (m.aheadOn (.event e)) (m.proceed (process e)) := by
  refine onward_of_leads ?_
  have grounded : ∀ n : Machine, n.outline = { m with steps := 0 }.outline →
      n.ground = m.ground ∧ n.context.initialized = true := by
    intro n outlined
    have same : n.outline.ground = { m with steps := 0 }.outline.ground :=
      congrArg ground outlined
    exact ⟨same, (ground_eq same).2.2.2.trans entered⟩
  rw [process_eq]
  cases run : receive e m with
  | error i n =>
    have kept := (receiving_outline e { m with steps := 0 }).of_error (by rw [← receive_eq]; exact run)
    obtain ⟨same,initialized⟩ := grounded n kept.1
    have none : m.aheadOn (.event e) = [] := by simp [aheadOn, control, run]
    rw [none, Leads, bind_of_error respond run]
    exact Or.inr ⟨initialized, .none same⟩
  | ok enabled n =>
    have kept := (receiving_outline e { m with steps := 0 }).of_ok (by rw [← receive_eq]; exact run)
    obtain ⟨same,initialized⟩ := grounded n kept
    have ahead : m.aheadOn (.event e) = enabled := by simp [aheadOn, control, run]
    rw [ahead]
    refine Leads.of_eq (bind_of_ok respond run) ?_
    unfold respond
    by_cases nothing : enabled.isEmpty = true
    · simp only [nothing, Bool.not_true, Bool.false_eq_true, if_false]
      rw [List.isEmpty_iff.mp nothing]
      exact ⟨initialized, .none same⟩
    · simp only [nothing, Bool.not_false, if_true]
      exact microstep_onward (m := m) (n := { n with steps := n.steps + 1 }) initialized same

instance : Tolerant (fun m m' : Machine => m'.ground = m.ground) where
  withHeap _ _ := rfl
  freshId _ := rfl
  enqueue _ _ := rfl
  tell _ _ := rfl

theorem enterInitial_taken {t : TransitionIndex} {u : Unit} (empty : m.context.configuration = [])
    (same : n.ground = m.ground) (run : enterStates [t] n = .ok u m') :
    Taken m [t] { m' with context := { m'.context with initialized := true } } := by
  obtain ⟨chart,configuration,history,_⟩ := ground_eq same
  obtain ⟨chart',members⟩ := enterStates_ok run
  have recalled : m.chart.recalled m.context.history m.context.configuration [t] =
      m.context.history := by
    rw [empty]
    rfl
  refine ⟨chart'.trans chart, fun x => ?_, ?_, fun s hs => ?_⟩
  · rw [Chart.entered, recalled, ← chart, ← history, Chart.Remains, empty]
    rw [configuration, empty] at members
    simpa using members x
  · have kept := (enterStates_history [t] n).of_ok run
    exact (kept.trans history).trans recalled.symm
  · rw [Chart.entered, recalled, ← chart, ← history] at hs
    obtain ⟨k,k',next,entered⟩ := enterStates_entries run hs
    exact ⟨k, k', .initial same empty next, entered⟩

theorem start_onward (unentered : m.Unentered) (control : m.control = .starting) :
    Onward m m.ahead (m.proceed start) := by
  have reached : (m.reach .started).ground = m.ground := ground_reach m _
  by_cases entered : m.context.initialized = true
  · have none : m.ahead = [] := by simp [ahead, control, entered]
    have run := start_again entered
    rw [none]
    by_cases done : m.context.done = true
    · rw [if_pos done] at run
      have again : ((m.reach .started).reach .completed).ground = m.ground :=
        (ground_reach _ _).trans reached
      refine onward_of_leads (Leads.of_eq (y := pure (.exited .completed)) run ?_)
      exact ⟨(ground_eq again).2.2.2.trans entered, .none again⟩
    · rw [if_neg done] at run
      refine onward_of_leads (Leads.of_eq (y := pure .macrostep) run ?_)
      exact ⟨(ground_eq reached).2.2.2.trans entered, .none reached⟩
  · have outside : m.context.initialized = false := by simpa using entered
    have empty := (unentered outside).1
    have run := start_first outside
    -- A data model that is refused ends the run before anything is entered.
    have aborted : ∀ f (k : Machine), k.ground = m.ground → Onward m [] (proceed.abort k f) := by
      intro f k same
      have all : (proceed.abort k f).ground = m.ground := (ground_reach k _).trans same
      obtain ⟨_,configuration,_,_⟩ := ground_eq all
      exact Or.inr ⟨fun _ => ⟨configuration.trans empty, Or.inr ⟨f, rfl⟩⟩, .none all⟩
    have declaring : KeepsAt (fun m m' : Machine => m'.ground = m.ground) refused _ _ :=
      initializeData_frames (m.reach .started)
    cases declared : initializeData (m.reach .started) with
    | error i k =>
      obtain ⟨kept,refusal⟩ := declaring.of_error declared
      have none : m.ahead = [] := by simp [ahead, control, outside, declared]
      have stopped : start m = .error i k := run.trans (bind_of_error _ declared)
      rw [none, proceed, stopped]
      rcases refusal with rfl | ⟨e,rfl⟩
      · exact Or.inl rfl
      · exact aborted _ k (kept.trans reached)
    | ok u k =>
      have kept : k.ground = m.ground := (declaring.of_ok declared).trans reached
      have ahead : m.ahead = (m.chart.state Chart.root).initial.toList := by
        simp [Machine.ahead, control, outside, declared]
      rw [ahead]
      unfold enterInitial at run
      rw [bind_of_ok _ declared] at run
      cases entry : (m.chart.state Chart.root).initial with
      | none =>
        rw [entry] at run
        rw [proceed, run]
        exact aborted _ k kept
      | some t =>
        rw [entry] at run
        rw [proceed, run]
        dsimp only
        have led := enterStates_shell [t] k
        cases entering : enterStates [t] k with
        | error i l =>
          rw [bind_of_error _ entering]
          rw [show i = .crash from (led.of_error entering).2]
          exact Or.inl rfl
        | ok u l =>
          rw [bind_of_ok _ entering]
          have taken := enterInitial_taken empty kept entering
          exact Or.inr ⟨.of_entered rfl, Arrives.of_ground (.taken taken) rfl⟩

end MachineM

namespace Machine

open MachineM

variable {m m' : Machine} {transitions : List TransitionIndex}

theorem ahead_other (started : m.control ≠ .starting) (looked : m.control ≠ .macrostep) :
    m.ahead = [] := by
  unfold ahead passAhead
  split
  · exact absurd ‹_› started
  · split
    · exact absurd ‹_› looked
    · rfl

theorem aheadOn_other (busy : m.control ≠ .waiting) (input : Input) : m.aheadOn input = [] := by
  unfold aheadOn
  split
  · exact absurd ‹_› busy
  · rfl

theorem worked_onward (unentered : m.Unentered) (worked : Worked m m') : Onward m m.ahead m' := by
  cases worked with
  | start control => exact start_onward unentered control
  | macrostep control =>
    have ahead : m.ahead = m.passAhead.getD [] := by simp [Machine.ahead, control]
    rw [ahead]
    exact macrostep_onward control
      (unentered.entered (by simp [control]) (by simp [control]))
  | @goOn pending control =>
    rw [ahead_other (by simp [control]) (by simp [control])]
    refine onward_of_same (k := m) (P := never)
      (unentered.entered (by simp [control]) (by simp [control])) rfl fun n => ?_
    refine goOn_keeps (R := fun m m' : Machine => m'.ground = m.ground) (fun _ => rfl) pending n ?_
    intro s node _ i _ _
    exact prepareInvoke_keeps s node i (fun _ _ _ => rfl) n
  | @effects next control failures =>
    rw [ahead_other (by simp [control]) (by simp [control])]
    have framed : (failures.foldl raiseFailure { m with effects := [] }).frame.ground =
        ({ m with effects := [] } : Machine).frame.ground :=
      congrArg ground (foldl_raiseFailure_frame failures _)
    refine onward_of_same (P := onlyCrash)
      (unentered.entered (by simp [control]) (by simp [control])) framed ?_
    cases next with
    | macrostep => exact Keeps.pure _
    | exit status =>
      exact Keeps.bind (Same.of_frames (fun _ => rfl) (reach_frames _)) fun _ => Keeps.pure _
  | @started data pending control failure =>
    rw [ahead_other (by simp [control]) (by simp [control])]
    exact onward_of_same (k := m)
      (unentered.entered (by simp [control]) (by simp [control])) rfl
      (afterStart_keeps (fun _ _ => rfl) data pending failure)

theorem take_onward (unentered : m.Unentered) (input : Input) :
    Onward m (m.aheadOn input) (m.take input) := by
  by_cases waiting : m.control = .waiting
  · have entered := unentered.entered (by simp [waiting]) (by simp [waiting])
    rw [take_waiting waiting]
    cases input with
    | destroy =>
      have none : m.aheadOn .destroy = [] := by simp [aheadOn, waiting]
      rw [none]
      exact onward_of_same (P := onlyCrash) entered rfl fun _ => rfl
    | suspend =>
      have none : m.aheadOn .suspend = [] := by simp [aheadOn, waiting]
      rw [none]
      refine onward_of_same entered rfl (suspend_keeps (fun {a b} drifts => ?_) fun _ _ => rfl)
      have framed : b.frame.ground = a.frame.ground := congrArg ground drifts.frame
      exact framed
    | closed =>
      have none : m.aheadOn .closed = [] := by simp [aheadOn, waiting]
      rw [none]
      exact onward_of_same (P := onlyCrash) entered rfl
        (Keeps.bind (Same.of_frames (fun _ => rfl) (reach_frames _)) fun _ => Keeps.pure _)
    | event e => exact process_onward entered waiting e
  · rw [take_other waiting]
    rw [aheadOn_other waiting]
    exact Or.inr ⟨unentered, .none rfl⟩

/-- A move takes its transitions, or leaves all states, or the machine breaks down. -/
theorem takes_onward (unentered : m.Unentered) (takes : Takes m transitions m') :
    Onward m transitions m' := by
  cases takes with
  | work work => exact worked_onward unentered work.worked
  | take input => exact take_onward unentered input
  | disturb memory destroyed reports => exact Or.inr ⟨unentered, .none rfl⟩
  | restart status early ended =>
    have entered := unentered.entered (by simp [ended]) (by simp [ended])
    exact Or.inr ⟨.of_entered entered, .none rfl⟩
  | retry fault ended =>
    exact Or.inr ⟨fun outside => ⟨(unentered outside).1, Or.inl rfl⟩, .none rfl⟩

/-- A machine that broke down stays so. -/
theorem takes_crashed (takes : Takes m transitions m') (crashed : m.control = .crashed) :
    m'.control = .crashed := by
  cases takes with
  | work work =>
    cases work.worked with
    | start control => rw [crashed] at control; cases control
    | macrostep control => rw [crashed] at control; cases control
    | goOn control => rw [crashed] at control; cases control
    | effects control => rw [crashed] at control; cases control
    | started control => rw [crashed] at control; cases control
  | take input =>
    rw [take_other (by simp [crashed])]
    exact crashed
  | disturb => exact crashed
  | restart status early ended => rw [crashed] at ended; cases ended
  | retry fault ended => rw [crashed] at ended; cases ended

/-- What every machine of a chart keeps, until it breaks down. -/
structure Grounded (c : Chart) (m : Machine) : Prop where
  chart : m.chart = c
  unentered : m.Unentered
  inward : c.Inward m.context.history

theorem Grounded.onward {c : Chart} (grounded : m.Grounded c) (tree : c.IsTree)
    (takes : Takes m transitions m') :
    m'.control = .crashed ∨ (m'.Grounded c ∧ Arrives m transitions m') := by
  obtain ⟨chart,unentered,inward⟩ := grounded
  rcases takes_onward unentered takes with crashed | ⟨unentered',arrives⟩
  · exact Or.inl crashed
  · refine Or.inr ⟨⟨?_, unentered', ?_⟩, arrives⟩
    · cases arrives with
      | taken taken => exact taken.chart.trans chart
      | left left => exact left.chart.trans chart
    · cases arrives with
      | taken taken =>
        rw [taken.history, chart]
        exact inward.recordAll tree _
      | left left =>
        rw [left.history]
        exact inward

theorem create_grounded {library : ActionLibrary} {source : Source.ChartDef} {c : Chart}
    (accepted : Chart.compile library source = .ok c) (options : Options) (memory : Memory) :
    (create c options memory).start.Grounded c where
  chart := rfl
  unentered := fun _ => ⟨rfl, Or.inl rfl⟩
  inward := Chart.compile_inward accepted

theorem run_grounded {library : ActionLibrary} {source : Source.ChartDef} {c : Chart}
    (accepted : Chart.compile library source = .ok c) {options : Options} {memory : Memory}
    (run : Run (create c options memory).start m) : m.control = .crashed ∨ m.Grounded c := by
  have tree := (Chart.compile_wellFormed accepted).toIsTree
  refine @Run.invariant (fun m => m.control = .crashed ∨ m.Grounded c) _ _ run
    (Or.inr (create_grounded accepted options memory)) ?_
  intro a b before move
  obtain ⟨transitions,takes⟩ := move.takes
  rcases before with crashed | grounded
  · exact Or.inl (takes_crashed takes crashed)
  · exact (grounded.onward tree takes).imp id And.left

end Machine

end Statechart

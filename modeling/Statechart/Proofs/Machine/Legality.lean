import Statechart.Proofs.Chart.Compiled
import Statechart.Proofs.Chart.Legality
import Statechart.Proofs.Machine.Parts

/- The configuration of a plain chart's machine is legal whenever it can be seen: after the initial
   entry and after every microstep, until the machine completes. -/
namespace Statechart

namespace Machine

/-- What the legality of a configuration depends on. -/
def position (m : Machine) : Chart × List StateIndex × Bool :=
  (m.chart, m.context.configuration, m.context.initialized)

/-- The initial configuration has been entered, and the configuration is legal. -/
structure Ordinary (c : Chart) (m : Machine) : Prop where
  chart : m.chart = c
  entered : m.context.initialized = true
  legal : c.Legal m.context.configuration

/-- Nothing has been entered yet. -/
structure Outside (c : Chart) (m : Machine) : Prop where
  chart : m.chart = c
  outside : m.context.initialized = false
  empty : m.context.configuration = []

/-- The machine completes, has completed or broke down. -/
def isOver (m : Machine) : Bool :=
  match m.control with
  | .effects (.exit .completed) | .exited .completed | .crashed => true
  | _ => false

/-- The states of a run that legality passes through. -/
inductive Sound (c : Chart) (m : Machine) : Prop where
  | halted (chart : m.chart = c) (halted : m.isOver = true)
  /-- The machine is to start, or could not declare its data. -/
  | outside (outside : m.Outside c) (control : m.control = .starting ∨ ∃ f, m.control = .aborted f)
  | ordinary (ordinary : m.Ordinary c)

variable {c : Chart} {m m' : Machine}

theorem Ordinary.of_position (ordinary : m.Ordinary c) (same : m'.position = m.position) :
    m'.Ordinary c := by
  simp only [position, Prod.mk.injEq] at same
  exact ⟨same.1.trans ordinary.chart, same.2.2.trans ordinary.entered,
    by rw [same.2.1]; exact ordinary.legal⟩

theorem Outside.of_position (outside : m.Outside c) (same : m'.position = m.position) :
    m'.Outside c := by
  simp only [position, Prod.mk.injEq] at same
  exact ⟨same.1.trans outside.chart, same.2.2.trans outside.outside, same.2.1.trans outside.empty⟩

theorem abort_position (m : Machine) (f : Fault) : (proceed.abort m f).position = m.position := by
  have framed : ∀ p, (m.reach p).frame.position = m.frame.position := fun p =>
    congrArg position (m.frame_reach p)
  exact framed _

end Machine

namespace MachineM

variable {α β : Type} {c : Chart} {m : Machine} {P : Interrupt → Prop}

/-- The part leaves the machine with a legal configuration, unless it breaks down. -/
def Steady (c : Chart) (x : MachineM α) (m : Machine) : Prop :=
  Leads x m (fun _ m' => m'.Ordinary c)
    (fun i m' => m'.chart = c ∧ (i = .crash ∨ m'.Ordinary c))

theorem Steady.of_same {x : MachineM α} (ordinary : m.Ordinary c)
    (same : Same Machine.position P x) : Steady c x m :=
  (same m).leads.mono (fun _ _ _ same => ordinary.of_position same)
    (fun _ _ same => ⟨(ordinary.of_position same.1).chart, Or.inr (ordinary.of_position same.1)⟩)

theorem Steady.of_frames {x : MachineM α} (ordinary : m.Ordinary c) (framed : Frames P x) :
    Steady c x m :=
  Steady.of_same ordinary (Same.of_frames (fun _ => rfl) framed)

theorem Steady.bind {x : MachineM α} {f : α → MachineM β} (first : Steady c x m)
    (rest : ∀ a m', x m = .ok a m' → m'.Ordinary c → Steady c (f a) m') :
    Steady c (x >>= f) m :=
  Leads.bind first rest

theorem Steady.sound {part : MachineM Control} (steady : Steady c part m) :
    Machine.Sound c (m.proceed part) := by
  have aborted : ∀ f (m' : Machine), m'.chart = c ∧ (Interrupt.fault f = .crash ∨ m'.Ordinary c) →
      Machine.Sound c (Machine.proceed.abort m' f) := by
    rintro f m' ⟨_,absurd | ordinary⟩
    · cases absurd
    · exact .ordinary (ordinary.of_position (Machine.abort_position m' f))
  refine Machine.proceed_leads steady ?_ aborted ?_ ?_
  · exact fun control m' _ ordinary => .ordinary ⟨ordinary.chart, ordinary.entered, ordinary.legal⟩
  · rintro f m' ⟨_,absurd | ordinary⟩
    · cases absurd
    · exact .ordinary (ordinary.of_position (Machine.abort_position m' _))
  · exact fun m' crashed => .halted crashed.1 rfl

/-- The transitions were selected in the machine as it is. -/
def Selected (m : Machine) (transitions : List TransitionIndex) : Prop :=
  ∃ enabled,
    transitions = m.chart.removeConflicts m.context.history m.context.configuration enabled ∧
    ∀ t ∈ enabled, ∃ s ∈ m.context.configuration, m.chart.isAtomic s = true ∧
      t ∈ m.chart.candidates s

theorem selectTransitions_selected {event : Option EventName} {m m' : Machine}
    {transitions : List TransitionIndex} (run : selectTransitions event m = .ok transitions m') :
    Selected m' transitions := by
  obtain ⟨framed,enabled,eq,offered⟩ := selectTransitions_ok run
  have chart : m'.chart = m.chart := congrArg (fun m => m.chart) framed
  have history : m'.context.history = m.context.history :=
    congrArg (fun m => m.context.history) framed
  have configuration : m'.context.configuration = m.context.configuration :=
    congrArg (fun m => m.context.configuration) framed
  exact ⟨enabled, by rw [chart, history, configuration]; exact eq,
    by rw [chart, configuration]; exact offered⟩

theorem microstep_steady (wf : c.WellFormed) (plain : c.Plain) (ordinary : m.Ordinary c)
    {transitions : List TransitionIndex} (selected : Selected m transitions) :
    Steady c (microstep transitions) m := by
  obtain ⟨enabled,eq,offered⟩ := selected
  rw [ordinary.chart] at eq offered
  refine (microstep_shell transitions m).leads.mono ?_ ?_
  · intro u m' run shell
    obtain ⟨chart,taken⟩ := microstep_ok run
    have initialized : m'.context.initialized = m.context.initialized :=
      congrArg (fun m => m.context.initialized) shell
    refine ⟨chart.trans ordinary.chart, initialized.trans ordinary.entered, ?_⟩
    rw [ordinary.chart] at taken
    refine wf.taking_legal plain _ ?_ taken
    rw [eq]
    exact wf.selection_ready plain ordinary.legal offered
  · intro i m' ⟨shell,crash⟩
    have chart : m'.chart = m.chart := congrArg (fun m => m.chart) shell
    exact ⟨chart.trans ordinary.chart, Or.inl crash⟩

theorem pass_steady (wf : c.WellFormed) (plain : c.Plain) (ordinary : m.Ordinary c)
    {transitions : List TransitionIndex} (selected : Selected m transitions) :
    Steady c (pass transitions) m := by
  have counted : Machine.Ordinary c { m with steps := m.steps + 1 } :=
    ⟨ordinary.chart, ordinary.entered, ordinary.legal⟩
  exact Leads.pass (fun _ => ⟨ordinary.chart, Or.inr ordinary⟩) counted
    (microstep_steady wf plain counted selected)

theorem act_steady (wf : c.WellFormed) (plain : c.Plain) (ordinary : m.Ordinary c) {found : Found}
    {n : Machine} (looked : Looked n found m) (going : found ≠ .completion) :
    Steady c (act found) m := by
  cases looked with
  | completion => exact absurd rfl going
  | destruction => exact Steady.of_same (P := onlyCrash) ordinary fun _ => rfl
  | stability => exact Steady.of_same (P := onlyCrash) ordinary fun _ => rfl
  | eventless _ selected =>
    exact pass_steady wf plain ordinary (selectTransitions_selected selected)
  | event _ _ _ selected => exact pass_steady wf plain ordinary (selectTransitions_selected selected)

theorem macrostep_sound (wf : c.WellFormed) (plain : c.Plain) (ordinary : m.Ordinary c) :
    Machine.Sound c (m.proceed macrostep) := by
  rw [macrostep_eq]
  have seen := Same.coarsen Machine.position look_same
  have looking : Steady c look m := Steady.of_same ordinary seen
  cases run : look m with
  | error i n =>
    refine Steady.sound (Steady.bind looking ?_)
    intro found n' run'
    rw [run] at run'
    cases run'
  | ok found n =>
    have looked := look_ok run
    by_cases completes : found = .completion
    · subst completes
      cases looked
      have same : m.proceed (look >>= act) = m.proceed complete :=
        Machine.proceed_of_eq (bind_of_ok act run)
      rw [same]
      have chart : ∀ m' : Machine, m'.shell = m.shell → m'.chart = c := fun m' same =>
        (congrArg (fun m => m.chart) same).trans ordinary.chart
      refine Machine.proceed_leads (complete_leads m) ?_ ?_ ?_ ?_
      · rintro control m' _ ⟨rfl,same⟩
        exact .halted (chart m' same) rfl
      · rintro f m' ⟨absurd,_⟩
        cases absurd
      · rintro f m' ⟨absurd,_⟩
        cases absurd
      · exact fun m' stopped => .halted (chart m' stopped.2) rfl
    · refine Steady.sound (Steady.bind looking ?_)
      intro found' n' run' after
      rw [run] at run'
      cases run'
      exact act_steady wf plain after looked completes

theorem process_steady (wf : c.WellFormed) (plain : c.Plain) (ordinary : m.Ordinary c)
    (e : Event) : Steady c (process e) m := by
  have reset : Machine.Ordinary c { m with steps := 0 } :=
    ⟨ordinary.chart, ordinary.entered, ordinary.legal⟩
  have announced := Steady.of_same reset (Same.of_outline (fun _ => rfl) (announce_outline e))
  rw [process_eq]
  refine Steady.bind (Leads.of_eq (receive_eq e m) ?_) ?_
  · refine Steady.bind announced fun _ m' _ after => ?_
    exact Steady.of_frames after (selectTransitions_frames _)
  · intro enabled m' run after
    rw [receive_eq] at run
    obtain ⟨_,_,_,selected⟩ := bind_eq_ok run
    unfold respond
    split
    · refine Steady.bind (Steady.of_same (P := onlyCrash) after (Keeps.update fun _ => rfl)) ?_
      rintro _ _ counting after
      cases counting
      have chosen : Selected m' enabled := selectTransitions_selected selected
      exact Steady.bind (microstep_steady wf plain after chosen) fun _ _ _ after => after
    · exact after

theorem suspend_position : Same Machine.position (fun _ => True) suspend := by
  refine suspend_keeps (fun {m m'} drifts => ?_) fun _ _ => rfl
  have framed : m'.frame.position = m.frame.position := congrArg Machine.position drifts.frame
  exact framed

theorem takeInput_steady (wf : c.WellFormed) (plain : c.Plain) (ordinary : m.Ordinary c)
    (input : Input) : Steady c (takeInput input) m := by
  cases input with
  | destroy => exact Steady.of_same (P := onlyCrash) ordinary fun _ => rfl
  | suspend => exact Steady.of_same ordinary suspend_position
  | closed =>
    exact Steady.of_frames (P := onlyCrash) ordinary
      (Keeps.bind (reach_frames _) fun _ => Keeps.pure _)
  | event e => exact process_steady wf plain ordinary e

theorem enterInitial_leads (wf : c.WellFormed) (plain : c.Plain) (outside : m.Outside c) :
    Leads (enterInitial c) m (fun _ m' => m'.Ordinary c)
      (fun i m' => m'.chart = c ∧ (i = .crash ∨ m'.Outside c)) := by
  have declared : Same Machine.position refused initializeData :=
    Same.of_frames (fun _ => rfl) initializeData_frames
  refine Leads.bind (Q := fun _ m' => m'.Outside c) ((declared m).leads.mono ?_ ?_) ?_
  · exact fun _ _ _ same => outside.of_position same
  · exact fun _ _ stopped =>
      ⟨(outside.of_position stopped.1).chart, Or.inr (outside.of_position stopped.1)⟩
  · intro _ n _ outside
    cases entry : (c.state Chart.root).initial with
    | none => exact ⟨outside.chart, Or.inr outside⟩
    | some t =>
      refine Leads.bind (Q := fun _ m' => m'.chart = c ∧ c.Legal m'.context.configuration)
        ((enterStates_shell [t] n).leads.mono ?_ ?_) ?_
      · intro _ m' run _
        obtain ⟨chart,taken⟩ := enterStates_ok run
        refine ⟨chart.trans outside.chart, ?_⟩
        rw [outside.chart] at taken
        refine wf.taking_legal plain n.context.history (wf.initial_ready plain entry []) ?_
        intro x
        rw [taken x, outside.empty]
        simp
      · intro i m' stopped
        have chart : m'.chart = n.chart := congrArg (fun m => m.chart) stopped.1
        exact ⟨chart.trans outside.chart, Or.inl stopped.2⟩
      · exact fun _ m' _ entered => ⟨entered.1, rfl, entered.2⟩

theorem start_sound (wf : c.WellFormed) (plain : c.Plain) (outside : m.Outside c) :
    Machine.Sound c (m.proceed start) := by
  have reached : (m.reach .started).frame.position = m.frame.position :=
    congrArg Machine.position (m.frame_reach _)
  have run := start_first outside.outside
  rw [outside.chart] at run
  have leads := Leads.of_eq run (enterInitial_leads wf plain (outside.of_position reached))
  have aborted : ∀ f (m' : Machine), m'.Outside c →
      Machine.Sound c (Machine.proceed.abort m' f) := by
    intro f m' outside
    exact .outside (outside.of_position (Machine.abort_position m' f)) (Or.inr ⟨f, rfl⟩)
  refine Machine.proceed_leads leads ?_ ?_ ?_ ?_
  · exact fun control m' _ ordinary => .ordinary ⟨ordinary.chart, ordinary.entered, ordinary.legal⟩
  · rintro f m' ⟨_,absurd | outside⟩
    · cases absurd
    · exact aborted f m' outside
  · rintro f m' ⟨_,absurd | outside⟩
    · cases absurd
    · exact aborted _ m' outside
  · exact fun m' stopped => .halted stopped.1 rfl

theorem restart_sound (ordinary : m.Ordinary c) : Machine.Sound c (m.proceed start) := by
  have reached : ∀ (n : Machine) p, (n.reach p).frame.position = n.frame.position := fun n p =>
    congrArg Machine.position (n.frame_reach p)
  have again : (m.reach .started).Ordinary c := ordinary.of_position (reached m .started)
  have run := start_again ordinary.entered
  by_cases done : m.context.done = true
  · rw [if_pos done] at run
    refine Steady.sound (Leads.of_eq (y := pure (.exited .completed)) run ?_)
    exact again.of_position (reached _ .completed)
  · rw [if_neg done] at run
    exact Steady.sound (Leads.of_eq (y := pure .macrostep) run again)

theorem goOn_steady (ordinary : m.Ordinary c) (pending : List (StateIndex × Nat)) :
    Steady c (goOn pending) m := by
  have outlined : ∀ m' : Machine, m'.outline = m.outline → m'.Ordinary c := by
    intro m' same
    have position : m'.outline.position = m.outline.position := congrArg Machine.position same
    exact ordinary.of_position position
  cases pending with
  | nil =>
    refine (goOn_nil m).mono ?_ fun _ _ => False.elim
    intro control m' _ went
    have position : { m' with accepted := m.accepted }.frame.position = m.frame.position :=
      congrArg Machine.position went.1
    exact ordinary.of_position position
  | cons invoke rest =>
    refine (goOn_cons invoke.1 invoke.2 rest m).mono ?_ fun _ _ => False.elim
    exact fun _ m' _ went => outlined m' went.1

theorem afterEffects_steady (ordinary : m.Ordinary c) (next : AfterEffects) :
    Steady c (afterEffects next) m := by
  cases next with
  | macrostep => exact ordinary
  | exit status =>
    exact Steady.of_frames (P := onlyCrash) ordinary
      (Keeps.bind (reach_frames _) fun _ => Keeps.pure _)

theorem afterStart_steady (ordinary : m.Ordinary c) (data : InvokeData)
    (pending : List (StateIndex × Nat)) (failure : Option Failure) :
    Steady c (afterStart data pending failure) m := by
  cases failure with
  | none => exact ordinary
  | some f => exact Steady.of_same (P := onlyCrash) ordinary fun _ => rfl

end MachineM

namespace Machine

variable {c : Chart} {m m' : Machine}

theorem exit_over (chart : m.chart = c) :
    Sound c (m.proceed (MachineM.afterEffects (.exit .completed))) := by
  have reached : (m.reach .completed).chart = m.chart :=
    congrArg (fun m => m.chart) (m.frame_reach _)
  exact .halted (reached.trans chart) rfl

theorem isOver_cases (halted : m.isOver = true) :
    m.control = .effects (.exit .completed) ∨ m.control = .exited .completed ∨
      m.control = .crashed := by
  unfold isOver at halted
  split at halted
  · exact Or.inl ‹_›
  · exact Or.inr (Or.inl ‹_›)
  · exact Or.inr (Or.inr ‹_›)
  · cases halted

theorem step_sound (wf : c.WellFormed) (plain : c.Plain) (sound : m.Sound c) : m.step.Sound c := by
  cases sound with
  | halted chart halted =>
    rcases isOver_cases halted with control | control | control
    · rw [step, control]
      simp only
      split
      · exact exit_over chart
      · exact .halted chart halted
    · rw [step, control]
      exact .halted chart halted
    · rw [step, control]
      exact .halted chart halted
  | outside outside control =>
    rcases control with starting | ⟨f,aborted⟩
    · rw [step, starting]
      exact MachineM.start_sound wf plain outside
    · rw [step, aborted]
      exact .outside outside (Or.inr ⟨f, aborted⟩)
  | ordinary ordinary =>
    rw [step]
    cases m.control with
    | starting => exact MachineM.restart_sound ordinary
    | macrostep => exact MachineM.macrostep_sound wf plain ordinary
    | invoking pending => exact (MachineM.goOn_steady ordinary pending).sound
    | effects next =>
      simp only
      split
      · exact (MachineM.afterEffects_steady ordinary next).sound
      · exact .ordinary ordinary
    | _ => exact .ordinary ordinary

theorem effectsDone_sound (sound : m.Sound c) {next : AfterEffects}
    (asked : m.control = .effects next) (failures : List Failure) :
    (m.effectsDone failures).Sound c := by
  rw [effectsDone_eq asked]
  have raised : (failures.foldl raiseFailure { m with effects := [] }).frame.position =
      m.frame.position := congrArg position (foldl_raiseFailure_frame failures _)
  generalize failures.foldl raiseFailure { m with effects := [] } = n at raised
  have raised : n.position = m.position := raised
  cases sound with
  | halted chart halted =>
    have same : n.chart = m.chart := congrArg (fun p => p.1) raised
    rcases isOver_cases halted with control | control | control
    · rw [control] at asked
      cases asked
      exact exit_over (same.trans chart)
    · rw [control] at asked
      cases asked
    · rw [control] at asked
      cases asked
  | outside outside control =>
    rcases control with starting | ⟨f,aborted⟩
    · rw [starting] at asked
      cases asked
    · rw [aborted] at asked
      cases asked
  | ordinary ordinary =>
    exact (MachineM.afterEffects_steady (ordinary.of_position raised) next).sound

/-- A machine that is asked or waiting has entered its initial configuration. -/
theorem Sound.ordinary_of_control (sound : m.Sound c) (going : m.isOver = false)
    (started : m.control ≠ .starting) (unbroken : ∀ f, m.control ≠ .aborted f) : m.Ordinary c := by
  cases sound with
  | halted chart halted =>
    rw [halted] at going
    cases going
  | outside outside control =>
    rcases control with starting | ⟨f,aborted⟩
    · exact absurd starting started
    · exact absurd aborted (unbroken f)
  | ordinary ordinary => exact ordinary

theorem move_sound (wf : c.WellFormed) (plain : c.Plain) (sound : m.Sound c) (move : m.Move m') :
    m'.Sound c := by
  cases move with
  | work work =>
    cases work with
    | step running => exact step_sound wf plain sound
    | effectsDone next failures asked => exact effectsDone_sound sound asked failures
    | startDone data pending failure asked =>
      rw [startDone_eq asked]
      have ordinary := sound.ordinary_of_control (by simp [isOver, asked]) (by simp [asked])
        (by simp [asked])
      exact (MachineM.afterStart_steady ordinary data pending failure).sound
  | take input =>
    by_cases waiting : m.control = .waiting
    · rw [take_waiting waiting]
      have ordinary := sound.ordinary_of_control (by simp [isOver, waiting]) (by simp [waiting])
        (by simp [waiting])
      exact (MachineM.takeInput_steady wf plain ordinary input).sound
    · rw [take_other waiting]
      exact sound
  | disturb memory destroyed reports =>
    cases sound with
    | halted chart halted => exact .halted chart halted
    | outside outside control =>
      exact .outside ⟨outside.chart, outside.outside, outside.empty⟩ control
    | ordinary ordinary => exact .ordinary ⟨ordinary.chart, ordinary.entered, ordinary.legal⟩
  | restart status early ended =>
    have ordinary := sound.ordinary_of_control (by simp [isOver, ended, early]) (by simp [ended])
      (by simp [ended])
    exact .ordinary ⟨ordinary.chart, ordinary.entered, ordinary.legal⟩
  | retry fault ended =>
    cases sound with
    | halted chart halted => simp [isOver, ended] at halted
    | outside outside control =>
      exact .outside ⟨outside.chart, outside.outside, outside.empty⟩ (Or.inl rfl)
    | ordinary ordinary => exact .ordinary ⟨ordinary.chart, ordinary.entered, ordinary.legal⟩

theorem create_sound (c : Chart) (options : Options) (memory : Memory) :
    (create c options memory).start.Sound c :=
  .outside ⟨rfl, rfl, rfl⟩ (Or.inl rfl)

theorem Sound.legal (sound : m.Sound c) (entered : m.context.initialized = true)
    (going : m.isOver = false) : c.Legal m.context.configuration := by
  cases sound with
  | halted chart halted =>
    rw [halted] at going
    cases going
  | outside outside control =>
    rw [outside.outside] at entered
    cases entered
  | ordinary ordinary => exact ordinary.legal

theorem run_sound (wf : c.WellFormed) (plain : c.Plain) {options : Options} {memory : Memory}
    (run : Run (create c options memory).start m) : m.Sound c :=
  run.invariant (create_sound c options memory) fun sound move => move_sound wf plain sound move

/-- Whatever conditions, actions and surroundings do, the configuration of a plain chart that was
    accepted is legal from the initial entry on, until the machine completes. -/
theorem configuration_stays_legal {library : ActionLibrary} {source : Source.ChartDef}
    (accepted : Chart.compile library source = .ok c) (plain : c.Plain) {options : Options}
    {memory : Memory} (run : Run (create c options memory).start m)
    (entered : m.context.initialized = true) (going : m.isOver = false) :
    c.Legal m.context.configuration :=
  (run_sound (Chart.compile_wellFormed accepted) plain run).legal entered going

end Machine

namespace TwoRegions

open Source

/-- Two regions of two states each; one event moves both on. -/
def source : ChartDef where
  name := none
  initial := none
  data := []
  extra := none
  states :=
    [.mk (.simple "both" .parallel [])
      [.mk (.simple "left" .state [])
        [.mk (.simple "a" .state [⟨some ["go"], none, some ["b", "d"], .external, []⟩]) [],
          .mk (.simple "b" .state []) []],
        .mk (.simple "right" .state [])
          [.mk (.simple "c" .state []) [], .mk (.simple "d" .state []) []]]]

def chart : Chart := Chart.compiled [] source

def machine : Machine := (Machine.create chart { sessionId := "s" } default).start

def waiting : Machine := machine.step.step.step.step

def moved : Machine := waiting.take (.event { name := ⟨["go"]⟩, type := .external })

theorem moved_run : Machine.Run machine moved := by
  have started : Machine.Run machine (Machine.step^[4] machine) :=
    .iterate (.refl _) 4 (by decide +kernel)
  simp only [Function.iterate_succ_apply, Function.iterate_zero_apply] at started
  exact started.next (.take _ _)

theorem moved_legal : moved.context.configuration = [1, 2, 4, 5, 7] ∧
    chart.Legal moved.context.configuration :=
  ⟨by decide +kernel, Machine.configuration_stays_legal (Chart.compile_eq_compiled (by decide +kernel))
    (by decide +kernel) moved_run (by decide +kernel) (by decide +kernel)⟩

end TwoRegions

end Statechart

import Statechart.Proofs.Machine.Taking

/- How a machine counts its passes between two waits.

   Every pass of a macrostep that is carried out is counted in `steps`, whether it comes from the
   external event, from the macrostep or from the macrostep that follows the start of services.
   Between two counted passes a machine only carries out effects and starts services, of which
   fewer are left each time. -/
namespace Statechart

namespace MachineM

variable {m : Machine} {enabled : List TransitionIndex}

/-- What a pass comes to once it is counted. -/
def carryOut (enabled : List TransitionIndex) : MachineM Control := do
  if enabled.isEmpty then return .macrostep
  else
    microstep enabled
    return .effects .macrostep

theorem pass_within (within : m.steps < m.options.maxMicrosteps) :
    pass enabled m = carryOut enabled { m with steps := m.steps + 1 } := by
  rw [pass_run, if_neg (by omega), carryOut]
  split
  · rfl
  · rfl

theorem pass_beyond (beyond : ¬ m.steps < m.options.maxMicrosteps) :
    pass enabled m = .error (.fault (.liveLock m.options.maxMicrosteps)) m := by
  rw [pass_run, if_pos (by omega)]

theorem respond_nil : respond [] m = .ok (.effects .macrostep) m := rfl

theorem respond_some (some : enabled ≠ []) :
    respond enabled m = carryOut enabled { m with steps := m.steps + 1 } := by
  have occupied : enabled.isEmpty = false := by simpa using some
  unfold respond carryOut
  simp only [occupied]
  rfl

end MachineM

namespace Machine

open MachineM

/-- The passes that the next piece of work carries out, each with its transitions: one if a
    macrostep finds something to do and is not stopped by the limit. -/
inductive CarriesOut (m : Machine) : List (List TransitionIndex) → Prop where
  | pass {event : Option Event} {enabled : List TransitionIndex} {n : Machine}
      (control : m.control = .macrostep) (found : look m = .ok (.transitions event enabled) n)
      (carried : macrostep m = carryOut enabled { n with steps := n.steps + 1 }) :
      CarriesOut m [enabled]
  | limit {event : Option Event} {enabled : List TransitionIndex} {n : Machine} {l : Nat}
      (control : m.control = .macrostep) (found : look m = .ok (.transitions event enabled) n)
      (stopped : macrostep m = .error (.fault (.liveLock l)) n) : CarriesOut m []
  | completion {n : Machine} (control : m.control = .macrostep)
      (found : look m = .ok .completion n) (ended : macrostep m = complete n) : CarriesOut m []
  | destruction {n : Machine} (control : m.control = .macrostep)
      (found : look m = .ok .destruction n) (ended : macrostep m = destroy n) : CarriesOut m []
  | stability {n : Machine} (control : m.control = .macrostep)
      (found : look m = .ok .stability n) (settled : macrostep m = settleDown n) : CarriesOut m []
  | interruption {i : Interrupt} {n : Machine} (control : m.control = .macrostep)
      (found : look m = .error i n) (stopped : macrostep m = .error i n) : CarriesOut m []
  | elsewhere (other : m.control ≠ .macrostep) : CarriesOut m []

/-- The passes that an external event carries out by itself. -/
inductive Answers (m : Machine) (e : Event) : List (List TransitionIndex) → Prop where
  | pass {enabled : List TransitionIndex} {n : Machine} (some : enabled ≠ [])
      (received : receive e m = .ok enabled n)
      (carried : process e m = carryOut enabled { n with steps := n.steps + 1 }) :
      Answers m e [enabled]
  | nothing {n : Machine} (received : receive e m = .ok [] n)
      (answered : process e m = .ok (.effects .macrostep) n) : Answers m e []
  | interruption {i : Interrupt} {n : Machine} (received : receive e m = .error i n)
      (stopped : process e m = .error i n) : Answers m e []

theorem answers_unique (m : Machine) (e : Event) : ∃! passes, m.Answers e passes := by
  cases run : receive e m with
  | error i n =>
    refine ⟨[], .interruption run ?_, ?_⟩
    · rw [process_eq]
      exact bind_of_error respond run
    · intro passes answers
      cases answers with
      | pass _ received => cases run.symm.trans received
      | nothing | interruption => rfl
  | ok enabled n =>
    have answered : process e m = respond enabled n := by
      rw [process_eq]
      exact bind_of_ok respond run
    by_cases some : enabled = []
    · subst some
      refine ⟨[], .nothing run (answered.trans respond_nil), ?_⟩
      intro passes answers
      cases answers with
      | pass some received =>
        cases run.symm.trans received
        exact absurd rfl some
      | nothing | interruption => rfl
    · refine ⟨[enabled], .pass some run (answered.trans (respond_some some)), ?_⟩
      intro passes answers
      cases answers with
      | pass _ received =>
        cases run.symm.trans received
        rfl
      | nothing received =>
        cases run.symm.trans received
        exact absurd rfl some
      | interruption received => cases run.symm.trans received

/-- One piece of work, in surroundings that may have changed. -/
def Continues (m m' : Machine) : Prop :=
  ∃ memory destroyed reports, Work (m.disturb memory destroyed reports) m'

/-- Pieces of work one after another, with the passes that they carry out. -/
inductive Segment : Machine → List (List TransitionIndex) → Machine → Prop where
  | refl (m : Machine) : Segment m [] m
  | next {m m' m'' : Machine} {passes more : List (List TransitionIndex)}
      (segment : Segment m passes m') (memory : Memory) (destroyed : Bool) (reports : List Report)
      (carries : (m'.disturb memory destroyed reports).CarriesOut more)
      (work : Work (m'.disturb memory destroyed reports) m'') : Segment m (passes ++ more) m''

/-- The beginnings of segments, with the passes carried out there: a machine is started, or a
    waiting one takes in an external event. -/
inductive Begins (m : Machine) : List (List TransitionIndex) → Machine → Prop where
  | start : Begins m [] m.start
  | event {e : Event} {passes : List (List TransitionIndex)} (waiting : m.control = .waiting)
      (answers : m.Answers e passes) : Begins m passes (m.take (.event e))

/-- What bounds a segment. -/
def tally (m : Machine) : Chart × Options × Nat := (m.chart, m.options, m.steps)

/-- What a machine can be about between two waits. -/
def Usual (limit : Nat) : Control → Prop
  | .idle => False
  | .effects (.exit status) | .exited status => status = .completed ∨ status = .destroyed
  | .aborted fault => fault = .liveLock limit ∨ ∃ e, fault = .value e
  | _ => True

/-- A machine in a segment with a limit, after some passes. -/
structure Going (limit passed : Nat) (m : Machine) : Prop where
  allowed : m.options.maxMicrosteps = limit
  entry : (m.chart.state Chart.root).initial ≠ none
  counted : m.steps = passed
  bounded : m.steps ≤ limit
  usual : Usual limit m.control

/-- What is left to do before the next pass. -/
def weight (m : Machine) : Nat :=
  match m.control with
  | .effects .macrostep => 2 * (pendingInvokes m).length + 5
  | .macrostep => if m.context.internalQueue.isEmpty then 2 * (pendingInvokes m).length + 4 else 2
  | .starts _ pending => 2 * pending.length + 4
  | .invoking pending => 2 * pending.length + 3
  | .effects (.exit _) => 1
  | _ => 0

def beginning (m : Machine) : Nat :=
  match m.control with
  | .starting => 1
  | _ => 0

/-- How many passes are left, besides the start. -/
def turns (m : Machine) : Nat := m.options.maxMicrosteps - m.steps + m.beginning

/-- Nothing is being asked of services. -/
def Brief : Control → Prop
  | .invoking _ | .starts _ _ => False
  | _ => True

/-- There is less to do: a turn has been taken, or there is less left before the next one. -/
inductive Eases (m m' : Machine) : Prop where
  | turn (less : m'.turns < m.turns) (brief : Brief m'.control)
  | between (same : m'.turns = m.turns) (less : m'.weight < m.weight)

/-- Where one piece of work leads: the count goes on, less is left to do, and only a pass beyond
    the limit ends in a live-lock. -/
structure Proceeds (limit passed : Nat) (m m' : Machine) : Prop where
  going : m'.Going limit (passed + m.passAhead.toList.length)
  eases : m.Eases m'
  spent : ∀ l, m'.control = .aborted (.liveLock l) → passed = limit ∧
    ∃ event enabled n, Looked m (.transitions event enabled) n

variable {limit passed : Nat} {m m' : Machine}

theorem passAhead_other (other : m.control ≠ .macrostep) : m.passAhead = none := by
  unfold passAhead
  split
  · exact absurd ‹_› other
  · rfl

theorem passAhead_error {i : Interrupt} {n : Machine} (run : look m = .error i n) :
    m.passAhead = none := by
  unfold passAhead
  rw [run]
  split
  · rfl
  · rfl

theorem passAhead_unfound {found : Found} {n : Machine} (run : look m = .ok found n)
    (other : ∀ event enabled, found ≠ .transitions event enabled) : m.passAhead = none := by
  unfold passAhead
  rw [run]
  cases found with
  | transitions event enabled => exact absurd rfl (other event enabled)
  | completion | destruction | stability =>
    split
    · rfl
    · rfl

theorem passAhead_found {event : Option Event} {enabled : List TransitionIndex} {n : Machine}
    (control : m.control = .macrostep) (run : look m = .ok (.transitions event enabled) n) :
    m.passAhead = if n.steps < n.options.maxMicrosteps then some enabled else none := by
  rw [passAhead, control]
  simp only [run]

/-- Carrying out transitions can only break down. -/
theorem carryOut_tally (enabled : List TransitionIndex) (m : Machine) :
    Leads (carryOut enabled) m
      (fun control n => n.tally = m.tally ∧
        (control = .macrostep ∨ control = .effects .macrostep))
      (fun i n => n.tally = m.tally ∧ i = .crash) := by
  have taking : Same (fun m => tally (shell m)) onlyCrash (microstep enabled) :=
    Same.coarsen tally (microstep_shell enabled)
  unfold carryOut
  split
  · exact ⟨rfl, Or.inl rfl⟩
  · exact Leads.bind (taking m).leads fun _ _ _ same => ⟨same, Or.inr rfl⟩

theorem carryOut_stops {enabled : List TransitionIndex} {f : Fault} {n : Machine}
    (run : carryOut enabled m = .error (.fault f) n) : False := by
  have leads := carryOut_tally enabled m
  unfold Leads at leads
  rw [run] at leads
  cases leads.2

/-- What lies ahead is what is carried out. -/
theorem carriesOut_ahead (m : Machine) : m.CarriesOut m.passAhead.toList := by
  by_cases control : m.control = .macrostep
  · cases run : look m with
    | error i n =>
      rw [passAhead_error run]
      exact .interruption control run (macrostep_of_error run)
    | ok found n =>
      have acts := macrostep_of_look run
      cases found with
      | completion =>
        rw [passAhead_unfound run (by simp)]
        exact .completion control run acts
      | destruction =>
        rw [passAhead_unfound run (by simp)]
        exact .destruction control run acts
      | stability =>
        rw [passAhead_unfound run (by simp)]
        exact .stability control run acts
      | transitions event enabled =>
        rw [passAhead_found control run]
        by_cases within : n.steps < n.options.maxMicrosteps
        · rw [if_pos within]
          exact .pass control run (acts.trans (pass_within within))
        · rw [if_neg within]
          exact .limit control run (acts.trans (pass_beyond within))
  · rw [passAhead_other control]
    exact .elsewhere control

theorem CarriesOut.ahead {passes : List (List TransitionIndex)} (carries : m.CarriesOut passes) :
    passes = m.passAhead.toList := by
  cases carries with
  | @pass _ _ n control found carried =>
    rw [passAhead_found control found]
    by_cases within : n.steps < n.options.maxMicrosteps
    · rw [if_pos within]
      rfl
    · rw [macrostep_of_look found, act, pass_beyond within] at carried
      exact (carryOut_stops carried.symm).elim
  | @limit _ _ n _ control found stopped =>
    rw [passAhead_found control found]
    by_cases within : n.steps < n.options.maxMicrosteps
    · rw [macrostep_of_look found, act, pass_within within] at stopped
      exact (carryOut_stops stopped).elim
    · rw [if_neg within]
      rfl
  | completion _ found | destruction _ found | stability _ found =>
    rw [passAhead_unfound found (by simp)]
    rfl
  | interruption _ stopped =>
    rw [passAhead_error stopped]
    rfl
  | elsewhere other =>
    rw [passAhead_other other]
    rfl

theorem carriesOut_unique (m : Machine) : ∃! passes, m.CarriesOut passes :=
  ⟨_, m.carriesOut_ahead, fun _ carries => carries.ahead⟩

theorem Going.of_tally (going : m.Going limit passed) (same : m'.tally = m.tally)
    (usual : Usual limit m'.control) : m'.Going limit passed := by
  simp only [tally, Prod.mk.injEq] at same
  obtain ⟨chart,options,steps⟩ := same
  exact
    { allowed := by rw [options]; exact going.allowed
      entry := by rw [chart]; exact going.entry
      counted := by rw [steps]; exact going.counted
      bounded := by rw [steps]; exact going.bounded
      usual }

theorem beginning_other (later : m.control ≠ .starting) : m.beginning = 0 := by
  unfold beginning
  split
  · exact absurd ‹_› later
  · rfl

theorem eases_of_tally (same : m'.tally = m.tally) (later : m'.control ≠ .starting)
    (less : m.control = .starting ∧ Brief m'.control ∨ m'.weight < m.weight) : m.Eases m' := by
  have left : m'.options.maxMicrosteps - m'.steps = m.options.maxMicrosteps - m.steps := by
    simp only [tally, Prod.mk.injEq] at same
    rw [same.2.1, same.2.2]
  rcases less with ⟨starting,brief⟩ | less
  · refine .turn ?_ brief
    have first : m.beginning = 1 := by rw [beginning, starting]
    rw [turns, turns, left, beginning_other later, first]
    exact Nat.lt_succ_self _
  · refine .between ?_ less
    have begun : m.control ≠ .starting := by
      intro starting
      have nothing : m.weight = 0 := by rw [weight, starting]
      omega
    rw [turns, turns, left, beginning_other later, beginning_other begun]

/-- What the parts of a run answer: never a fresh start or an end by a fault. -/
def Calm (limit : Nat) (control : Control) : Prop :=
  Usual limit control ∧ control ≠ .starting ∧ ∀ f, control ≠ .aborted f

theorem Going.proceeds (going : m.Going limit passed) (uncounted : m.passAhead = none)
    (same : m'.tally = m.tally) (usual : Usual limit m'.control) (later : m'.control ≠ .starting)
    (less : m.control = .starting ∧ Brief m'.control ∨ m'.weight < m.weight)
    (free : ∀ l, m'.control ≠ .aborted (.liveLock l)) : Proceeds limit passed m m' := by
  refine ⟨?_, eases_of_tally same later less, fun l spent => absurd spent (free l)⟩
  rw [uncounted]
  exact going.of_tally same usual

theorem Going.proceed_leads (going : m.Going limit passed) (uncounted : m.passAhead = none)
    (heavy : m.control = .starting ∨ 0 < m.weight) {part : MachineM Control}
    (leads : Leads part m
      (fun control n => n.tally = m.tally ∧ Calm limit control ∧
        (m.control = .starting ∧ Brief control ∨ weight { n with control } < m.weight))
      (fun i n => n.tally = m.tally ∧ refused i)) :
    Proceeds limit passed m (m.proceed part) := by
  refine Machine.proceed_leads leads ?_ ?_ ?_ ?_
  · rintro control n _ ⟨same,calm,less⟩
    exact going.proceeds uncounted same calm.1 calm.2.1 less fun l => calm.2.2 _
  · rintro f n ⟨same,absurd | ⟨e,eq⟩⟩
    · cases absurd
    · cases eq
      have reached : (n.reach .exited).frame.tally = n.frame.tally :=
        congrArg tally (n.frame_reach .exited)
      exact going.proceeds uncounted (Eq.trans reached same) (Or.inr ⟨e, rfl⟩) nofun
        (heavy.imp (fun starting => ⟨starting, trivial⟩) id) nofun
  · rintro f n ⟨_,absurd | ⟨e,eq⟩⟩
    · cases absurd
    · cases eq
  · rintro n ⟨same,_⟩
    exact going.proceeds uncounted same trivial nofun
      (heavy.imp (fun starting => ⟨starting, trivial⟩) id) nofun

theorem Going.proceeds_counted (going : m.Going limit passed) {enabled : List TransitionIndex}
    (counted : m.passAhead = some enabled)
    (chart : m'.chart = m.chart) (options : m'.options = m.options)
    (steps : m'.steps = m.steps + 1) (allowed : m.steps < limit) (usual : Usual limit m'.control)
    (later : m'.control ≠ .starting) (brief : Brief m'.control)
    (free : ∀ l, m'.control ≠ .aborted (.liveLock l)) : Proceeds limit passed m m' := by
  have had := going.allowed
  refine ⟨?_, ?_, fun l spent => absurd spent (free l)⟩
  · rw [counted]
    exact
      { allowed := by rw [options]; exact had
        entry := by rw [chart]; exact going.entry
        counted := by rw [steps, going.counted]; rfl
        bounded := by omega
        usual }
  · refine .turn ?_ brief
    rw [turns, turns, options, steps, beginning_other later]
    omega

theorem reach_tally (m : Machine) (p : LifePoint) : (m.reach p).tally = m.tally := by
  have framed : (m.reach p).frame.tally = m.frame.tally := congrArg tally (m.frame_reach p)
  exact framed

theorem calm_macrostep : Calm limit .macrostep := ⟨trivial, nofun, nofun⟩

theorem calm_effects : Calm limit (.effects .macrostep) := ⟨trivial, nofun, nofun⟩

theorem enterInitial_tally (entry : (m.chart.state Chart.root).initial ≠ none)
    (n : Machine) :
    Leads (enterInitial m.chart) n
      (fun control n' => n'.tally = n.tally ∧ control = .effects .macrostep)
      (fun i n' => n'.tally = n.tally ∧ refused i) := by
  have declared : Same tally refused initializeData :=
    Same.of_frames (fun _ => rfl) initializeData_frames
  refine Leads.bind ((declared n).leads.mono (fun _ _ _ same => same) fun _ _ stopped => stopped) ?_
  intro _ k _ same
  cases initial : (m.chart.state Chart.root).initial with
  | none => exact absurd initial entry
  | some t =>
    have entering : Same (fun m => tally (shell m)) onlyCrash (enterStates [t]) :=
      Same.coarsen tally (enterStates_shell [t])
    refine Leads.bind ((entering k).leads.mono (fun _ _ _ entered => entered.trans same) ?_) ?_
    · exact fun i _ stopped => ⟨stopped.1.trans same, Or.inl stopped.2⟩
    · exact fun _ _ _ entered => ⟨entered, rfl⟩

theorem starting_proceeds (going : m.Going limit passed) (starting : m.control = .starting) :
    Proceeds limit passed m (m.proceed MachineM.start) := by
  refine going.proceed_leads (passAhead_other (by rw [starting]; nofun)) (Or.inl starting) ?_
  by_cases entered : m.context.initialized = true
  · have run := start_again entered
    by_cases done : m.context.done = true
    · rw [if_pos done] at run
      refine Leads.of_eq (y := pure (.exited .completed)) run
        ⟨?_, ?_, Or.inl ⟨starting, trivial⟩⟩
      · exact (reach_tally _ _).trans (reach_tally _ _)
      · exact ⟨Or.inl rfl, nofun, nofun⟩
    · rw [if_neg done] at run
      exact Leads.of_eq (y := pure .macrostep) run
        ⟨reach_tally _ _, calm_macrostep, Or.inl ⟨starting, trivial⟩⟩
  · have run := start_first (by simpa using entered)
    refine Leads.of_eq run ((enterInitial_tally going.entry _).mono ?_ ?_)
    · rintro control n _ ⟨same,rfl⟩
      exact ⟨same.trans (reach_tally _ _), calm_effects, Or.inl ⟨starting, trivial⟩⟩
    · exact fun i n stopped => ⟨stopped.1.trans (reach_tally _ _), stopped.2⟩

theorem weight_macrostep_le (m : Machine) :
    weight { m with control := .macrostep } ≤ 2 * (pendingInvokes m).length + 4 := by
  simp only [weight]
  split
  · exact Nat.le_refl _
  · omega

theorem two_le_weight (control : m.control = .macrostep) : 2 ≤ m.weight := by
  simp only [weight, control]
  split
  · omega
  · exact Nat.le_refl 2

theorem effects_proceeds (going : m.Going limit passed) {next : AfterEffects}
    (asked : m.control = .effects next) {n : Machine} (framed : n.frame = m.frame) :
    Proceeds limit passed m (n.proceed (afterEffects next)) := by
  have uncounted := passAhead_other (m := m) (by rw [asked]; nofun)
  have same : n.frame.tally = m.frame.tally := congrArg tally framed
  cases next with
  | macrostep =>
    have before : m.weight = 2 * (pendingInvokes m).length + 5 := by rw [weight, asked]
    have after := weight_macrostep_le n
    rw [pendingInvokes_frame framed] at after
    change Proceeds limit passed m { n with control := .macrostep }
    refine going.proceeds uncounted same trivial nofun (Or.inr ?_) nofun
    omega
  | exit status =>
    have before : m.weight = 1 := by rw [weight, asked]
    have usual : Usual limit (.exited status) := by
      have usual := going.usual
      rw [asked] at usual
      exact usual
    change Proceeds limit passed m { n.reach status.point with control := .exited status }
    refine going.proceeds uncounted ((reach_tally n _).trans same) usual nofun (Or.inr ?_) nofun
    rw [before]
    exact Nat.zero_lt_one

theorem starts_proceeds (going : m.Going limit passed) {data : InvokeData}
    {pending : List (StateIndex × Nat)} (asked : m.control = .starts data pending)
    (failure : Option Failure) : Proceeds limit passed m (m.startDone failure) := by
  have before : m.weight = 2 * pending.length + 4 := by rw [weight, asked]
  have calm : Calm limit (.invoking pending) := ⟨trivial, nofun, nofun⟩
  rw [startDone_eq asked]
  refine going.proceed_leads (passAhead_other (by rw [asked]; nofun)) (Or.inr (by omega)) ?_
  rw [before]
  cases failure with
  | none => exact ⟨rfl, calm, Or.inr (Nat.lt_succ_self _)⟩
  | some f => exact ⟨rfl, calm, Or.inr (Nat.lt_succ_self _)⟩

theorem invoking_proceeds (going : m.Going limit passed) {pending : List (StateIndex × Nat)}
    (control : m.control = .invoking pending) :
    Proceeds limit passed m (m.proceed (goOn pending)) := by
  have before : m.weight = 2 * pending.length + 3 := by rw [weight, control]
  refine going.proceed_leads (passAhead_other (by rw [control]; nofun)) (Or.inr (by omega)) ?_
  rw [before]
  cases pending with
  | nil =>
    refine (goOn_nil m).mono ?_ fun _ _ => False.elim
    rintro control n _ ⟨framed,⟨rfl,rfl,queued⟩ | rfl⟩
    · refine ⟨rfl, calm_macrostep, Or.inr ?_⟩
      simp [weight, queued]
    · have same : { n with accepted := m.accepted }.frame.tally = m.frame.tally :=
        congrArg tally framed
      exact ⟨same, ⟨trivial, nofun, nofun⟩, Or.inr (Nat.succ_pos _)⟩
  | cons invoke rest =>
    have outlined : ∀ n : Machine, n.outline = m.outline → n.tally = m.tally := by
      intro n same
      have same : n.outline.tally = m.outline.tally := congrArg tally same
      exact same
    refine (goOn_cons invoke.1 invoke.2 rest m).mono ?_ fun _ _ => False.elim
    rintro control n _ ⟨same,rfl | ⟨data,rfl⟩⟩
    · refine ⟨outlined n same, ⟨trivial, nofun, nofun⟩, Or.inr ?_⟩
      simp only [weight, List.length_cons]
      omega
    · refine ⟨outlined n same, ⟨trivial, nofun, nofun⟩, Or.inr ?_⟩
      simp only [weight, List.length_cons]
      omega

section Pass

-- What a macrostep has found, in terms of the machine before it looked.
variable {event : Option Event} {enabled : List TransitionIndex} {n : Machine}

theorem look_tally {found : Found} (run : look m = .ok found n) : n.tally = m.tally := by
  have framed : n.frame = m.frame := (look_same m).of_ok run
  have same : n.frame.tally = m.frame.tally := congrArg tally framed
  exact same

/-- The microsteps are used up, and the pass is not carried out. -/
theorem spent_proceeds (going : m.Going limit passed) (control : m.control = .macrostep)
    (run : look m = .ok (.transitions event enabled) n)
    (beyond : ¬ n.steps < n.options.maxMicrosteps) :
    Proceeds limit passed m (m.proceed macrostep) := by
  have same := look_tally run
  obtain ⟨_,options,steps⟩ : n.chart = m.chart ∧ n.options = m.options ∧ n.steps = m.steps := by
    simpa [tally] using same
  have allowed : n.options.maxMicrosteps = limit := by rw [options, going.allowed]
  have uncounted := passAhead_found control run
  rw [if_neg beyond] at uncounted
  have stop : macrostep m = .error (.fault (.liveLock limit)) n := by
    rw [← allowed]
    exact (macrostep_of_look run).trans (pass_beyond beyond)
  have after : m.proceed macrostep = proceed.abort n (.liveLock limit) := by
    unfold proceed
    rw [stop]
  have after_tally := (reach_tally n .liveLockAbort).trans same
  have weighs : 0 < m.weight := Nat.lt_of_lt_of_le Nat.two_pos (two_le_weight control)
  rw [after]
  refine ⟨?_, eases_of_tally after_tally nofun (Or.inr weighs), ?_⟩
  · rw [uncounted]
    exact going.of_tally after_tally (Or.inl rfl)
  · intro l _
    have bounded := going.bounded
    have counted := going.counted
    exact ⟨by omega, event, enabled, n, look_ok run⟩

/-- The pass is carried out and counted. -/
theorem pass_proceeds (going : m.Going limit passed) (control : m.control = .macrostep)
    (run : look m = .ok (.transitions event enabled) n)
    (within : n.steps < n.options.maxMicrosteps) :
    Proceeds limit passed m (m.proceed macrostep) := by
  obtain ⟨chart,options,steps⟩ : n.chart = m.chart ∧ n.options = m.options ∧ n.steps = m.steps := by
    simpa [tally] using look_tally run
  have allowed : n.options.maxMicrosteps = limit := by rw [options, going.allowed]
  have counted := passAhead_found control run
  rw [if_pos within] at counted
  have onwards : ∀ k : Machine, k.tally = (n.chart, n.options, n.steps + 1) →
      Usual limit k.control → k.control ≠ .starting → Brief k.control →
      (∀ l, k.control ≠ .aborted (.liveLock l)) → Proceeds limit passed m k := by
    intro k after usual later brief free
    simp only [tally, Prod.mk.injEq] at after
    exact going.proceeds_counted counted (after.1.trans chart) (after.2.1.trans options)
      (by omega) (by omega) usual later brief free
  have carried := (macrostep_of_look run).trans (pass_within within)
  refine Machine.proceed_leads (Leads.of_eq carried (carryOut_tally enabled _)) ?_ ?_ ?_ ?_
  · rintro control k _ ⟨after,rfl | rfl⟩
    · exact onwards _ after trivial nofun trivial nofun
    · exact onwards _ after trivial nofun trivial nofun
  · rintro f k ⟨_,absurd⟩
    cases absurd
  · rintro f k ⟨_,absurd⟩
    cases absurd
  · rintro k ⟨after,_⟩
    exact onwards _ after trivial nofun trivial nofun

end Pass

theorem macrostep_proceeds (going : m.Going limit passed) (control : m.control = .macrostep) :
    Proceeds limit passed m (m.proceed macrostep) := by
  have weighs := two_le_weight control
  have heavy : m.control = .starting ∨ 0 < m.weight := Or.inr (by omega)
  cases run : look m with
  | error i n =>
    have stop := macrostep_of_error run
    obtain ⟨framed,refusal⟩ := (look_same m).of_error run
    have same : n.frame.tally = m.frame.tally := congrArg tally framed
    refine going.proceed_leads (passAhead_error run) heavy ?_
    unfold Leads
    rw [stop]
    exact ⟨same, refusal⟩
  | ok found n =>
    have framed : n.frame = m.frame := (look_same m).of_ok run
    cases found with
    | transitions event enabled =>
      by_cases within : n.steps < n.options.maxMicrosteps
      · exact pass_proceeds going control run within
      · exact spent_proceeds going control run within
    | completion =>
      have ended := macrostep_of_look run
      have uncounted := passAhead_unfound run (by simp)
      cases look_ok run
      refine going.proceed_leads uncounted heavy ?_
      have shelled : ∀ k : Machine, k.shell = m.shell → k.tally = m.tally := by
        intro k same
        have same : k.shell.tally = m.shell.tally := congrArg tally same
        exact same
      refine Leads.of_eq ended ((complete_leads m).mono ?_ ?_)
      · rintro control k _ ⟨rfl,same⟩
        exact ⟨shelled k same, ⟨Or.inl rfl, nofun, nofun⟩, Or.inr weighs⟩
      · exact fun i k stopped => ⟨shelled k stopped.2, Or.inl stopped.1⟩
    | destruction =>
      have ended := macrostep_of_look run
      have uncounted := passAhead_unfound run (by simp)
      cases look_ok run
      refine going.proceed_leads uncounted heavy ?_
      exact Leads.of_eq ended ⟨rfl, ⟨Or.inr rfl, nofun, nofun⟩, Or.inr weighs⟩
    | stability =>
      have settled := macrostep_of_look run
      cases look_ok run with
      | stability selected empty =>
        -- Nothing was queued before, so the weight is that of a stable configuration.
        have drifts : m.Drifts n := (selectTransitions_frames none m).of_ok selected
        obtain ⟨more,queue⟩ := drifts.queue
        have quiet : m.context.internalQueue = [] := (List.append_eq_nil_iff.mp (queue ▸ empty)).1
        have before : m.weight = 2 * (pendingInvokes m).length + 4 := by
          simp [weight, control, quiet]
        have same : n.frame.tally = m.frame.tally := congrArg tally framed
        refine going.proceed_leads (passAhead_unfound run (by simp)) heavy ?_
        refine Leads.of_eq settled ⟨same, ⟨trivial, nofun, nofun⟩, Or.inr ?_⟩
        rw [before, ← pendingInvokes_frame framed]
        exact Nat.lt_succ_self _

theorem work_proceeds (going : m.Going limit passed) (work : Work m m') :
    Proceeds limit passed m m' := by
  cases work with
  | step running =>
    cases control : m.control with
    | starting =>
      rw [step, control]
      exact starting_proceeds going control
    | macrostep =>
      rw [step, control]
      exact macrostep_proceeds going control
    | invoking pending =>
      rw [step, control]
      exact invoking_proceeds going control
    | effects next =>
      have none : m.effects.isEmpty = true := by simpa [isBlocked, control] using running
      have moved : m.step = m.proceed (afterEffects next) := by
        rw [step, control]
        simp only [none, if_true]
      rw [moved]
      exact effects_proceeds going control rfl
    | _ => simp [isBlocked, control] at running
  | effectsDone next failures asked =>
    rw [effectsDone_eq asked]
    exact effects_proceeds going asked (foldl_raiseFailure_frame failures _)
  | startDone data pending failure asked => exact starts_proceeds going asked failure

theorem receive_tally (e : Event) (m : Machine) :
    Leads (receive e) m (fun _ n => n.tally = (m.chart, m.options, 0))
      (fun i n => n.tally = (m.chart, m.options, 0) ∧ refused i) := by
  have kept : Same tally refused (announce e >>= fun _ => selectTransitions (some e.name)) :=
    Keeps.bind (Same.of_outline (fun _ => rfl) (announce_outline e)) fun _ =>
      Same.of_frames (fun _ => rfl) (selectTransitions_frames _).refused
  exact Leads.of_eq (receive_eq e m) (kept { m with steps := 0 }).leads

theorem Answers.leads {e : Event} {passes : List (List TransitionIndex)}
    (answers : m.Answers e passes) :
    Leads (process e) m
      (fun control n => n.tally = (m.chart, m.options, passes.length) ∧
        (control = .macrostep ∨ control = .effects .macrostep))
      (fun i n => n.tally = (m.chart, m.options, passes.length) ∧ refused i) := by
  have receives := receive_tally e m
  unfold Leads at receives
  cases answers with
  | @pass enabled n _ received carried =>
    rw [received] at receives
    have counted : tally { n with steps := n.steps + 1 } = (m.chart, m.options, 1) := by
      simp only [tally, Prod.mk.injEq] at receives ⊢
      exact ⟨receives.1, receives.2.1, by rw [receives.2.2]⟩
    refine Leads.of_eq carried ((carryOut_tally enabled _).mono ?_ ?_)
    · exact fun control k _ after => ⟨after.1.trans counted, after.2⟩
    · exact fun i k stopped => ⟨stopped.1.trans counted, Or.inl stopped.2⟩
  | nothing received answered =>
    rw [received] at receives
    exact Leads.of_eq (y := pure (.effects .macrostep)) answered ⟨receives, Or.inr rfl⟩
  | interruption received stopped =>
    rw [received] at receives
    unfold Leads
    rw [stopped]
    exact receives

theorem take_event (limit : Nat) {e : Event} {passes : List (List TransitionIndex)}
    (waiting : m.control = .waiting) (answers : m.Answers e passes) :
    (m.take (.event e)).tally = (m.chart, m.options, passes.length) ∧
      Usual limit (m.take (.event e)).control ∧ Brief (m.take (.event e)).control := by
  rw [take_waiting waiting]
  refine Machine.proceed_leads (T := fun k => k.tally = (m.chart, m.options, passes.length) ∧
    Usual limit k.control ∧ Brief k.control) answers.leads ?_ ?_ ?_ ?_
  · rintro control k _ ⟨counted,rfl | rfl⟩
    · exact ⟨counted, trivial, trivial⟩
    · exact ⟨counted, trivial, trivial⟩
  · rintro f k ⟨counted,absurd | ⟨v,eq⟩⟩
    · cases absurd
    · cases eq
      exact ⟨(reach_tally k _).trans counted, Or.inr ⟨v, rfl⟩, trivial⟩
  · rintro f k ⟨_,absurd | ⟨v,absurd⟩⟩
    · cases absurd
    · cases absurd
  · rintro k ⟨counted,_⟩
    exact ⟨counted, trivial, trivial⟩

theorem Answers.length_le {e : Event} {passes : List (List TransitionIndex)}
    (answers : m.Answers e passes) : passes.length ≤ 1 := by
  cases answers with
  | pass => exact Nat.le_refl 1
  | nothing | interruption => exact Nat.zero_le 1

section Segments

variable {b m₀ : Machine} {first passes : List (List TransitionIndex)}

theorem Begins.going (entry : (b.chart.state Chart.root).initial ≠ none)
    (positive : 1 ≤ b.options.maxMicrosteps) (begins : b.Begins first m₀) :
    m₀.Going b.options.maxMicrosteps first.length := by
  cases begins with
  | start => exact ⟨rfl, entry, rfl, Nat.zero_le _, trivial⟩
  | event waiting answers =>
    obtain ⟨same,usual,_⟩ := take_event b.options.maxMicrosteps waiting answers
    simp only [tally, Prod.mk.injEq] at same
    obtain ⟨chart,options,steps⟩ := same
    have few := answers.length_le
    exact ⟨by rw [options], by rw [chart]; exact entry, steps, by omega, usual⟩

theorem Segment.run (segment : Segment m passes m') : Run m m' := by
  induction segment with
  | refl => exact .refl _
  | next _ memory destroyed reports _ work ih =>
    exact .next (.next ih (.disturb _ memory destroyed reports)) (.work work)

theorem Segment.step (segment : Segment m passes m') (running : m'.isBlocked = false) :
    Segment m (passes ++ m'.passAhead.toList) m'.step :=
  .next segment m'.memory m'.destroyed m'.reports m'.carriesOut_ahead (.step m' running)

end Segments

theorem Going.disturb (going : m.Going limit passed) (memory : Memory) (destroyed : Bool)
    (reports : List Report) : (m.disturb memory destroyed reports).Going limit passed :=
  ⟨going.allowed, going.entry, going.counted, going.bounded, going.usual⟩

theorem Segment.going {passes : List (List TransitionIndex)} (begun : m.Going limit passed)
    (segment : Segment m passes m') : m'.Going limit (passed + passes.length) := by
  induction segment with
  | refl => exact begun
  | next _ memory destroyed reports carries work ih =>
    have after := (work_proceeds (ih.disturb memory destroyed reports) work).going
    rw [List.length_append, ← Nat.add_assoc, carries.ahead]
    exact after

end Machine

end Statechart

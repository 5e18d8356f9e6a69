import Statechart.Proofs.Machine.Aborting
import Statechart.Proofs.Machine.Customs
import Statechart.Proofs.Machine.Fitness

/- That a machine does not break down.

   It can only do so by an action of its host, by an event from a service whose invoke is not there,
   or by defaults that lead in circles. So let the host's actions return, let no default be circular,
   and let the context fit the chart; then a part of a step that could break down comes to its end. -/
namespace Statechart

open Machine

/-- A chart that gives no machine a reason to break down. -/
structure Chart.Sturdy (c : Chart) : Prop where
  wf : c.WellFormed
  inward : c.Inward []
  uncircular : c.Uncircular
  returns : c.Customs CustomAction.Returns

theorem Chart.sturdy_of_compile {library : ActionLibrary} {source : Source.ChartDef} {c : Chart}
    (accepted : Chart.compile library source = .ok c) (uncircular : c.Uncircular)
    (returns : Compile.ActionsAre CustomAction.Returns library) : c.Sturdy :=
  ⟨Chart.compile_wellFormed accepted, Chart.compile_inward accepted, uncircular,
    Chart.compile_customs returns accepted⟩

namespace MachineM

variable {α β : Type} {c : Chart} {m m' : Machine}

/-- The part comes to its end in all machines of the chart, and leaves it as it is. -/
def Ends (c : Chart) (x : MachineM α) : Prop :=
  ∀ m, m.chart = c → ∃ a n, x m = .ok a n ∧ n.chart = c

namespace Ends

theorem pure (a : α) : Ends c (Pure.pure a) := fun m chart => ⟨a, m, rfl, chart⟩

theorem bind {x : MachineM α} {f : α → MachineM β} (first : Ends c x) (rest : ∀ a, Ends c (f a)) :
    Ends c (x >>= f) := by
  intro m chart
  obtain ⟨a,n,run,kept⟩ := first m chart
  rw [bind_of_ok f run]
  exact rest a n kept

theorem read {f : Machine → MachineM α} (rest : ∀ m, m.chart = c → Ends c (f m)) :
    Ends c ((get : MachineM Machine) >>= f) := fun m chart => rest m chart m chart

theorem forM {l : List β} {f : β → MachineM Unit} (each : ∀ b ∈ l, Ends c (f b)) :
    Ends c (l.forM f) := by
  induction l with
  | nil => exact pure ()
  | cons b rest ih =>
    exact bind (each b List.mem_cons_self) fun _ => ih fun d later =>
      each d (List.mem_cons_of_mem _ later)

theorem update {f : Machine → Machine} (kept : ∀ m, (f m).chart = m.chart) :
    Ends c (MachineM.update f) := fun m chart => ⟨(), f m, rfl, (kept m).trans chart⟩

theorem of_frames {x : MachineM α} (frames : Frames never x) : Ends c x := by
  intro m chart
  have kept := frames m
  unfold KeepsAt at kept
  cases run : x m with
  | ok a n =>
    rw [run] at kept
    have same : n.chart = m.chart := congrArg (fun m => m.chart) kept.frame
    exact ⟨a, n, rfl, same.trans chart⟩
  | error i n =>
    rw [run] at kept
    exact kept.2.elim

theorem leads {x : MachineM α} {E : Interrupt → Machine → Prop} (ends : Ends c x)
    (chart : m.chart = c) : Leads x m (fun _ n => n.chart = c) E := by
  obtain ⟨a,n,run,kept⟩ := ends m chart
  unfold Leads
  rw [run]
  exact kept

end Ends

theorem leads_of_ok {x : MachineM α} {a : α} {Q : α → Machine → Prop}
    {E : Interrupt → Machine → Prop} (run : x m = .ok a m') (holds : Q a m') : Leads x m Q E := by
  unfold Leads
  rw [run]
  exact holds

/-- The part of a step neither breaks the machine down nor answers that it has. -/
abbrev Survives (part : MachineM Control) (m : Machine) : Prop :=
  Leads part m (fun control _ => Ongoing control) fun i _ => survived i

theorem Survives.of_ongoing {part : MachineM Control}
    (ongoing : Leads part m (fun control _ => Ongoing control) fun _ _ => False) :
    Survives part m := ongoing.mono (fun _ _ _ => id) fun _ _ => False.elim

theorem enterFinal_ends (s : StateIndex) : Ends c (enterFinal s) := by
  refine .read fun m _ => .bind (.of_frames (evaluateOr_frames _)) fun data => ?_
  simp only
  split
  · exact .update fun _ => rfl
  · refine .bind (.update fun _ => rfl) fun _ => ?_
    split
    · refine .read fun n _ => ?_
      split
      · exact .update fun _ => rfl
      · exact .pure _
    · exact .pure _

section Content

variable (sturdy : c.Sturdy)

include sturdy

theorem exitState_ends (s : StateIndex) : Ends c (exitState s) := by
  refine .read fun m chart => ?_
  obtain rfl := chart
  refine .bind (.of_frames (trace_frames _)) fun _ => ?_
  refine .bind (.of_frames (executeBlock_returns (sturdy.returns.onExit s))) fun _ => ?_
  exact .bind (.update fun _ => rfl) fun _ => .of_frames (trace_frames _)

theorem exitStates_ends (enabled : List TransitionIndex) : Ends c (exitStates enabled) := by
  refine .read fun m chart => ?_
  refine .bind (fun _ _ => ⟨(), _, rfl, chart⟩) fun _ => ?_
  exact .forM fun s _ => exitState_ends sturdy s

theorem performTransitions_ends (enabled : List TransitionIndex) :
    Ends c (performTransitions enabled) := by
  refine .forM fun t _ => .read fun m chart => ?_
  obtain rfl := chart
  refine .bind (.of_frames (trace_frames _)) fun _ => ?_
  refine .bind (.of_frames (executeBlock_returns (sturdy.returns.actions t))) fun _ => ?_
  exact .of_frames (trace_frames _)

theorem enterByHistory_ends (e : EntrySet) (s : StateIndex) : Ends c (enterByHistory e c s) := by
  have arriving : Ends c (arrive c s) := by
    refine .bind (.of_frames (trace_frames _)) fun _ => ?_
    split
    · exact enterFinal_ends s
    · exact .pure _
  unfold enterByHistory
  simp only
  split
  · rename_i t _
    exact .bind (.of_frames (executeBlock_returns (sturdy.returns.actions t))) fun _ => arriving
  · exact arriving

theorem enterState_ends (e : EntrySet) (s : StateIndex) : Ends c (enterState e s) := by
  have content := enterByHistory_ends sturdy e s
  rw [enterState_eq]
  refine .read fun m chart => ?_
  obtain rfl := chart
  refine .bind (.of_frames (trace_frames _)) fun _ => .bind (.update fun _ => rfl) fun _ => ?_
  refine .bind (.of_frames (executeBlock_returns (sturdy.returns.onEntry s))) fun _ => ?_
  simp only
  split
  · split
    · rename_i t _
      exact .bind (.of_frames (executeBlock_returns (sturdy.returns.actions t))) fun _ => content
    · exact content
  · exact content

theorem complete_ends : Ends c complete := by
  refine .read fun m chart => ?_
  obtain rfl := chart
  refine .bind (.forM fun s _ => ?_) fun _ => .bind (.update fun _ => rfl) fun _ => .pure _
  refine .bind (.of_frames (executeBlock_returns (sturdy.returns.onExit s))) fun _ => ?_
  exact .bind (.update fun _ => rfl) fun _ => .of_frames (trace_frames _)

theorem finalizeOrForward_ends (e : Event) (i : Invocation) :
    Ends c (finalizeOrForward c e i) := by
  unfold finalizeOrForward
  split
  · refine .of_frames (executeBlock_returns ?_)
    cases invoke : (c.state i.state).invokes[i.node]? with
    | none => exact trivial
    | some node => exact sturdy.returns.finalize _ node (List.mem_of_getElem? invoke)
  · split
    · exact .update fun _ => rfl
    · exact .pure _

/-- Looking for transitions finds what is behind the enabled ones. -/
theorem selectTransitions_ends (event : Option EventName) : Ends c (selectTransitions event) := by
  intro m chart
  obtain rfl := chart
  obtain ⟨enabled,n,collected,framed⟩ := collectEnabled_ends event
    (m.context.configuration.filter m.chart.isAtomic) [] m
  have followed : enabled.all (m.chart.isFollowed m.context.history) = true :=
    List.all_eq_true.mpr fun t _ => Chart.isFollowed_iff.mpr
      (sturdy.wf.resolves sturdy.inward sturdy.uncircular m.context.history t)
  refine ⟨_, n, (selectTransitions_of_collect collected).trans (if_pos followed), ?_⟩
  exact congrArg (fun m => m.chart) framed

end Content

section Fitting

variable (sturdy : c.Sturdy) (fits : m.Fits c)

include sturdy fits

theorem fits_after {x : MachineM α} {a : α} (roams : [Roaming c (KeepsFit c)] → Roams (KeepsFit c) x)
    (run : x m = .ok a m') : m'.Fits c := by
  have := keepsFit_roaming sturdy.wf
  exact (roams m).of_ok run fits

theorem enterStates_ends (enabled : List TransitionIndex) :
    ∃ n, enterStates enabled m = .ok () n := by
  have sheltered := Chart.sheltered_of_shelters fits.context.shelters
  obtain ⟨e,found⟩ :=
    sturdy.wf.entrySet_found sturdy.inward sturdy.uncircular sheltered enabled
  obtain ⟨_,n,run,_⟩ := Ends.forM (fun s _ => enterState_ends sturdy e s) m fits.chart
  refine ⟨n, ?_⟩
  rw [enterStates, get_bind, fits.chart, found]
  exact run

theorem microstep_ends (enabled : List TransitionIndex) : ∃ n, microstep enabled m = .ok () n := by
  obtain ⟨_,k,leaving,_⟩ := exitStates_ends sturdy enabled m fits.chart
  have left := fits_after sturdy fits (exitStates_roams enabled) leaving
  obtain ⟨_,l,content,_⟩ := performTransitions_ends sturdy enabled k left.chart
  have performed := fits_after sturdy left (Frames.roams (performTransitions_frames enabled)) content
  obtain ⟨n,entering⟩ := enterStates_ends sturdy performed enabled
  refine ⟨n, ?_⟩
  rw [microstep, bind_of_ok _ leaving, bind_of_ok _ content, entering]

theorem look_survives : Leads look m (fun _ n => n.Fits c) fun i _ => survived i := by
  have looking : Leads look m (fun _ _ => True) fun i _ => survived i := by
    refine Leads.of_eq (get_bind _ m) ?_
    split
    · trivial
    · split
      · trivial
      · refine Leads.bind ((selectTransitions_ends sturdy none).leads fits.chart) ?_
        intro enabled n _ chart
        split
        · trivial
        · refine Leads.of_eq (get_bind _ n) ?_
          split
          · trivial
          · rename_i e rest _
            have bound : Keeps Drifts survived (bindEvent e) := bindEvent_frames e
            refine Leads.bind (m := { n with context := { n.context with internalQueue := rest } })
              ((bound _).leads.mono (fun _ _ _ drifts => drifts) fun _ _ stopped => stopped.2) ?_
            intro _ k _ drifts
            have same : k.chart = n.chart := congrArg (fun m => m.chart) drifts.frame
            exact Leads.bind ((selectTransitions_ends sturdy _).leads (same.trans chart))
              fun _ _ _ _ => trivial
  refine looking.mono (fun found n run _ => ?_) fun _ _ => id
  exact fits_after sturdy fits (Keeps.roams (look_keeps fun _ _ => roams_of_places rfl)) run

theorem complete_survives : Survives complete m := by
  obtain ⟨control,n,run,_⟩ := complete_ends sturdy m fits.chart
  have answers := complete_leads m
  unfold Leads at answers
  rw [run] at answers
  exact leads_of_ok run (answers.1 ▸ trivial)

theorem pass_survives (enabled : List TransitionIndex) : Survives (pass enabled) m := by
  have counted : Machine.Fits c { m with steps := m.steps + 1 } := fits.of_places rfl
  obtain ⟨n,run⟩ := microstep_ends sturdy counted enabled
  exact Leads.pass (fun _ => nofun) trivial (leads_of_ok run trivial)

theorem macrostep_survives : Survives macrostep m := by
  rw [macrostep_eq]
  refine Leads.bind (look_survives sturdy fits) fun found n run fits => ?_
  cases found with
  | completion => exact complete_survives sturdy fits
  | destruction => exact leads_of_ok rfl trivial
  | stability => exact leads_of_ok rfl trivial
  | transitions event enabled => exact pass_survives sturdy fits enabled

theorem enterInitial_survives : Survives (enterInitial c) m := by
  have declaring : Keeps Drifts survived initializeData := initializeData_frames
  refine Leads.bind ((declaring m).leads.mono (fun _ _ _ drifts => drifts)
    fun _ _ stopped => stopped.2) fun _ n _ drifts => ?_
  cases (c.state Chart.root).initial with
  | none => exact nofun
  | some t =>
    obtain ⟨k,run⟩ := enterStates_ends sturdy (fits.of_frame drifts.frame) [t]
    exact Leads.bind (leads_of_ok (Q := fun _ _ => True) run trivial) fun _ _ _ _ => trivial

theorem start_survives : Survives start m := by
  cases entered : m.context.initialized with
  | true =>
    have run := start_again entered
    by_cases done : m.context.done = true
    · exact leads_of_ok (run.trans (if_pos done)) trivial
    · exact leads_of_ok (run.trans (if_neg done)) trivial
  | false =>
    refine Leads.of_eq (start_first entered) ?_
    rw [fits.chart]
    exact enterInitial_survives sturdy (fits.of_frame (m.frame_reach _))

theorem receive_survives (e : Event) :
    Leads (receive e) m (fun _ n => n.Fits c) fun i _ => survived i := by
  have binding : Keeps Drifts survived (bindEvent e) := bindEvent_frames e
  have receiving : Leads (receive e) m (fun _ _ => True) fun i _ => survived i := by
    refine Leads.of_eq (receive_eq e m) (Leads.bind (Q := fun _ n => n.chart = c) ?_ ?_)
    · refine Leads.bind ((binding { m with steps := 0 }).leads.mono (fun _ _ _ drifts => drifts)
        fun _ _ stopped => stopped.2) fun _ n _ drifts => ?_
      have began : Machine.Fits c { m with steps := 0 } := fits.of_places rfl
      have fits := began.of_frame drifts.frame
      have passing : Leads (passToServices e) n (fun _ k => k.chart = c) fun i _ => survived i := by
        refine Leads.of_eq (passToServices_served (fits.chart ▸ fits.context.served)) ?_
        rw [fits.chart]
        exact (Ends.forM fun i _ => finalizeOrForward_ends sturdy e i).leads fits.chart
      refine Leads.bind passing fun _ k _ chart => ?_
      split
      · exact chart
      · exact chart
    · exact fun _ n _ chart =>
        ((selectTransitions_ends sturdy _).leads chart).mono (fun _ _ _ _ => trivial) fun _ _ => id
  refine receiving.mono (fun enabled n run _ => ?_) fun _ _ => id
  exact fits_after sturdy fits (receive_roams e) run

theorem process_survives (e : Event) : Survives (process e) m := by
  rw [process_eq]
  refine Leads.bind (receive_survives sturdy fits e) fun enabled n _ fits => ?_
  unfold respond
  simp only
  split
  · have counted : Machine.Fits c { n with steps := n.steps + 1 } := fits.of_places rfl
    obtain ⟨k,run⟩ := microstep_ends sturdy counted enabled
    exact leads_of_ok (bind_of_ok _ run) trivial
  · trivial

theorem takeInput_survives (input : Input) : Survives (takeInput input) m := by
  cases input with
  | destroy => exact leads_of_ok rfl trivial
  | suspend => exact suspend_exits.mono (fun _ _ _ exits => exits ▸ trivial) fun _ _ => id
  | closed => exact leads_of_ok rfl trivial
  | event e => exact process_survives sturdy fits e

end Fitting

end MachineM

namespace Machine

open MachineM

variable {c : Chart} {m m' : Machine}

theorem proceed_survives {part : MachineM Control} (survives : Survives part m) :
    (m.proceed part).control ≠ .crashed := by
  refine proceed_leads (T := fun n => n.control ≠ .crashed) survives ?_ (fun _ _ _ => nofun)
    (fun _ _ _ => nofun) fun _ crash => absurd rfl crash
  intro control n _ ongoing crashed
  cases crashed
  exact ongoing

theorem work_survives (sturdy : c.Sturdy) (fits : m.Fits c) (work : Work m m') :
    m'.control ≠ .crashed := by
  cases work.worked with
  | start => exact proceed_survives (start_survives sturdy fits)
  | macrostep => exact proceed_survives (macrostep_survives sturdy fits)
  | goOn => exact proceed_survives (.of_ongoing (goOn_ongoing _))
  | effects => exact proceed_survives (.of_ongoing (afterEffects_ongoing _))
  | started => exact proceed_survives (.of_ongoing (afterStart_ongoing _ _ _))

structure Unbroken (c : Chart) (m : Machine) : Prop where
  fits : m.Fits c
  whole : m.control ≠ .crashed

theorem Unbroken.move (sturdy : c.Sturdy) (unbroken : m.Unbroken c) (move : Move m m') :
    m'.Unbroken c := by
  refine ⟨run_fits sturdy.wf unbroken.fits (.next (.refl m) move), ?_⟩
  cases move with
  | work work => exact work_survives sturdy unbroken.fits work
  | take input =>
    by_cases waiting : m.control = .waiting
    · rw [take_waiting waiting]
      exact proceed_survives (takeInput_survives sturdy unbroken.fits input)
    · rw [take_other waiting]
      exact unbroken.whole
  | disturb => exact unbroken.whole
  | restart => exact nofun
  | retry => exact nofun

/-- A machine that has not broken down does not, whatever its surroundings do, if its context fits a
    chart without circular defaults in which the host's actions return. -/
theorem Unbroken.run (sturdy : c.Sturdy) (unbroken : m.Unbroken c) (run : Run m m') :
    m'.Unbroken c :=
  run.invariant unbroken fun unbroken move => unbroken.move sturdy move

end Machine

end Statechart

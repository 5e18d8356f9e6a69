import Statechart.Proofs.Machine.Lifecycle

/- What a machine asks for. Only after a macrostep, with an invoke at hand, does it ask for a
   service to be started, and then it has taken note of the service already. -/
namespace Statechart

def Control.asked : Control → Option InvokeData
  | .starts data _ => some data
  | _ => none

/-- The service that is asked for has been noted, under the ids that are handed out. -/
def Context.Announces (x : Context) (control : Control) : Prop :=
  ∀ data, control.asked = some data → ∃ i ∈ x.invocations,
    i.invokeId = data.invokeId ∧ i.uniqueId = data.uniqueId

theorem Context.announces_nothing {x : Context} {control : Control} (none : control.asked = none) :
    x.Announces control := by
  intro data some
  rw [none] at some
  cases some

namespace Machine

variable {m m' : Machine}

abbrev Announced (m : Machine) : Prop := m.context.Announces m.control

abbrev AsksNothing (part : MachineM Control) (m : Machine) : Prop :=
  MachineM.Leads part m (fun control _ => control.asked = none) (fun _ _ => True)

theorem AsksNothing.announced {part : MachineM Control} (nothing : AsksNothing part m) :
    (m.proceed part).Announced := by
  refine proceed_leads (T := Announced) nothing ?_ ?_ ?_ ?_
  · exact fun _ _ _ none => Context.announces_nothing none
  · exact fun _ _ _ => Context.announces_nothing rfl
  · exact fun _ _ _ => Context.announces_nothing rfl
  · exact fun _ _ => Context.announces_nothing rfl

end Machine

namespace MachineM

open Machine

variable {m : Machine}

theorem start_asks (m : Machine) : AsksNothing MachineM.start m := by
  by_cases entered : m.context.initialized = true
  · unfold AsksNothing Leads
    rw [start_again entered]
    by_cases done : m.context.done = true
    · rw [if_pos done]
      rfl
    · rw [if_neg done]
      rfl
  · refine Leads.of_eq (start_first (by simpa using entered)) ?_
    refine Leads.bind (leads_anywhere _ _) fun _ n _ _ => ?_
    cases (m.chart.state Chart.root).initial with
    | none => trivial
    | some t => exact Leads.bind (leads_anywhere _ n) fun _ _ _ _ => rfl

theorem pass_asks (enabled : List TransitionIndex) (m : Machine) :
    AsksNothing (pass enabled) m :=
  .pass (fun _ => trivial) rfl
    ((leads_anywhere (microstep enabled) _).mono (fun _ _ _ _ => rfl) fun _ _ _ => trivial)

theorem macrostep_asks (m : Machine) : AsksNothing macrostep m := by
  rw [macrostep_eq]
  refine Leads.bind (leads_anywhere look m) fun found n _ _ => ?_
  cases found with
  | completion =>
    exact (complete_leads n).mono (fun _ _ _ after => after.1 ▸ rfl) fun _ _ _ => trivial
  | destruction => rfl
  | stability => rfl
  | transitions event enabled => exact pass_asks enabled n

theorem afterEffects_asks (next : AfterEffects) (m : Machine) :
    AsksNothing (afterEffects next) m := by
  cases next with
  | macrostep => rfl
  | exit status => rfl

theorem afterStart_asks (data : InvokeData) (pending : List (StateIndex × Nat))
    (failure : Option Failure) (m : Machine) : AsksNothing (afterStart data pending failure) m := by
  cases failure with
  | none => rfl
  | some f => rfl

theorem takeInput_asks (input : Input) (m : Machine) : AsksNothing (takeInput input) m := by
  cases input with
  | destroy => rfl
  | suspend => exact suspend_exits.mono (fun control n _ exits => exits ▸ rfl) fun _ _ _ => trivial
  | closed => rfl
  | event e =>
    change AsksNothing (process e) m
    rw [process_eq]
    refine Leads.bind (leads_anywhere _ m) fun enabled n _ _ => ?_
    unfold respond
    split
    · exact Leads.bind (leads_anywhere _ n) fun _ k _ _ =>
        Leads.bind (leads_anywhere (microstep enabled) k) fun _ _ _ _ => rfl
    · rfl

/-- A service is noted as the last thing in preparing it. -/
theorem prepareInvoke_announces (s : StateIndex) (node : Nat) (i : InvokeNode) (m : Machine) :
    Leads (prepareInvoke s node i) m (fun data n => ∃ entry ∈ n.context.invocations,
      entry.invokeId = data.invokeId ∧ entry.uniqueId = data.uniqueId) (fun _ _ => True) := by
  rw [prepareInvoke_eq]
  refine Leads.bind (leads_anywhere _ m) fun _ n _ _ => ?_
  refine Leads.bind (leads_anywhere _ n) fun invokeId n _ _ => ?_
  refine Leads.bind (leads_anywhere _ n) fun values n _ _ => ?_
  refine Leads.bind (leads_anywhere freshId n) fun uniqueId n _ _ => ?_
  exact ⟨{ invokeId, uniqueId, state := s, node, autoforward := i.autoforward },
    List.mem_append_right _ (List.mem_singleton_self _), rfl, rfl⟩

theorem goOn_announces (pending : List (StateIndex × Nat)) (m : Machine) :
    Leads (goOn pending) m (fun control n => n.context.Announces control) (fun _ _ => True) := by
  cases pending with
  | nil =>
    refine (goOn_nil m).mono (fun control n _ after => ?_) fun _ _ _ => trivial
    rcases after.2 with ⟨rfl,_⟩ | rfl
    · exact Context.announces_nothing rfl
    · exact Context.announces_nothing rfl
  | cons invoke rest =>
    obtain ⟨s,node⟩ := invoke
    unfold Leads
    rw [goOn_run]
    cases (m.chart.state s).invokes[node]? with
    | none => exact Context.announces_nothing rfl
    | some i =>
      have noted := prepareInvoke_announces s node i m
      unfold Leads at noted
      simp only
      cases prepared : prepareInvoke s node i m with
      | ok data n =>
        rw [prepared] at noted
        intro asked same
        cases same
        exact noted
      | error stop n =>
        cases stop with
        | failure f => exact Context.announces_nothing rfl
        | fault f => trivial
        | crash => trivial

end MachineM

namespace Machine

open MachineM

variable {c : Chart} {m m' : Machine}

theorem worked_announced (worked : Worked m m') : m'.Announced := by
  cases worked with
  | start => exact (start_asks m).announced
  | macrostep => exact (macrostep_asks m).announced
  | @goOn pending =>
    exact proceed_leads (T := Announced) (goOn_announces pending m) (fun _ _ _ own => own)
      (fun _ _ _ => Context.announces_nothing rfl) (fun _ _ _ => Context.announces_nothing rfl)
      fun _ _ => Context.announces_nothing rfl
  | @effects next => exact (afterEffects_asks next _).announced
  | @started data pending _ failure => exact (afterStart_asks data pending failure m).announced

theorem move_announced (announced : m.Announced) (move : Move m m') : m'.Announced := by
  cases move with
  | work work => exact worked_announced work.worked
  | take input =>
    by_cases waiting : m.control = .waiting
    · rw [take_waiting waiting]
      exact (takeInput_asks input m).announced
    · rwa [take_other waiting]
  | disturb => exact announced
  | restart => exact Context.announces_nothing rfl
  | retry => exact Context.announces_nothing rfl

/-- What a machine asks for it has noted, at every point of its runs. -/
theorem Lived.announced (lived : Lived c m) : m.Announced := by
  induction lived with
  | created => exact Context.announces_nothing rfl
  | moved _ move ih => exact move_announced ih move
  | resumed => exact Context.announces_nothing rfl

end Machine

end Statechart

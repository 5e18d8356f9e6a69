import Statechart.Proofs.Chart.Returning
import Statechart.Proofs.Machine.Hearing
import Statechart.Proofs.Machine.Placement

/- What a machine comes back to.

   A microstep that leaves a state with a history state records what was active in it. Taking a
   transition to that history state restores this for as long as the record stands, whatever has happened
   in between. -/
namespace Statechart

namespace Machine

open MachineM

variable {c : Chart} {m m' n : Machine} {transitions : List TransitionIndex}

/-- What holds of every machine of a run until it breaks down: its configuration is of ordinary states
    of the chart in order, and its records lead inside. -/
structure Intact (c : Chart) (m : Machine) : Prop where
  grounded : m.Grounded c
  placed : m.Placed c
  ordinary : ∀ s ∈ m.context.configuration, c.isHistory s = false

theorem Intact.onward (intact : m.Intact c) (wf : c.WellFormed)
    (takes : Takes m transitions m') :
    m'.control = .crashed ∨ (m'.Intact c ∧ Arrives m transitions m') := by
  refine (intact.grounded.onward wf.toIsTree takes).imp id fun ⟨grounded,arrives⟩ =>
    ⟨⟨grounded, move_placed wf intact.placed takes.move, ?_⟩, arrives⟩
  obtain ⟨rfl,_,_⟩ := intact.grounded
  cases arrives with
  | taken taken =>
    intro s hs
    rcases (taken.configuration s).mp hs with remains | entered
    · exact intact.ordinary s remains.1
    · exact wf.entrySet_ordinary _ _ s entered
  | left left =>
    rw [left.configuration]
    exact fun s none => by cases none

theorem Intact.run (intact : m.Intact c) (wf : c.WellFormed) (run : Run m n) :
    n.control = .crashed ∨ n.Intact c := by
  refine @Run.invariant (fun m => m.control = .crashed ∨ m.Intact c) _ _ run (Or.inr intact) ?_
  intro a b before move
  obtain ⟨transitions,takes⟩ := move.takes
  rcases before with crashed | intact
  · exact Or.inl (takes_crashed takes crashed)
  · exact (intact.onward wf takes).imp id And.left

theorem run_crashed (run : Run m n) (crashed : m.control = .crashed) : n.control = .crashed := by
  refine @Run.invariant (fun m => m.control = .crashed) _ _ run crashed fun crashed move => ?_
  obtain ⟨transitions,takes⟩ := move.takes
  exact takes_crashed takes crashed

theorem create_intact {library : ActionLibrary} {source : Source.ChartDef}
    (accepted : Chart.compile library source = .ok c) (options : Options) (memory : Memory) :
    (create c options memory).start.Intact c where
  grounded := create_grounded accepted options memory
  placed := (Unstarted.placed (.created c options memory)).of_places rfl
  ordinary := fun s none => by cases none

/-- Active atomic states have prompted what has been selected. -/
theorem Chosen.prompted (chosen : m.Chosen transitions) (wf : m.chart.WellFormed) :
    ∀ t ∈ transitions, m.chart.Prompted m.context.configuration t := by
  obtain ⟨n,same,enabled,rfl,offered⟩ := chosen
  intro t ht
  obtain ⟨chart,configuration,history,_⟩ := ground_eq same
  rw [chart] at offered
  obtain ⟨y,hy,atomic,offer⟩ := offered t (Chart.removeConflicts_subset ht)
  obtain ⟨a,within,listed⟩ := Chart.mem_candidates offer
  rw [configuration] at hy
  exact ⟨y, hy, atomic, wf.own_source a t listed ▸ within⟩

theorem takes_prompted (wf : m.chart.WellFormed) (takes : Takes m transitions m') :
    transitions.length ≤ 1 ∨ ∀ t ∈ transitions, m.chart.Prompted m.context.configuration t :=
  (takes_chosen takes).imp id fun chosen => chosen.prompted wf

/-- In a legal configuration a state is active that a microstep leaves and that has a history state.
    When nothing in it is active any more and its record stands, and a transition from outside leads to
    that history state alone, what was active in it is active again: all of it if the history state is
    deep, and else its children, each with what it enters on its own. The history states that the
    other transitions of that microstep name are to lie in their domains. -/
theorem history_restores {library : ActionLibrary} {source : Source.ChartDef}
    (accepted : Chart.compile library source = .ok c)
    (regions : ∀ s, c.isParallel s = true → c.childStates s ≠ []) {m m₁ n n' : Machine}
    {leaving returning : List TransitionIndex} {P h t : StateIndex} (intact : m.Intact c)
    (legal : c.Legal m.context.configuration) (leave : Takes m leaving m₁)
    (left : P ∈ c.exitSet m.context.history m.context.configuration leaving)
    (past : h ∈ c.historyChildren P) (later : Run m₁ n)
    (stands : n.context.history.lookup h = m₁.context.history.lookup h)
    (inactive : ∀ x ∈ n.context.configuration, ¬ c.Within x P) (back : Takes n returning n')
    (member : t ∈ returning) (only : (c.transition t).targets = [h])
    (outside : ¬ c.Within (c.transition t).source P)
    (contained : c.Contained n.context.history (returning.filter (· ≠ t)))
    (going : n'.control ≠ .crashed) :
    c.Restored n'.context.history P h m.context.configuration n'.context.configuration := by
  have wf := Chart.compile_wellFormed accepted
  have goingₙ : n.control ≠ .crashed := fun crashed => going (takes_crashed back crashed)
  have going₁ : m₁.control ≠ .crashed := fun crashed => goingₙ (run_crashed later crashed)
  obtain ⟨intact₁,arrives₁⟩ := (intact.onward wf leave).resolve_left going₁
  have intactₙ := (intact₁.run wf later).resolve_left goingₙ
  obtain ⟨_,arrives⟩ := (intactₙ.onward wf back).resolve_left going
  have remembering : c.Remembering m.context.configuration P h :=
    { legal, past
      leafed := legal.leafed wf.toIsTree intact.ordinary regions
      once := intact.placed.context.configuration.imp Nat.ne_of_lt
      active := (Chart.mem_exitSet_iff.mp left).1 }
  have proper : c.Below P Chart.root := by
    obtain ⟨_,_,_,d,found,below⟩ := Chart.mem_exitSet_iff.mp left
    exact wf.below_of_below_within below (wf.domain?_declared found)
  -- The record was made when `P` was left.
  have record : n.context.history.lookup h =
      some (c.recordFor m.context.configuration P h) := by
    refine stands.trans ?_
    obtain ⟨rfl,_,_⟩ := intact.grounded
    cases arrives₁ with
    | taken taken =>
      rw [taken.history]
      exact wf.lookup_recordAll_left left past
    | left => cases (Chart.mem_exitSet_iff.mp left).2.choose_spec.1
  obtain ⟨rfl,_,inward⟩ := intactₙ.grounded
  cases arrives with
  | left => cases member
  | taken taken =>
    rw [taken.history]
    exact remembering.restores wf inward proper record
      { member, only, outside, inactive, contained
        active := intactₙ.placed.context.active
        unmixed := takes_unmixed back
        prompted := takes_prompted wf back }
      taken.configuration

end Machine

namespace MachineM

open Machine

variable {α : Type} {m k n : Machine}

def given? (part : MachineM α) (m : Machine) : Option α :=
  match part m with
  | .ok a _ => some a
  | .error _ _ => none

def after (part : MachineM α) (m : Machine) : Machine :=
  match part m with
  | .ok _ n => n
  | .error _ n => n

theorem ok_of_given {part : MachineM α} {a : α} (given : part.given? m = some a) :
    part m = .ok a (part.after m) := by
  unfold given? at given
  unfold after
  cases run : part m with
  | ok b n =>
    rw [run] at given
    cases given
    rfl
  | error i n =>
    rw [run] at given
    cases given

/-- A waiting machine takes what it finds on an event, cleared of conflicts, if this stands in document
    order. -/
theorem take_ordered {e : Event} {enabled : List TransitionIndex} (waiting : m.control = .waiting)
    (announced : announce e { m with steps := 0 } = .ok () k)
    (found : collectEnabled (some e.name) (k.context.configuration.filter k.chart.isAtomic) [] k =
      .ok enabled n)
    (followed : enabled.all (k.chart.isFollowed k.context.history) = true)
    (ordered : enabled.Pairwise fun t u =>
      (k.chart.transition t).document ≤ (k.chart.transition u).document) :
    let taken := enabled.foldl (k.chart.settle fun t =>
      k.chart.exitSet k.context.history k.context.configuration [t]) []
    m.aheadOn (.event e) = taken ∧ m.take (.event e) = n.proceed (respond taken) := by
  intro taken
  have received : receive e m = .ok taken n := by
    rw [receive_eq, bind_of_ok _ announced, selectTransitions_of_collect found, if_pos followed,
      Chart.removeConflicts_ordered ordered]
  refine ⟨by simp [aheadOn, waiting, received], ?_⟩
  rw [take_waiting waiting, takeInput, proceed, proceed, process_eq, bind_of_ok _ received]

end MachineM

namespace TwoReturns

open Source

def going (event target : String) : TransitionDef := ⟨some [event], none, some [target], .external, []⟩

def past (name target : String) (type : HistoryType) : StateDef :=
  .mk { StateInfo.simple name .history [⟨none, none, some [target], .external, []⟩] with
    history := some type } []

/-- A parallel state with two regions. In one of them a state with a shallow and a deep history state can
    be left and come back to, and from the other one a history state around both can be reached on
    the same event. -/
def source : ChartDef where
  name := none
  initial := none
  data := []
  extra := none
  states :=
    [.mk { StateInfo.simple "w" .state [] with initial := some ["q"] }
      [past "g" "a2" .shallow,
        .mk (.simple "q" .parallel [])
          [.mk (.simple "a" .state [])
              [.mk (.simple "a1" .state [going "calm" "a2", going "back" "g"]) [],
                .mk (.simple "a2" .state []) []],
            .mk (.simple "b" .state [])
              [.mk (.simple "p" .state [])
                [past "h" "p1" .shallow, past "d" "p1" .deep,
                  .mk (.simple "p1" .state [going "next" "p22"]) [],
                  .mk (.simple "p2" .state [going "off" "x"])
                    [.mk (.simple "p21" .state []) [], .mk (.simple "p22" .state []) []]],
                .mk (.simple "x" .state [going "back" "h", going "deep" "d"]) []]]]]

def chart : Chart := Chart.compiled [] source

def machine : Machine := (Machine.create chart { sessionId := "s" } default).start

def event (name : String) : Event := { name := ⟨[name]⟩, type := .external }

def sending (m : Machine) (name : String) : Machine := m.take (.event (event name))

/-- The second child of `p` is active, and its second child. -/
def inside : Machine := Machine.step^[3] (sending (Machine.step^[4] machine) "next")

/-- `p` has been left. -/
def outside : Machine := Machine.step^[3] (sending inside "off")

/-- The other region does not listen to the event any more. -/
def calm : Machine := Machine.step^[3] (sending outside "calm")

/-- The chart is accepted, and the machine comes to wait inside of `p` and outside of it, with the other
    region listening and not. -/
theorem ready : Chart.compile [] source = .ok chart ∧ Machine.Run machine inside ∧
    Machine.Run (sending inside "off") outside ∧ Machine.Run (sending inside "off") calm := by
  obtain ⟨compiled,started,next,off,quiet⟩ : (Chart.compile [] source).isOk = true ∧
      (∀ i < 4, (Machine.step^[i] machine).isBlocked = false) ∧
      (∀ i < 3, (Machine.step^[i] (sending (Machine.step^[4] machine) "next")).isBlocked = false) ∧
      (∀ i < 3, (Machine.step^[i] (sending inside "off")).isBlocked = false) ∧
      ∀ i < 3, (Machine.step^[i] (sending outside "calm")).isBlocked = false := by decide +kernel
  have gone : Machine.Run (sending inside "off") outside := .iterate (.refl _) 3 off
  exact ⟨Chart.compile_eq_compiled compiled,
    ((Machine.Run.iterate (.refl _) 4 started).next (.take _ _)).iterate 3 next, gone,
    (gone.next (.take _ _)).iterate 3 quiet⟩

/-- `p` is left, and these are its history states and the transitions to them. -/
theorem leaves : (chart.Legal inside.context.configuration ∧
      Machine.Takes inside [7] (sending inside "off") ∧
      8 ∈ chart.exitSet inside.context.history inside.context.configuration [7]) ∧
    chart.historyChildren 8 = [9, 10] ∧
    ((chart.transition 10).targets = [9] ∧ ¬ chart.Within (chart.transition 10).source 8) ∧
    (chart.transition 11).targets = [10] ∧ ¬ chart.Within (chart.transition 11).source 8 := by
  obtain ⟨⟨legal,ahead,left⟩,ways⟩ : (chart.Legal inside.context.configuration ∧
        inside.aheadOn (.event (event "off")) = [7] ∧
        8 ∈ chart.exitSet inside.context.history inside.context.configuration [7]) ∧
      chart.historyChildren 8 = [9, 10] ∧
      ((chart.transition 10).targets = [9] ∧ ¬ chart.Within (chart.transition 10).source 8) ∧
      (chart.transition 11).targets = [10] ∧ ¬ chart.Within (chart.transition 11).source 8 := by
    decide +kernel
  exact ⟨⟨legal, ahead ▸ .take _ _, left⟩, ways⟩

/-- Coming back alone through the shallow history state restores the second child of `p`, which enters
    its first one; through the deep history state it restores all. -/
theorem back_restored :
    chart.Restored (sending calm "back").context.history 8 9 inside.context.configuration
      (sending calm "back").context.configuration ∧
    chart.Restored (sending calm "deep").context.history 8 10 inside.context.configuration
      (sending calm "deep").context.configuration ∧
    inside.context.configuration = [1, 3, 4, 5, 7, 8, 12, 14] ∧
    (sending calm "back").context.configuration = [1, 3, 4, 6, 7, 8, 12, 13] ∧
    (sending calm "deep").context.configuration = [1, 3, 4, 6, 7, 8, 12, 14] := by
  obtain ⟨accepted,run,-,run'⟩ := ready
  obtain ⟨⟨legal,leave,left⟩,children,shallow,deep⟩ := leaves
  have peopled : chart.Peopled := Chart.peopled_of_check (by decide +kernel)
  obtain ⟨⟨inactive,stands,stands'⟩,⟨back,back'⟩,⟨alive,going,going'⟩,configurations⟩ :
      ((∀ x ∈ calm.context.configuration, ¬ chart.Within x 8) ∧
        calm.context.history.lookup 9 = (sending inside "off").context.history.lookup 9 ∧
        calm.context.history.lookup 10 = (sending inside "off").context.history.lookup 10) ∧
      (calm.aheadOn (.event (event "back")) = [10] ∧
        calm.aheadOn (.event (event "deep")) = [11]) ∧
      (inside.isOver = false ∧ (sending calm "back").isOver = false ∧
        (sending calm "deep").isOver = false) ∧
      inside.context.configuration = [1, 3, 4, 5, 7, 8, 12, 14] ∧
      (sending calm "back").context.configuration = [1, 3, 4, 6, 7, 8, 12, 13] ∧
      (sending calm "deep").context.configuration = [1, 3, 4, 6, 7, 8, 12, 14] := by decide +kernel
  have intact := ((Machine.create_intact accepted { sessionId := "s" } default).run
    (Chart.compile_wellFormed accepted) run).resolve_left (Machine.not_crashed alive)
  -- Nothing else is taken on either event.
  have alone : ∀ t, chart.Contained calm.context.history ([t].filter (· ≠ t)) := by
    intro t
    simp [Chart.Contained]
  refine ⟨?_, ?_, configurations⟩
  · exact Machine.history_restores accepted peopled.regions intact legal leave left
      (children ▸ (by decide)) run' stands inactive (back ▸ .take _ _)
      (List.mem_singleton_self 10) shallow.1 shallow.2 (alone 10) (Machine.not_crashed going)
  · exact Machine.history_restores accepted peopled.regions intact legal leave left
      (children ▸ (by decide)) run' stands' inactive (back' ▸ .take _ _)
      (List.mem_singleton_self 11) deep.1 deep.2 (alone 11) (Machine.not_crashed going')

/-- The machine once the event has been announced, and once transitions have been looked for. -/
def told : Machine := (MachineM.announce (event "back")).after { outside with steps := 0 }

def looked : Machine := (MachineM.collectEnabled (some (event "back").name) [5, 15] []).after told

theorem outside_back : outside.aheadOn (.event (event "back")) = [2, 10] ∧
    sending outside "back" = looked.proceed (MachineM.respond [2, 10]) := by
  have waiting : outside.control = .waiting := Machine.control_of_waiting (by decide +kernel)
  obtain ⟨given,atomic,given',followed,ordered,kept⟩ :
      (MachineM.announce (event "back")).given? { outside with steps := 0 } = some () ∧
      told.context.configuration.filter told.chart.isAtomic = [5, 15] ∧
      (MachineM.collectEnabled (some (event "back").name) [5, 15] []).given? told = some [2, 10] ∧
      [2, 10].all (told.chart.isFollowed told.context.history) = true ∧
      [2, 10].Pairwise (fun t u =>
        (told.chart.transition t).document ≤ (told.chart.transition u).document) ∧
      [2, 10].foldl (told.chart.settle fun t =>
        told.chart.exitSet told.context.history told.context.configuration [t]) [] =
          [2, 10] := by decide +kernel
  have announced : MachineM.announce (event "back") { outside with steps := 0 } = .ok () told :=
    MachineM.ok_of_given given
  have found : MachineM.collectEnabled (some (event "back").name) [5, 15] [] told =
      .ok [2, 10] looked := MachineM.ok_of_given given'
  have taken := MachineM.take_ordered (m := outside) (e := event "back") waiting announced
    (atomic ▸ found) followed ordered
  rw [kept] at taken
  exact taken

/-- Together with a transition to the history state around both regions, the second child of `p` is
    restored, and the first one is entered by default. -/
theorem back_enters_both : Machine.Run machine inside ∧
    chart.Legal inside.context.configuration ∧
    Machine.Takes inside [7] (sending inside "off") ∧
    8 ∈ chart.exitSet inside.context.history inside.context.configuration [7] ∧
    Machine.Run (sending inside "off") outside ∧
    outside.context.history.lookup 9 = (sending inside "off").context.history.lookup 9 ∧
    (∀ x ∈ outside.context.configuration, ¬ chart.Within x 8) ∧
    Machine.Takes outside [2, 10] (sending outside "back") ∧
    (chart.transition 10).targets = [9] ∧ ¬ chart.Within (chart.transition 10).source 8 ∧
    (sending outside "back").isOver = false ∧
    (sending outside "back").context.configuration = [1, 3, 4, 6, 7, 8, 11, 12, 13] ∧
    ¬ chart.Restored (sending outside "back").context.history 8 9 inside.context.configuration
      (sending outside "back").context.configuration := by
  obtain ⟨ahead,taken⟩ := outside_back
  obtain ⟨-,run,run',-⟩ := ready
  obtain ⟨⟨legal,leave,left⟩,-,⟨only,apart⟩,-⟩ := leaves
  obtain ⟨stands,inactive,shallow,child,never⟩ :
      outside.context.history.lookup 9 = (sending inside "off").context.history.lookup 9 ∧
      (∀ x ∈ outside.context.configuration, ¬ chart.Within x 8) ∧
      (chart.state 9).kind ≠ .history .deep ∧ (chart.state 11).parent = some 8 ∧
      11 ∉ inside.context.configuration := by decide +kernel
  obtain ⟨going,configuration⟩ : (sending outside "back").isOver = false ∧
      (sending outside "back").context.configuration = [1, 3, 4, 6, 7, 8, 11, 12, 13] := by
    rw [taken]
    decide +kernel
  refine ⟨run, legal, leave, left, run', stands, inactive, ahead ▸ .take _ _, only, apart, going,
    configuration, fun restored => ?_⟩
  have same := restored.children shallow 11 child
  rw [configuration] at same
  exact never (same.mp (by decide))

end TwoReturns

end Statechart

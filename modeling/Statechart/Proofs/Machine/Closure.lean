import Statechart.Proofs.Machine.Legality
import Statechart.Proofs.Machine.Taking

/- Whether the parents of the active states of a machine are active, from the initial entry on.

   A machine without active states is where all runs start, and completing leads back there. In
   between, each microstep keeps the parents active exactly if what it takes is anchored. -/
namespace Statechart

namespace Machine

variable {c : Chart} {m m' : Machine} {transitions : List TransitionIndex}

/-- What entering hangs on is active once the machine has taken the transitions. -/
def Anchored (m : Machine) (transitions : List TransitionIndex) : Prop :=
  m.chart.Anchored m.context.history m.context.configuration transitions

instance (m : Machine) (transitions : List TransitionIndex) : Decidable (m.Anchored transitions) :=
  inferInstanceAs (Decidable (Chart.Anchored ..))

def Moored (m : Machine) (transitions : List TransitionIndex) : Prop :=
  m.chart.Moored m.context.history m.context.configuration transitions

theorem anchored_nil (m : Machine) : m.Anchored [] := by
  intro k hk
  cases hk

/-- Where a move leads from a configuration whose states have active parents. -/
theorem arrives_closed (grounded : m.Grounded c) (tree : c.IsTree)
    (closed : c.Closed m.context.configuration) (arrives : Arrives m transitions m') :
    c.Closed m'.context.configuration ↔ m.Anchored transitions := by
  obtain ⟨rfl,_,_⟩ := grounded
  cases arrives with
  | taken taken => exact tree.closed_iff_anchored closed taken.configuration
  | left left =>
    rw [left.configuration]
    exact ⟨fun _ => m.anchored_nil, fun _ _ none => by cases none⟩

theorem not_crashed (going : m.isOver = false) : m.control ≠ .crashed := by
  intro crashed
  rw [isOver, crashed] at going
  cases going

theorem course_closed {library : ActionLibrary} {source : Source.ChartDef}
    (accepted : Chart.compile library source = .ok c) {options : Options} {memory : Memory}
    (course : Course Anchored (create c options memory).start m) :
    m.control = .crashed ∨ c.Closed m.context.configuration := by
  have tree := (Chart.compile_wellFormed accepted).toIsTree
  generalize first : (create c options memory).start = start at course
  induction course with
  | refl =>
    subst first
    exact Or.inr fun _ none => by cases none
  | next course takes anchored ih =>
    have grounded := run_grounded accepted (first ▸ course.run)
    rcases grounded with crashed | grounded
    · exact Or.inl (takes_crashed takes crashed)
    · rcases ih with crashed | closed
      · exact Or.inl (takes_crashed takes crashed)
      · refine (grounded.onward tree takes).imp id fun ⟨_,arrives⟩ => ?_
        exact (arrives_closed grounded tree closed arrives).mpr anchored

/-- Along every run that takes anchored transitions only, the parents of the active states of an
    accepted chart are active. The next move keeps them so exactly if it is anchored as well, and it
    is if no domain has been left and the history states that are named lie in the domains. -/
theorem parents_stay_active {library : ActionLibrary} {source : Source.ChartDef}
    (accepted : Chart.compile library source = .ok c) {options : Options} {memory : Memory}
    (course : Course Anchored (create c options memory).start m) (going : m.control ≠ .crashed) :
    c.Closed m.context.configuration ∧
      ∀ transitions m', Takes m transitions m' → m'.control ≠ .crashed →
        (c.Closed m'.context.configuration ↔ m.Anchored transitions) ∧
          (m.Moored transitions → m.Anchored transitions) := by
  have tree := (Chart.compile_wellFormed accepted).toIsTree
  have grounded := (run_grounded accepted course.run).resolve_left going
  have closed := (course_closed accepted course).resolve_left going
  refine ⟨closed, fun transitions m' takes going' => ⟨?_, ?_⟩⟩
  · obtain ⟨_,arrives⟩ := (grounded.onward tree takes).resolve_left going'
    exact arrives_closed grounded tree closed arrives
  · intro moored
    obtain ⟨rfl,_,inward⟩ := grounded
    exact moored.anchored tree inward

end Machine

namespace DeepReturn

open Source

/-- A parallel state with a deep history state. It can be left and come back to, and from inside one
    can go to the history state at once. -/
def source : ChartDef where
  name := none
  initial := none
  data := []
  extra := none
  states :=
    [.mk (.simple "p" .parallel [⟨some ["out"], none, some ["q"], .external, []⟩])
      [.mk { StateInfo.simple "h" .history [⟨none, none, some ["r"], .external, []⟩] with
          history := some .deep } [],
        .mk (.simple "r" .state [])
          [.mk (.simple "x" .state [⟨some ["go"], none, some ["h"], .external, []⟩]) []]],
      .mk (.simple "q" .state [⟨some ["back"], none, some ["h"], .external, []⟩]) []]

def chart : Chart := Chart.compiled [] source

def machine : Machine := (Machine.create chart { sessionId := "s" } default).start

def sending (m : Machine) (name : String) : Machine :=
  m.take (.event { name := ⟨[name]⟩, type := .external })

def waiting : Machine := machine.step.step.step.step

def outside : Machine := (sending waiting "out").step.step.step

theorem courses : Machine.Course Machine.Anchored machine waiting ∧
    Machine.Course Machine.Anchored machine outside := by
  have started : Machine.Course Machine.Anchored machine (Machine.step^[4] machine) :=
    .iterate (.refl _) 4 (by decide +kernel)
  simp only [Function.iterate_succ_apply, Function.iterate_zero_apply] at started
  have left : Machine.Course Machine.Anchored machine (sending waiting "out") :=
    started.next (.take _ _) (by decide +kernel)
  have gone := left.iterate 3 (by decide +kernel)
  simp only [Function.iterate_succ_apply, Function.iterate_zero_apply] at gone
  exact ⟨started, gone⟩

theorem returned_closed : (sending outside "back").context.configuration = [1, 3, 4] ∧
    chart.Closed (sending outside "back").context.configuration := by
  have closing := Machine.parents_stay_active (Chart.compile_eq_compiled (by decide +kernel))
    courses.2 (Machine.not_crashed (by decide +kernel))
  have ahead : outside.aheadOn (.event { name := ⟨["back"]⟩, type := .external }) = [4] := by
    decide +kernel
  have moving := closing.2 [4] (sending outside "back") (ahead ▸ .take _ _)
    (Machine.not_crashed (by decide +kernel))
  exact ⟨by decide +kernel, moving.1.mpr (by decide +kernel)⟩

/-- From inside, the history state is no longer what it was when the domain was found: the parallel
    state is left and not entered again. -/
theorem parent_lost : Machine.Run machine (sending waiting "go") ∧
    (sending waiting "go").isOver = false ∧
    (sending waiting "go").context.configuration = [3, 4] ∧
    ¬ chart.Closed (sending waiting "go").context.configuration :=
  ⟨courses.1.run.next (.take _ _), by decide +kernel, by decide +kernel, by decide +kernel⟩

end DeepReturn

end Statechart

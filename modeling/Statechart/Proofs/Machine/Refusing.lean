import Statechart.Proofs.Machine.Stability

/- Actions that fail. What an action puts into the queue or on the list of effects it puts there last,
   and what it evaluates before makes new containers only, so an action that fails leaves no trace.
   There is one exception: a send writes its id before it is known that it can go out. -/
namespace Statechart

/-- The actions that do one thing and hold no others. -/
def Action.IsSingle : Action → Prop
  | .raise _ | .send _ | .cancel _ _ | .log _ _ | .assign _ _ => True
  | .branch _ | .forEach _ _ _ _ | .custom _ _ => False

namespace Machine

/-- All of a machine but its memory. -/
def beside (m : Machine) : Machine := { m with memory := default }

/-- Nothing has been done but to evaluate: containers have been added and ids made up. -/
structure Evaluates (m m' : Machine) : Prop where
  beside : m'.beside = m.beside
  heap : m.heap.Extends m'.heap

end Machine

namespace MachineM

variable {α : Type} {F : Interrupt → Machine → Prop} {m n : Machine}
  {h₀ : Heap}

instance : Writing (fun m m' : Machine => m'.beside = m.beside) where
  withHeap _ _ := rfl
  freshId _ := rfl

instance : Allocating Machine.Evaluates where
  refl _ := ⟨rfl, .refl _⟩
  trans first second := ⟨second.beside.trans first.beside, first.heap.trans second.heap⟩
  grows _ _ more := ⟨rfl, more⟩
  freshId _ := ⟨rfl, .refl _⟩

section Evaluating

theorem payload_spares (content : Option Expr) (params : List Param) :
    Keeps (Spares h₀) onlyFailure (payload content params) := by
  unfold payload
  split
  · exact evaluate_frames _
  · split
    · exact Keeps.pure _
    · exact paramsObject_spares _

/-- The object of the parameters is new, so filling it is no more than evaluating. -/
theorem payload_evaluates (content : Option Expr) (params : List Param) (m : Machine) :
    KeepsAt Machine.Evaluates onlyFailure (payload content params) m := by
  have besides : KeepsAt (fun m m' : Machine => m'.beside = m.beside) onlyFailure
      (payload content params) m := payload_frames content params m
  have spared : KeepsAt (Spares m.heap) onlyFailure (payload content params) m :=
    payload_spares content params m
  unfold KeepsAt at besides spared ⊢
  cases run : payload content params m with
  | ok v m' =>
    rw [run] at besides spared
    exact ⟨besides, spared (.refl _)⟩
  | error i m' =>
    rw [run] at besides spared
    exact ⟨⟨besides.1, spared.1 (.refl _)⟩, spared.2⟩

/-- A part that does no more than evaluate, after others that have not either. -/
theorem evaluating {x : MachineM α} (before : m.Evaluates n)
    (kept : KeepsAt Machine.Evaluates onlyFailure x n) :
    Leads x n (fun _ n' => m.Evaluates n') fun i n' => m.Evaluates n' ∨ F i n' := by
  unfold KeepsAt at kept
  unfold Leads
  cases run : x n with
  | ok a n' =>
    rw [run] at kept
    exact Lasting.trans before kept
  | error i n' =>
    rw [run] at kept
    exact Or.inl (Lasting.trans before kept.1)

/-- An assignment that is refused has done nothing. -/
theorem assign_leads (location : List String) (v : Value) (m : Machine) :
    Leads (assign location v) m (fun _ m' => m'.beside = m.beside ∧
      m.heap.setPath m.context.dataModel location v = .ok m'.heap) fun _ m' => m' = m := by
  unfold Leads assign
  cases location with
  | nil => rfl
  | cons head rest =>
    simp only
    cases m.heap.contains m.context.dataModel head with
    | false => rfl
    | true =>
      simp only [Bool.not_true, Bool.false_eq_true, if_false]
      cases m.heap.setPath m.context.dataModel (head :: rest) v with
      | ok h => exact ⟨rfl, rfl⟩
      | error e => rfl

end Evaluating

/-- The send leads back into the machine's own queue and is to be delayed, so it is refused; but a
    place is named for its id, and there the id has been written before. -/
structure NamedInVain (s : SendAction) (m : Machine) (i : Interrupt) (m' : Machine) : Prop where
  refusal : i = .failure (.execution "delayed send to #_internal is not supported")
  internal : ∃ n n', m.Evaluates n ∧
    textOf "targetexpr" s.target s.targetExpr n = .ok (some internalTarget) n'
  delayed : ∃ n n' delay, m.Evaluates n ∧ sendDelay s n = .ok delay n' ∧ delay ≠ 0
  beside : m'.beside = m.beside
  written : ∃ location id h, s.idLocation = some location ∧ m.heap.Extends h ∧
    h.setPath m.context.dataModel location (.string id) = .ok m'.heap

/-- A send that fails has done no more than evaluate, unless its id was written in vain. -/
theorem send_leads (s : SendAction) (m : Machine) :
    Leads (send s) m (fun _ _ => True) fun i m' => m.Evaluates m' ∨ NamedInVain s m i m' := by
  unfold send
  refine (evaluating (Lasting.refl m) (sendName_frames s m)).bind fun name m₁ _ named => ?_
  refine (evaluating named (textOf_frames _ _ _ m₁)).bind fun target m₂ aimed targeted => ?_
  refine (evaluating targeted (sendDelay_frames s m₂)).bind fun delay m₃ timed delayed => ?_
  refine (evaluating delayed (payload_evaluates _ _ m₃)).bind fun data m₄ _ composed => ?_
  refine (evaluating composed (sendIdOf_frames s delay m₄)).bind fun sendId m₅ _ before => ?_
  -- All that can fail now is the assignment, and after it the check that comes too late.
  have leaving (n : Machine) (allowed : target = some internalTarget → delay ≠ 0 →
      m.Evaluates n ∨ NamedInVain s m
        (.failure (.execution "delayed send to #_internal is not supported")) n) :
      Leads (if target = some internalTarget then
          if delay ≠ 0 then fail (.execution "delayed send to #_internal is not supported")
          else update fun m => m.enqueue { name, type := .internal, sendId, data }
        else update fun m => m.emit (.send { name, sendId, target, type := s.type, delay, data }))
        n (fun _ _ => True) fun i m' => m.Evaluates m' ∨ NamedInVain s m i m' := by
    by_cases own : target = some internalTarget
    · by_cases late : delay ≠ 0
      · rw [if_pos own, if_pos late]
        exact allowed own late
      · rw [if_pos own, if_neg late]
        trivial
    · rw [if_neg own]
      trivial
  simp only
  split
  · rename_i location id place _
    have wrote : Leads (assign location (.string id)) m₅ _ fun i m' =>
        m.Evaluates m' ∨ NamedInVain s m i m' :=
      (assign_leads location (.string id) m₅).mono (fun _ _ _ done => done)
        fun _ _ same => Or.inl (same ▸ before)
    refine wrote.bind fun _ m₆ _ done => leaving m₆ fun own late => Or.inr ?_
    have seen : m₅.beside.context = m.beside.context := congrArg Machine.context before.beside
    have root : m₅.context.dataModel = m.context.dataModel := congrArg Context.dataModel seen
    exact ⟨rfl, ⟨m₁, m₂, named, own ▸ aimed⟩, ⟨m₂, m₃, delay, targeted, timed, late⟩,
      done.1.trans before.beside, location, id, m₅.heap, place, before.heap, root ▸ done.2⟩
  · exact leaving m₅ fun _ _ => Or.inl before

theorem write_leads (label : Option String) (v : Value) (before : m.Evaluates n) :
    Leads (do
      let m ← get
      match m.options.logger.logFault label with
      | some source => fail (m.platformFailure source)
      | none => set (m.tell (.log label (m.heap.display v)))) n (fun _ _ => True)
      fun i m' => m.Evaluates m' ∨ F i m' := by
  refine (evaluating before (Keeps.get n)).bind fun seen n' _ still => ?_
  split
  · exact Or.inl still
  · trivial

theorem log_leads (label : Option String) (e : Option Expr) (m : Machine) :
    Leads (log label e) m (fun _ _ => True) fun i m' => m.Evaluates m' ∨ F i m' := by
  unfold log
  cases e with
  | some e =>
    exact (evaluating (Lasting.refl m) (evaluate_frames e m)).bind fun v _ _ => write_leads label v
  | none => exact write_leads label .undefined (Lasting.refl m)

/-- An action that fails leaves the queue, the effects and every container as they were, unless it is
    a send whose id was written in vain. -/
theorem execute_leads {a : Action} (single : a.IsSingle) (m : Machine) :
    Leads (execute a) m (fun _ _ => True) fun i m' =>
      m.Evaluates m' ∨ ∃ s, a = .send s ∧ NamedInVain s m i m' := by
  cases a with
  | raise event =>
    rw [execute]
    trivial
  | send s =>
    rw [execute]
    exact (send_leads s m).mono (fun _ _ _ => id) fun _ _ => Or.imp_right fun vain => ⟨s, rfl, vain⟩
  | cancel id e =>
    rw [execute, cancel]
    refine (evaluating (Lasting.refl m) (textOf_frames _ _ _ m)).bind fun text n _ evaluated => ?_
    split
    · trivial
    · exact Or.inl evaluated
  | log label e =>
    rw [execute]
    exact log_leads label e m
  | assign location e =>
    rw [execute]
    refine (evaluating (Lasting.refl m) (evaluate_frames e m)).bind fun v n _ evaluated => ?_
    exact (assign_leads location v n).mono (fun _ _ _ _ => trivial)
      fun _ _ same => Or.inl (same ▸ evaluated)
  | branch => exact single.elim
  | forEach => exact single.elim
  | custom => exact single.elim

/-- An action that fails changes nothing: the queue and the effects are as they were, and so is every
    container that there was. The one exception is a send that leads back into the machine's own
    queue and is to be delayed: where a place is named for its id, the id is written there before the
    send is refused, and that is all that is changed. -/
theorem failing_action_undone_unless_named {a : Action} (single : a.IsSingle) {m m' : Machine}
    {i : Interrupt} (failed : execute a m = .error i m') :
    m'.context = m.context ∧ m'.effects = m.effects ∧
      (m.heap.Extends m'.heap ∨ ∃ s, a = .send s ∧ NamedInVain s m i m') := by
  have leads := execute_leads single m
  unfold Leads at leads
  rw [failed] at leads
  have beside : m'.beside = m.beside := by
    rcases leads with evaluated | ⟨_,_,vain⟩
    · exact evaluated.beside
    · exact vain.beside
  have context : m'.beside.context = m.beside.context := congrArg Machine.context beside
  have effects : m'.beside.effects = m.beside.effects := congrArg Machine.effects beside
  exact ⟨context, effects, leads.imp_left Machine.Evaluates.heap⟩

namespace LateRefusal

open Machine Source

/-- A tick for the machine itself, in a while, with a place for the id. -/
def tick : SendAction where
  event := some ⟨["tick"]⟩
  eventExpr := none
  target := some "#_internal"
  targetExpr := none
  type := none
  id := none
  idLocation := some ["id"]
  delay := some 1000000
  delayExpr := none
  params := []
  content := none

/-- A chart whose state sends the tick when it is entered. -/
def source : ChartDef where
  name := none
  initial := none
  data := [⟨"id", ⟨none, some (.string "none")⟩⟩]
  extra := none
  states :=
    [.mk { StateInfo.simple "a" .state [] with
        onEntry := [.send ⟨some "tick", none, some "#_internal", none, none, none, some "id",
          some (.number (.int 1)), none, [], none⟩] } []]

def chart : Chart := Chart.compiled [] source

def sends : List Action → Bool
  | [.send ⟨some ⟨["tick"]⟩, none, some "#_internal", none, none, none, some ["id"],
      some 1000000, none, [], none⟩] => true
  | _ => false

theorem eq_of_sends {actions : List Action} (seen : sends actions = true) :
    actions = [.send tick] := by
  unfold sends at seen
  split at seen
  · rfl
  · cases seen

def heap : Heap where
  cells := #[.object ⟨.constant, [], none⟩, .array ⟨.constant, [], none⟩,
    .object ⟨.writable, [("id", ⟨.string "none", false⟩)], none⟩]

def machine : Machine where
  chart := chart
  options := { sessionId := "s" }
  memory := ⟨heap, 0⟩
  context := { dataModel := 2, configuration := [0, 1], statesToInvoke := [0, 1] }

/-- An assignment to a place that nobody has declared is undone, and so is a tick whose id has no place
    to go to. -/
theorem refusals_undone :
    (∃ i m', execute (.assign ["nowhere"] (.path ["id"])) machine = .error i m' ∧
      m'.context = machine.context ∧ machine.heap.Extends m'.heap) ∧
    ∃ i m', execute (.send { tick with idLocation := none }) machine =
      .error i m' ∧ m'.effects = machine.effects ∧ machine.heap.Extends m'.heap := by
  refine ⟨⟨_, _, rfl, ?_⟩, _, _, rfl, ?_⟩
  · obtain ⟨context,_,heap | ⟨_,other,_⟩⟩ := failing_action_undone_unless_named
      (a := .assign ["nowhere"] (.path ["id"])) (m := machine) trivial rfl
    · exact ⟨context, heap⟩
    · cases other
  · obtain ⟨_,effects,heap | ⟨_,same,vain⟩⟩ := failing_action_undone_unless_named
      (a := .send { tick with idLocation := none }) (m := machine)
      trivial rfl
    · exact ⟨effects, heap⟩
    · obtain ⟨_,_,_,place,_⟩ := vain.written
      cases same
      cases place

/-- The tick is refused, but its id stands in the data. -/
theorem refused_tick_named : Chart.compile [] source = .ok machine.chart ∧
    (machine.chart.state 1).onEntry = [.send tick] ∧
    ∃ m', execute (.send tick) machine =
        .error (.failure (.execution "delayed send to #_internal is not supported")) m' ∧
      (machine.heap.get 2 "id").same (.string "none") = true ∧
      (m'.heap.get 2 "id").same (.string "none") = false :=
  ⟨Chart.compile_eq_compiled (by decide +kernel), eq_of_sends (by decide +kernel), _, rfl,
    by decide, by decide⟩

end LateRefusal

end MachineM

end Statechart

import Statechart.Proofs.Chart.Compiled
import Statechart.Proofs.Machine.Mirror
import Statechart.Proofs.Machine.Orderly
import Statechart.Proofs.Value.Writing

/- Waiting and stability. A machine looks for transitions, finds none, starts its services and
   waits. It does not look again, so what is written between the look and the wait is not seen: a
   service's id can be, where the chart names a place for it. Unless something is written the
   configuration is still stable when the machine waits. -/
namespace Statechart

namespace MachineM

open Machine

variable {P : Interrupt → Prop} {m m' : Machine} {h₀ : Heap}

/-- The containers of a heap are left alone. -/
def Spares (h₀ : Heap) (m m' : Machine) : Prop := h₀.Extends m.heap → h₀.Extends m'.heap

instance : Growing (Spares h₀) where
  refl _ := id
  trans first second := fun grown => second (first grown)
  grows _ _ more := fun grown => grown.trans more
  freshId _ := id
  enqueue _ _ := id
  tell _ _ := id

theorem changeHeap_spares {r : Ref} (new : h₀.size ≤ r) (key : String) (v : Value) :
    Keeps (Spares h₀) onlyFailure (changeHeap fun h => h.set r key v) := by
  intro m
  unfold KeepsAt changeHeap
  simp only
  cases run : m.heap.set r key v with
  | ok h => exact fun grown => grown.set new run
  | error e => exact ⟨id, Failing.failure _⟩

theorem paramsObject_spares (params : List Param) :
    Keeps (Spares h₀) onlyFailure (paramsObject params) := by
  have filled : ∀ r : Ref, h₀.size ≤ r → Keeps (Spares h₀) onlyFailure (do
      params.forM fun p => do
        let v ← evaluate p.expr
        changeHeap fun h => h.set r p.name v
      return Value.object r) := fun r new =>
    Keeps.bind
      (Keeps.forM fun p _ => Keeps.bind (evaluate_frames p.expr) fun v => changeHeap_spares new _ v)
      fun _ => Keeps.pure _
  intro m
  by_cases grown : h₀.Extends m.heap
  · have made : Spares h₀ m (m.withHeap m.heap.newObject.1) :=
      Allocating.grows m _ (Heap.extends_alloc m.heap _)
    exact .after made rfl (filled m.heap.newObject.2 grown.size _)
  · have kept : KeepsAt (fun m m' : Machine => m'.frame = m.frame) onlyFailure _ m :=
      paramsObject_frames params m
    unfold KeepsAt at kept ⊢
    cases run : paramsObject params m with
    | ok v m' => exact fun again => absurd again grown
    | error i m' =>
      rw [run] at kept
      exact ⟨fun again => absurd again grown, kept.2⟩

/-- An invoke that has no place for its id leaves the data alone. -/
theorem prepareInvoke_spares (s : StateIndex) (node : Nat) {i : InvokeNode}
    (unnamed : i.idLocation = none) : Keeps (Spares h₀) onlyFailure (prepareInvoke s node i) := by
  refine prepareInvoke_of_values s node (fun _ _ _ => id) fun invokeId => ?_
  refine invokeValues_keeps i invokeId ?_ (paramsObject_spares i.params)
  intro location named
  rw [unnamed] at named
  cases named

end MachineM

namespace Machine

open MachineM

variable {a b m n w : Machine}

/-- A move between a look that found nothing and the wait. -/
inductive Readies : Machine → Machine → Prop where
  | prepare {m : Machine} {pending : List (StateIndex × Nat)} (control : m.control = .invoking pending) :
      Readies m m.step
  | answer {m : Machine} {data : InvokeData} {pending : List (StateIndex × Nat)}
      (control : m.control = .starts data pending) (failure : Option Failure) :
      Readies m (m.startDone failure)
  | disturb (m : Machine) (memory : Memory) (destroyed : Bool) (reports : List Report) :
      Readies m (m.disturb memory destroyed reports)

/-- A move on the way to the wait that writes nothing to the data: the invoke that is prepared names
    no place for its id, and the surroundings leave the data alone. -/
inductive Undisturbing : Machine → Machine → Prop where
  | prepare {m : Machine} {pending : List (StateIndex × Nat)} (control : m.control = .invoking pending)
      (unnamed : ∀ s node rest i, pending = (s, node) :: rest →
        (m.chart.state s).invokes[node]? = some i → i.idLocation = none) : Undisturbing m m.step
  | answer {m : Machine} {data : InvokeData} {pending : List (StateIndex × Nat)}
      (control : m.control = .starts data pending) (failure : Option Failure) :
      Undisturbing m (m.startDone failure)
  | disturb (m : Machine) (memory : Memory) (destroyed : Bool) (reports : List Report)
      (kept : m.heap.Extends memory.heap) : Undisturbing m (m.disturb memory destroyed reports)

/-- What conditions depend on, the data apart. -/
def outlook (m : Machine) : Chart × List StateIndex × Ref :=
  (m.chart, m.context.configuration, m.context.dataModel)

/-- Data and configuration are as they were. -/
structure Stays (m m' : Machine) : Prop where
  outlook : m'.outlook = m.outlook
  heap : m.heap.Extends m'.heap

instance : Growing Stays where
  refl _ := ⟨rfl, .refl _⟩
  trans first second := ⟨second.outlook.trans first.outlook, first.heap.trans second.heap⟩
  grows _ _ more := ⟨rfl, more⟩
  freshId _ := ⟨rfl, .refl _⟩
  enqueue _ _ := ⟨rfl, .refl _⟩
  tell _ _ := ⟨rfl, .refl _⟩

theorem prepareInvoke_stays (s : StateIndex) (node : Nat) {i : InvokeNode}
    (unnamed : i.idLocation = none) (m : Machine) :
    KeepsAt Stays onlyFailure (prepareInvoke s node i) m := by
  have outlined := prepareInvoke_outline s node i m
  have framed : ∀ m' : Machine, m'.outline = m.outline → m'.outlook = m.outlook := fun m' same => by
    have seen : m'.outline.outlook = m.outline.outlook := congrArg outlook same
    exact seen
  have spared : KeepsAt (Spares m.heap) onlyFailure (prepareInvoke s node i) m :=
    prepareInvoke_spares s node unnamed m
  unfold KeepsAt at outlined spared ⊢
  cases prepared : prepareInvoke s node i m with
  | ok data m' =>
    rw [prepared] at outlined spared
    exact ⟨framed m' outlined, spared (.refl _)⟩
  | error stop m' =>
    rw [prepared] at outlined spared
    exact ⟨⟨framed m' outlined.1, spared.1 (.refl _)⟩, outlined.2⟩

theorem stays_proceed {part : MachineM Control} (kept : KeepsAt Stays never part m) :
    Stays m (m.proceed part) := by
  refine proceed_leads (T := Stays m) kept.leads ?_ ?_ ?_ ?_
  · exact fun control m' _ stays => ⟨stays.outlook, stays.heap⟩
  · exact fun f m' stopped => stopped.2.elim
  · exact fun f m' stopped => stopped.2.elim
  · exact fun m' stopped => stopped.2.elim

theorem Undisturbing.stays (gentle : Undisturbing a b) : Stays a b := by
  cases gentle with
  | prepare control unnamed =>
    rw [Machine.step, control]
    refine stays_proceed (goOn_keeps (fun _ => ⟨rfl, .refl _⟩) _ a ?_)
    exact fun s node rest i first invoke =>
      prepareInvoke_stays s node (unnamed s node rest i first invoke) a
  | answer control failure =>
    rw [startDone_eq control]
    exact stays_proceed (afterStart_keeps (fun _ _ => ⟨rfl, .refl _⟩) _ _ failure a)
  | disturb memory destroyed reports kept => exact ⟨rfl, kept⟩

theorem stays_of_undisturbing (gentle : Relation.ReflTransGen Undisturbing m w) : Stays m w := by
  induction gentle with
  | refl => exact Lasting.refl m
  | tail _ last ih => exact Lasting.trans ih last.stays

/-- What a machine saw before it prepared its services: no transitions, and no internal event. -/
structure SawNothing (m₀ m w : Machine) : Prop where
  reached : Run m₀.start m
  control : m.control = .macrostep
  found : ∃ n, look m = .ok .stability n
  way : Relation.ReflTransGen Readies m.step w

/-- Preparing services, or waiting. -/
def isReady (m : Machine) : Bool :=
  match m.control with
  | .invoking _ | .starts _ _ | .waiting => true
  | _ => false

end Machine

namespace MachineM

open Machine

/-- The part does not lead to preparing services or waiting. -/
def Elsewhere (part : MachineM Control) : Prop :=
  ∀ m control n, part m = .ok control n → isReady { n with control } = false

theorem Elsewhere.bind {α : Type} {x : MachineM α} {f : α → MachineM Control}
    (later : ∀ a, Elsewhere (f a)) : Elsewhere (x >>= f) := by
  intro m control n run
  obtain ⟨a,k,_,rest⟩ := bind_eq_ok run
  exact later a k control n rest

theorem Elsewhere.pure {control : Control} (out : ∀ m : Machine, isReady { m with control } = false) :
    Elsewhere (Pure.pure control) := by
  intro m _ n run
  cases run
  exact out m

theorem Elsewhere.throw (i : Interrupt) : Elsewhere (throw i) := fun _ _ _ run => by cases run

theorem Elsewhere.proceed {part : MachineM Control} (elsewhere : Elsewhere part) (m : Machine) :
    (m.proceed part).isReady = false := by
  have leads : Leads part m (fun _ _ => True) (fun _ _ => True) := by
    unfold Leads
    split <;> trivial
  refine proceed_leads (T := fun n => n.isReady = false) leads ?_ ?_ ?_ ?_
  · exact fun control n run _ => elsewhere m control n run
  · exact fun _ _ _ => rfl
  · exact fun _ _ _ => rfl
  · exact fun _ _ => rfl

theorem complete_elsewhere : Elsewhere complete :=
  .bind fun _ => .bind fun _ => .bind fun _ => .pure fun _ => rfl

theorem destroy_elsewhere : Elsewhere destroy := .bind fun _ => .pure fun _ => rfl

theorem respond_elsewhere (enabled : List TransitionIndex) : Elsewhere (respond enabled) := by
  unfold respond
  simp only
  split
  · exact .bind fun _ => .bind fun _ => .pure fun _ => rfl
  · exact .pure fun _ => rfl

theorem pass_elsewhere (enabled : List TransitionIndex) : Elsewhere (pass enabled) := by
  refine .bind fun m => ?_
  simp only
  split
  · split
    · exact .bind fun _ => .bind fun _ => .pure fun _ => rfl
    · exact .bind fun _ => .bind fun _ => .bind fun _ => .pure fun _ => rfl
  · split
    · exact .bind fun _ => .pure fun _ => rfl
    · exact .bind fun _ => .bind fun _ => .pure fun _ => rfl

theorem start_elsewhere : Elsewhere start := by
  refine .bind fun _ => .bind fun m => ?_
  split
  · split
    · exact .bind fun _ => .pure fun _ => rfl
    · exact .pure fun _ => rfl
  · refine .bind fun _ => ?_
    split
    · exact .throw _
    · exact .bind fun _ => .bind fun _ => .pure fun _ => rfl

theorem takeInput_elsewhere (input : Input) : Elsewhere (takeInput input) := by
  cases input with
  | destroy => exact destroy_elsewhere
  | suspend =>
    refine .bind fun m => ?_
    simp only
    split
    · split
      · exact .bind fun _ => .bind fun _ => .pure fun _ => rfl
      · exact .bind fun _ => .bind fun _ => .pure fun _ => rfl
    · exact .bind fun _ => .pure fun _ => rfl
  | closed => exact .bind fun _ => .pure fun _ => rfl
  | event e =>
    rw [takeInput, process_eq]
    exact .bind respond_elsewhere

theorem afterEffects_elsewhere (next : AfterEffects) : Elsewhere (afterEffects next) := by
  cases next with
  | macrostep => exact .pure fun _ => rfl
  | exit status => exact .bind fun _ => .pure fun _ => rfl

end MachineM

namespace Machine

open MachineM

variable {m₀ m w : Machine}

/-- A macrostep that leads to preparing services has found nothing else to do. -/
theorem look_of_ready (ready : (m.proceed MachineM.macrostep).isReady = true) :
    ∃ n, look m = .ok .stability n := by
  cases looked : look m with
  | error i n =>
    have failed : Elsewhere (fun _ => .error i n : MachineM Control) := fun _ _ _ run => by cases run
    have same : m.proceed MachineM.macrostep = m.proceed (fun _ => .error i n) :=
      proceed_of_eq (macrostep_of_error looked)
    rw [same, failed.proceed m] at ready
    cases ready
  | ok found n =>
    have same : m.proceed MachineM.macrostep = n.proceed (act found) :=
      proceed_of_eq (macrostep_of_look looked)
    rw [same] at ready
    cases found with
    | stability => exact ⟨n, rfl⟩
    | completion =>
      rw [act, complete_elsewhere.proceed n] at ready
      cases ready
    | destruction =>
      rw [act, destroy_elsewhere.proceed n] at ready
      cases ready
    | transitions event enabled =>
      rw [act, (pass_elsewhere enabled).proceed n] at ready
      cases ready

theorem isReady_of_invoking {pending : List (StateIndex × Nat)} (control : m.control = .invoking pending) :
    m.isReady = true := by
  unfold isReady
  rw [control]

theorem isReady_of_starts {data : InvokeData} {pending : List (StateIndex × Nat)}
    (control : m.control = .starts data pending) : m.isReady = true := by
  unfold isReady
  rw [control]

/-- Before a machine prepares services, and so before it waits, it has looked and found nothing. -/
theorem Run.sawNothing (run : Run m₀.start w) (ready : w.isReady = true) :
    ∃ m, SawNothing m₀ m w := by
  induction run with
  | refl => cases ready
  | @next m w before move ih =>
    have goesOn : m.isReady = true → Readies m w → ∃ m, SawNothing m₀ m w := fun still readies => by
      obtain ⟨k,saw⟩ := ih still
      exact ⟨k, saw.reached, saw.control, saw.found, saw.way.tail readies⟩
    have elsewhere : ∀ part, Elsewhere part → w = m.proceed part → ∃ m, SawNothing m₀ m w := by
      rintro part out rfl
      rw [out.proceed m] at ready
      cases ready
    cases move with
    | work work =>
      cases work with
      | step running =>
        cases control : m.control with
        | starting =>
          refine elsewhere _ start_elsewhere ?_
          rw [Machine.step, control]
        | macrostep =>
          have found := ready
          rw [Machine.step, control] at found
          exact ⟨m, before, control, look_of_ready found, .refl⟩
        | invoking pending => exact goesOn (isReady_of_invoking control) (.prepare control)
        | effects next =>
          have none : m.effects.isEmpty = true := by simpa [isBlocked, control] using running
          refine elsewhere _ (afterEffects_elsewhere next) ?_
          rw [Machine.step, control]
          simp only [none, if_true]
        | _ => simp [isBlocked, control] at running
      | effectsDone next failures asked =>
        rw [effectsDone_eq asked, (afterEffects_elsewhere next).proceed] at ready
        cases ready
      | startDone data pending failure asked =>
        exact goesOn (isReady_of_starts asked) (.answer asked failure)
    | take input =>
      by_cases waiting : m.control = .waiting
      · refine elsewhere _ (takeInput_elsewhere input) ?_
        rw [take_waiting waiting]
      · rw [take_other waiting] at ready ⊢
        exact ih ready
    | disturb memory destroyed reports =>
      exact goesOn ready (.disturb m memory destroyed reports)
    | restart status early ended => cases ready
    | retry fault ended => cases ready

/-- From the look to the first service nothing is written. -/
theorem stays_step_of_look {n : Machine} (control : m.control = .macrostep)
    (looked : look m = .ok .stability n) : Stays m m.step := by
  have selected : Stays m n := by
    cases look_ok looked with
    | stability selected _ => exact (selectTransitions_frames none m).of_ok selected
  rw [Machine.step, control]
  simp only [proceed, macrostep_of_look looked]
  exact ⟨selected.outlook, selected.heap⟩

/-- Each time a machine waits it has looked for transitions and internal events before and found
    none. It has not looked again, but if nothing has been written to the data since, neither to the
    place that an invoke names for its id nor by the surroundings, there is no transition to find. -/
theorem waiting_stable_unless_written (run : Run m₀.start w) (waiting : w.control = .waiting) :
    (∃ m, SawNothing m₀ m w) ∧ ∀ m, SawNothing m₀ m w → Relation.ReflTransGen Undisturbing m.step w →
      m.heap.Closed → m.context.dataModel < m.heap.size →
        ∃ w', selectTransitions none w = .ok [] w' ∧ w.Grew w' := by
  have ready : w.isReady = true := by
    unfold isReady
    rw [waiting]
  refine ⟨run.sawNothing ready, fun m saw gentle closed live => ?_⟩
  obtain ⟨n,looked⟩ := saw.found
  have stays : Stays m w :=
    Lasting.trans (stays_step_of_look saw.control looked) (stays_of_undisturbing gentle)
  have outlook := stays.outlook
  simp only [Machine.outlook, Prod.mk.injEq] at outlook
  have mirrors : Mirrors (fun r s => r = s ∧ r < m.heap.size) m w :=
    { chart := outlook.1
      configuration := outlook.2.1
      corresponds := closed.corresponds stays.heap
      begins := fun _ _ _ _ _ _ => .whole ⟨outlook.2.2.symm, live⟩ }
  cases look_ok looked with
  | stability selected empty =>
    have longer : m.context.internalQueue.length ≤ n.context.internalQueue.length :=
      (selectTransitions_frames (R := Queued) none m).of_ok selected
    rw [empty, List.length_nil] at longer
    refine selects_none_again mirrors selected ?_
    rw [empty, List.length_nil]
    omega

end Machine

namespace StoredId

open Source Machine MachineM

/-- A state that invokes a service and leaves on its own as soon as a variable has a text. -/
def source (idLocation : Option String) : ChartDef where
  name := none
  initial := none
  data := [⟨"x", ⟨none, some (.string "")⟩⟩]
  extra := none
  states :=
    [.mk { StateInfo.simple "a" .state [⟨none, some "x != ''", some ["b"], .external, []⟩] with
      invokes := [{
        type := none, src := some "child", srcExpr := none, id := none, idLocation
        params := [], content := none, autoforward := false, finalize := [] }] } [],
      .mk (.simple "b" .state []) []]

def created (idLocation : Option String) : Machine :=
  Machine.create (Chart.compiled [] (source idLocation)) { sessionId := "s" } default

/-- After the initial entry. -/
def entered (idLocation : Option String) : Machine := (created idLocation).start.step.step

def looked (idLocation : Option String) : Machine := (entered idLocation).step

def invoked (idLocation : Option String) : Machine := (looked idLocation).step

def answered (idLocation : Option String) : Machine := (invoked idLocation).startDone none

def waiting (idLocation : Option String) : Machine := (answered idLocation).step

/-- How many transitions without event are selected. -/
def selected (m : Machine) : Option Nat :=
  match selectTransitions none m with
  | .ok enabled _ => some enabled.length
  | .error _ _ => none

theorem entered_reached (idLocation : Option String)
    (running : (created idLocation).start.isBlocked = false)
    (running' : (created idLocation).start.step.isBlocked = false) :
    Run (created idLocation).start (entered idLocation) :=
  ((Run.refl _).next (.work (.step _ running))).next (.work (.step _ running'))

/-- The service's id is stored in the variable, so there is a transition to take. The machine has not
    looked again and waits. -/
theorem waits_unstable :
    Chart.compile [] (source (some "x")) = .ok (Chart.compiled [] (source (some "x"))) ∧
      Run (created (some "x")).start (waiting (some "x")) ∧
      (waiting (some "x")).control = .waiting ∧ selected (waiting (some "x")) = some 1 := by
  have run : Run _ (looked (some "x")) :=
    (entered_reached (some "x") (by decide +kernel) (by decide +kernel)).next
      (.work (.step _ (by decide +kernel)))
  have run : Run _ (invoked (some "x")) := run.next (.work (.step _ (by decide +kernel)))
  obtain ⟨data,pending,asked⟩ := control_of_starting (m := invoked (some "x")) (by decide +kernel)
  have run : Run _ (answered (some "x")) := run.next (.work (.startDone _ data pending none asked))
  exact ⟨Chart.compile_eq_compiled (by decide +kernel),
    run.next (.work (.step _ (by decide +kernel))), control_of_waiting (by decide +kernel),
    by decide +kernel⟩

/-- Without a place for the id the machine sees no transition when it waits. -/
theorem waits_stable : (waiting none).control = .waiting ∧
    ∃ w', selectTransitions none (waiting none) = .ok [] w' ∧ (waiting none).Grew w' := by
  have reached := entered_reached none (by decide +kernel) (by decide +kernel)
  have run : Run _ (looked none) := reached.next (.work (.step _ (by decide +kernel)))
  have run : Run _ (invoked none) := run.next (.work (.step _ (by decide +kernel)))
  obtain ⟨data,pending,asked⟩ := control_of_starting (m := invoked none) (by decide +kernel)
  have run : Run _ (answered none) := run.next (.work (.startDone _ data pending none asked))
  have run : Run _ (waiting none) := run.next (.work (.step _ (by decide +kernel)))
  have first : posture (looked none) = .preparing [(1, 0)] := by decide +kernel
  have last : posture (answered none) = .preparing [] := by decide +kernel
  have waits : (waiting none).control = .waiting := control_of_waiting (by decide +kernel)
  have control : (entered none).control = .macrostep := control_of_looking (by decide +kernel)
  have found : ∃ n, look (entered none) = .ok .stability n := look_of_ready (by decide +kernel)
  have way : Relation.ReflTransGen Readies (looked none) (waiting none) :=
    ((Relation.ReflTransGen.refl.tail (.prepare (control_of_preparing first))).tail
      (.answer asked none)).tail (.prepare (control_of_preparing last))
  have unnamed : ∀ i ∈ ((looked none).chart.state 1).invokes, i.idLocation = none := by
    decide +kernel
  have gentle : Relation.ReflTransGen Undisturbing (looked none) (waiting none) := by
    refine ((Relation.ReflTransGen.refl.tail (.prepare (control_of_preparing first) ?_)).tail
      (.answer asked none)).tail (.prepare (control_of_preparing last) ?_)
    · intro s node rest i pending
      cases pending
    · intro s node rest i pending invoke
      cases pending
      exact unnamed i (List.mem_of_getElem? invoke)
  have stable := (waiting_stable_unless_written run waits).2 (entered none)
    ⟨reached, control, found, way⟩ gentle (Heap.closed_of_children (by decide +kernel))
    (by decide +kernel)
  exact ⟨waits, stable⟩

end StoredId

end Statechart

import Statechart.Machine.Selection
import Statechart.Proofs.Value.Building

/- What executable content leaves alone.

   Conditions, actions and traces change the memory, add to the internal queue, the effects and the
   reports of a machine, and do nothing else. They never end a run: an action that fails is told by
   an event, and only a host's action that breaks down gets through. -/
namespace Statechart

mutual

/-- What is asked of the host's actions, wherever content has one. -/
def Action.Customs (p : CustomAction → Prop) : Action → Prop
  | .branch arms => customsOfArms p arms
  | .forEach _ _ _ actions => customsOfAll p actions
  | .custom _ action => p action
  | _ => True

def Action.customsOfAll (p : CustomAction → Prop) : List Action → Prop
  | [] => True
  | a :: rest => a.Customs p ∧ customsOfAll p rest

def Action.customsOfArms (p : CustomAction → Prop) : List (Option Expr × List Action) → Prop
  | [] => True
  | (_, actions) :: rest => customsOfAll p actions ∧ customsOfArms p rest

end

/-- What is asked of the host's actions, wherever a chart has one. -/
structure Chart.Customs (p : CustomAction → Prop) (c : Chart) : Prop where
  onEntry : ∀ s, Action.customsOfAll p (c.state s).onEntry
  onExit : ∀ s, Action.customsOfAll p (c.state s).onExit
  actions : ∀ t, Action.customsOfAll p (c.transition t).actions
  finalize : ∀ s, ∀ i ∈ (c.state s).invokes, Action.customsOfAll p i.finalize

variable {p q : CustomAction → Prop}

mutual

theorem Action.Customs.mono (weaker : ∀ action, p action → q action) :
    ∀ {a : Action}, a.Customs p → a.Customs q
  | .raise _, _ | .send _, _ | .cancel _ _, _ | .log _ _, _ | .assign _ _, _ => trivial
  | .branch _, asked => customsOfArms_mono weaker asked
  | .forEach _ _ _ _, asked => customsOfAll_mono weaker asked
  | .custom _ action, asked => weaker action asked

theorem Action.customsOfAll_mono (weaker : ∀ action, p action → q action) :
    ∀ {actions : List Action}, customsOfAll p actions → customsOfAll q actions
  | [], _ => trivial
  | _ :: _, ⟨first, rest⟩ => ⟨first.mono weaker, customsOfAll_mono weaker rest⟩

theorem Action.customsOfArms_mono (weaker : ∀ action, p action → q action) :
    ∀ {arms : List (Option Expr × List Action)}, customsOfArms p arms → customsOfArms q arms
  | [], _ => trivial
  | _ :: _, ⟨first, rest⟩ => ⟨customsOfAll_mono weaker first, customsOfArms_mono weaker rest⟩

end

theorem Chart.Customs.mono {c : Chart} (weaker : ∀ action, p action → q action)
    (asked : c.Customs p) : c.Customs q :=
  ⟨fun s => Action.customsOfAll_mono weaker (asked.onEntry s),
    fun s => Action.customsOfAll_mono weaker (asked.onExit s),
    fun t => Action.customsOfAll_mono weaker (asked.actions t),
    fun s i within => Action.customsOfAll_mono weaker (asked.finalize s i within)⟩

/-- The host's action does not break down. -/
def CustomAction.Returns (action : CustomAction) : Prop := ∀ h data, action h data ≠ .crashed

def Effect.cancelled? : Effect → Option InvokeId
  | .cancelInvoke id => some id
  | _ => none

/-- The services that are to be cancelled, in order. -/
def Machine.cancels (m : Machine) : List InvokeId := m.effects.filterMap Effect.cancelled?

/-- What executable content can do to a machine, one thing after another. It cancels no service. -/
inductive Machine.Drifts : Machine → Machine → Prop where
  | refl (m : Machine) : Drifts m m
  | trans {m m' m'' : Machine} (first : Drifts m m') (second : Drifts m' m'') : Drifts m m''
  | withHeap (m : Machine) (h : Heap) : Drifts m (m.withHeap h)
  | freshId (m : Machine) : Drifts m m.freshId.2
  | enqueue (m : Machine) (e : Event) : Drifts m (m.enqueue e)
  | emit (m : Machine) (e : Effect) (sparing : e.cancelled? = none) : Drifts m (m.emit e)
  | tell (m : Machine) (r : Report) : Drifts m (m.tell r)

/-- The machine without what executable content can change. -/
def Machine.frame (m : Machine) : Machine :=
  { m with
    memory := default, effects := [], reports := []
    context := { m.context with internalQueue := [] } }

namespace MachineM

variable {R : Machine → Machine → Prop}

/-- Relations between machines before and after that can be left out or put in a row. -/
class Lasting (R : Machine → Machine → Prop) : Prop where
  refl : ∀ m, R m m
  trans : ∀ {a b d}, R a b → R b d → R a d

/-- Relations that do not mind what evaluating an expression does: it makes new containers. -/
class Allocating (R : Machine → Machine → Prop) : Prop extends Lasting R where
  grows : ∀ (m : Machine) (h : Heap), m.heap.Extends h → R m (m.withHeap h)
  freshId : ∀ m : Machine, R m m.freshId.2

/-- Relations that do not mind either that the machine is told by events and tells what it does.
    Effects come from actions only. -/
class Growing (R : Machine → Machine → Prop) : Prop extends Allocating R where
  enqueue : ∀ (m : Machine) (e : Event), R m (m.enqueue e)
  tell : ∀ (m : Machine) (r : Report), R m (m.tell r)

/-- Relations that do not mind what becomes of the data. -/
class Writing (R : Machine → Machine → Prop) : Prop extends Allocating R where
  withHeap : ∀ (m : Machine) (h : Heap), R m (m.withHeap h)
  grows m h _ := withHeap m h

class Tolerant (R : Machine → Machine → Prop) : Prop extends Growing R, Writing R

instance {γ : Type} {view : Machine → γ} : Lasting (fun m m' => view m' = view m) :=
  ⟨fun _ => rfl, fun first second => second.trans first⟩

instance : Tolerant Machine.Drifts where
  refl := .refl
  trans := .trans
  withHeap := .withHeap
  freshId := .freshId
  enqueue := .enqueue
  tell := .tell

instance : Tolerant (fun m m' : Machine => m'.frame = m.frame) where
  withHeap _ _ := rfl
  freshId _ := rfl
  enqueue _ _ := rfl
  tell _ _ := rfl

theorem extends_ofFailure (h : Heap) (f : Failure) : h.Extends (Event.ofFailure h f).1 :=
  Heap.extends_build h (.object [("message", .string f.message)])

section Growing

variable [Growing R]

theorem Growing.raiseFailure (m : Machine) (f : Failure) : R m (m.raiseFailure f) :=
  Lasting.trans (Allocating.grows m _ (extends_ofFailure m.heap f)) (Growing.enqueue _ _)

theorem Growing.trace (m : Machine) (r : TraceRecord) : R m (m.trace r) := by
  unfold Machine.trace
  split
  · exact Lasting.refl m
  · simp only
    split
    · exact Lasting.trans (Growing.tell m _) (Growing.raiseFailure _ _)
    · exact Growing.tell m _

theorem Growing.reach (m : Machine) (p : LifePoint) : R m (m.reach p) :=
  Lasting.trans (Growing.trace m _) (Growing.tell _ _)

end Growing

end MachineM

namespace Machine

variable (m : Machine)

theorem drifts_reach (p : LifePoint) : m.Drifts (m.reach p) := MachineM.Growing.reach m p

variable {m} {m' : Machine}

theorem Drifts.frame (drifts : m.Drifts m') : m'.frame = m.frame := by
  induction drifts with
  | refl => rfl
  | trans _ _ first second => exact second.trans first
  | withHeap => rfl
  | freshId => rfl
  | enqueue => rfl
  | emit => rfl
  | tell => rfl

theorem Drifts.effects (drifts : m.Drifts m') : ∃ more, m'.effects = m.effects ++ more := by
  induction drifts with
  | trans _ _ first second =>
    obtain ⟨more,eq⟩ := first
    obtain ⟨more',eq'⟩ := second
    exact ⟨more ++ more', by rw [eq', eq, List.append_assoc]⟩
  | emit m e _ => exact ⟨[e], rfl⟩
  | _ => exact ⟨[], (List.append_nil _).symm⟩

theorem Drifts.cancels (drifts : m.Drifts m') : m'.cancels = m.cancels := by
  induction drifts with
  | trans _ _ first second => exact second.trans first
  | emit m e sparing =>
    simp only [Machine.cancels, Machine.emit, List.filterMap_append, List.filterMap_cons, sparing,
      List.filterMap_nil, List.append_nil]
  | _ => rfl

theorem Drifts.queue (drifts : m.Drifts m') :
    ∃ more, m'.context.internalQueue = m.context.internalQueue ++ more := by
  induction drifts with
  | trans _ _ first second =>
    obtain ⟨more,eq⟩ := first
    obtain ⟨more',eq'⟩ := second
    exact ⟨more ++ more', by rw [eq', eq, List.append_assoc]⟩
  | enqueue m e => exact ⟨[e], rfl⟩
  | _ => exact ⟨[], (List.append_nil _).symm⟩

theorem frame_raiseFailure (m : Machine) (f : Failure) : (m.raiseFailure f).frame = m.frame := rfl

@[simp] theorem frame_reach (m : Machine) (p : LifePoint) : (m.reach p).frame = m.frame :=
  (m.drifts_reach p).frame

end Machine

namespace MachineM

variable {α β : Type} {R : Machine → Machine → Prop} {P : Interrupt → Prop}

/-- A part of a step, taken up in `m`, leads to a machine related to `m`, and is interrupted only
    as allowed. -/
def KeepsAt (R : Machine → Machine → Prop) (P : Interrupt → Prop) (x : MachineM α) (m : Machine) :
    Prop :=
  match x m with
  | .ok _ m' => R m m'
  | .error i m' => R m m' ∧ P i

def Keeps (R : Machine → Machine → Prop) (P : Interrupt → Prop) (x : MachineM α) : Prop :=
  ∀ m, KeepsAt R P x m

/-- The part does no more than executable content can do. -/
abbrev Frames (P : Interrupt → Prop) (x : MachineM α) : Prop := Keeps Machine.Drifts P x

def never (_ : Interrupt) : Prop := False

def onlyCrash (i : Interrupt) : Prop := i = .crash

def onlyFailure (i : Interrupt) : Prop := ∃ f, i = .failure f

def orFailure (P : Interrupt → Prop) (i : Interrupt) : Prop := onlyFailure i ∨ P i

/-- A part may fail, and be interrupted in other ways besides. -/
class Failing (P : Interrupt → Prop) : Prop where
  failure : ∀ f, P (.failure f)

instance : Failing onlyFailure := ⟨fun f => ⟨f, rfl⟩⟩

instance : Failing (orFailure P) := ⟨fun f => Or.inl ⟨f, rfl⟩⟩

theorem KeepsAt.of_ok {x : MachineM α} {m m' : Machine} {a : α} (h : KeepsAt R P x m)
    (run : x m = .ok a m') : R m m' := by
  simpa [KeepsAt, run] using h

theorem KeepsAt.of_error {x : MachineM α} {m m' : Machine} {i : Interrupt} (h : KeepsAt R P x m)
    (run : x m = .error i m') : R m m' ∧ P i := by
  simpa [KeepsAt, run] using h

section Keeps

variable [Lasting R]

theorem keepsAt_bind {x : MachineM α} {f : α → MachineM β} {m : Machine} (first : KeepsAt R P x m)
    (rest : ∀ a m', x m = .ok a m' → KeepsAt R P (f a) m') : KeepsAt R P (x >>= f) m := by
  unfold KeepsAt at first ⊢
  simp only [bind, EStateM.bind]
  cases run : x m with
  | ok a m' =>
    rw [run] at first
    have second := rest a m' run
    unfold KeepsAt at second
    simp only
    cases run' : f a m' with
    | ok b m'' =>
      rw [run'] at second
      exact Lasting.trans first second
    | error i m'' =>
      rw [run'] at second
      exact ⟨Lasting.trans first second.1, second.2⟩
  | error i m' =>
    rw [run] at first
    exact first

theorem Keeps.pure (a : α) : Keeps R P (Pure.pure a : MachineM α) := fun m =>
  (Lasting.refl m : R m m)

theorem Keeps.get : Keeps R P (MonadState.get : MachineM Machine) := fun m =>
  (Lasting.refl m : R m m)

theorem Keeps.bind {x : MachineM α} {f : α → MachineM β} (first : Keeps R P x)
    (rest : ∀ a, Keeps R P (f a)) : Keeps R P (x >>= f) := fun m =>
  keepsAt_bind (first m) (fun a m' _ => rest a m')

theorem Keeps.forM {l : List β} {f : β → MachineM Unit} (each : ∀ b ∈ l, Keeps R P (f b)) :
    Keeps R P (l.forM f) := by
  induction l with
  | nil => exact Keeps.pure ()
  | cons b rest ih =>
    exact Keeps.bind (each b List.mem_cons_self)
      (fun _ => ih fun d hd => each d (List.mem_cons_of_mem _ hd))

/-- A part that comes down to another one, taken up in a machine that `m` leads to. -/
theorem KeepsAt.after {x y : MachineM α} {m n : Machine} (first : R m n) (same : y m = x n)
    (kept : KeepsAt R P x n) : KeepsAt R P y m := by
  unfold KeepsAt at kept ⊢
  rw [same]
  cases run : x n with
  | ok a n' =>
    rw [run] at kept
    exact Lasting.trans first kept
  | error i n' =>
    rw [run] at kept
    exact ⟨Lasting.trans first kept.1, kept.2⟩

end Keeps

theorem Keeps.update {f : Machine → Machine} (h : ∀ m : Machine, R m (f m)) :
    Keeps R P (MachineM.update f) := h

theorem Keeps.imp {x : MachineM α} {R' : Machine → Machine → Prop} (h : Keeps R P x)
    (weaker : ∀ {m m'}, R m m' → R' m m') : Keeps R' P x := by
  intro m
  have kept := h m
  unfold KeepsAt at kept ⊢
  cases run : x m with
  | ok a m' =>
    rw [run] at kept
    exact weaker kept
  | error i m' =>
    rw [run] at kept
    exact ⟨weaker kept.1, kept.2⟩

section Evaluating

section Allocating

variable [Allocating R]

theorem freshId_frames : Keeps R P freshId := fun m => Allocating.freshId m

theorem sendIdOf_frames (s : SendAction) (delay : Nanos) :
    Keeps R P (sendIdOf s delay) := by
  unfold sendIdOf
  split
  · exact Keeps.pure _
  · exact Keeps.bind freshId_frames fun _ => Keeps.pure _
  · split
    · exact Keeps.bind freshId_frames fun _ => Keeps.pure _
    · exact Keeps.pure _

variable [Failing P]

theorem fail_frames (f : Failure) : Keeps R P (fail f : MachineM α) :=
  fun m => ⟨Lasting.refl m, Failing.failure _⟩

theorem evaluate_frames (e : Expr) : Keeps R P (evaluate e) := by
  intro m
  unfold KeepsAt evaluate
  cases run : e.eval m.scope m.heap with
  | ok r => exact Allocating.grows m _ (Heap.extends_eval e run)
  | error f => exact ⟨Lasting.refl m, Failing.failure _⟩

theorem expectString_frames (what : String) (v : Value) :
    Keeps R P (expectString what v) := by
  unfold expectString
  split
  · exact Keeps.pure _
  · exact fail_frames _

theorem orFail_frames (x : Except Fault α) : Keeps R P (orFail x) := by
  unfold orFail
  split
  · exact Keeps.pure _
  · exact fail_frames _

theorem textOf_frames (what : String) (t : Option String) (e : Option Expr) :
    Keeps R P (textOf what t e) := by
  unfold textOf
  split
  · exact Keeps.pure _
  · exact Keeps.bind (evaluate_frames _) fun _ =>
      Keeps.bind (expectString_frames _ _) fun _ => Keeps.pure _
  · exact Keeps.pure _

theorem sendName_frames (s : SendAction) : Keeps R P (sendName s) := by
  unfold sendName
  split
  · exact Keeps.pure _
  · exact Keeps.bind (evaluate_frames _) fun _ =>
      Keeps.bind (expectString_frames _ _) fun _ => orFail_frames _
  · exact fail_frames _

theorem sendDelay_frames (s : SendAction) : Keeps R P (sendDelay s) := by
  unfold sendDelay
  split
  · exact Keeps.pure _
  · refine Keeps.bind (evaluate_frames _) fun v => ?_
    split
    · split
      · exact Keeps.pure _
      · exact fail_frames _
    · exact orFail_frames _
    · exact Keeps.bind Keeps.get fun _ => fail_frames _
  · exact Keeps.pure _

end Allocating

section Growing

variable [Growing R]

/-- Of a failure the machine is told. -/
theorem recovering_keeps {x : MachineM Unit} (h : Keeps R (orFailure P) x) :
    Keeps R P (recovering x) := by
  intro m
  have inner := h m
  unfold KeepsAt recovering at *
  cases run : x m with
  | ok u m' =>
    rw [run] at inner
    exact inner
  | error i m' =>
    rw [run] at inner
    cases i with
    | failure f => exact Lasting.trans inner.1 (Growing.raiseFailure m' f)
    | fault f => exact ⟨inner.1, inner.2.resolve_left nofun⟩
    | crash => exact ⟨inner.1, inner.2.resolve_left nofun⟩

theorem evaluateOr_frames (e : Option Expr) : Keeps R P (evaluateOr e) := by
  intro m
  cases e with
  | none => exact Lasting.refl m
  | some e =>
    have inner : KeepsAt R onlyFailure (evaluate e) m := evaluate_frames e m
    unfold KeepsAt evaluateOr at *
    simp only
    cases run : evaluate e m with
    | ok v m' =>
      rw [run] at inner
      exact inner
    | error i m' =>
      rw [run] at inner
      obtain ⟨kept,f,rfl⟩ := inner
      exact Lasting.trans kept (Growing.raiseFailure m' f)

theorem conditionHolds_frames (t : TransitionIndex) : Keeps R P (conditionHolds t) := by
  intro m
  unfold KeepsAt conditionHolds
  cases (m.chart.transition t).condition with
  | none => exact Lasting.refl m
  | some cond =>
    have inner : KeepsAt R onlyFailure (evaluate cond) m := evaluate_frames cond m
    unfold KeepsAt at inner
    simp only
    cases run : evaluate cond m with
    | ok v m' =>
      rw [run] at inner
      exact inner
    | error i m' =>
      rw [run] at inner
      obtain ⟨kept,f,rfl⟩ := inner
      exact Lasting.trans kept (Growing.raiseFailure m' f)

theorem firstEnabled_frames (event : Option EventName) (candidates : List TransitionIndex) :
    Keeps R P (firstEnabled event candidates) := by
  induction candidates with
  | nil => exact Keeps.pure _
  | cons t rest ih =>
    rw [firstEnabled]
    refine Keeps.bind Keeps.get fun m => ?_
    split
    · refine Keeps.bind (conditionHolds_frames t) fun holds => ?_
      split
      · exact Keeps.pure _
      · exact ih
    · exact ih

theorem collectEnabled_frames (event : Option EventName) (states : List StateIndex)
    (enabled : List TransitionIndex) : Keeps R P (collectEnabled event states enabled) := by
  induction states generalizing enabled with
  | nil => exact Keeps.pure _
  | cons s rest ih =>
    rw [collectEnabled]
    refine Keeps.bind Keeps.get fun m => ?_
    refine Keeps.bind (firstEnabled_frames event _) fun found => ?_
    split
    · exact ih _
    · exact ih _

/-- A machine is only interrupted while it looks for transitions if defaults have no end. -/
theorem selectTransitions_frames (event : Option EventName) :
    Keeps R onlyCrash (selectTransitions event) := by
  unfold selectTransitions
  refine Keeps.bind Keeps.get fun m => ?_
  refine Keeps.bind (collectEnabled_frames event _ _) fun enabled => ?_
  refine Keeps.bind Keeps.get fun m => ?_
  split
  · exact Keeps.bind (fun n => ⟨Lasting.refl n, rfl⟩) fun _ => Keeps.pure _
  · exact Keeps.pure _

end Growing

section Writing

variable [Writing R] [Failing P]

theorem changeHeap_frames (f : Heap → Except ValueError Heap) :
    Keeps R P (changeHeap f) := by
  intro m
  unfold KeepsAt changeHeap
  cases f m.heap with
  | ok h => exact Writing.withHeap m h
  | error e => exact ⟨Lasting.refl m, Failing.failure _⟩

theorem assign_frames (location : List String) (v : Value) :
    Keeps R P (assign location v) := by
  intro m
  unfold KeepsAt assign
  cases location with
  | nil => exact ⟨Lasting.refl m, Failing.failure _⟩
  | cons head rest =>
    simp only
    cases m.heap.contains m.context.dataModel head with
    | false => exact ⟨Lasting.refl m, Failing.failure _⟩
    | true =>
      simp only [Bool.not_true, Bool.false_eq_true, if_false]
      cases m.heap.setPath m.context.dataModel (head :: rest) v with
      | ok h => exact Writing.withHeap m h
      | error e => exact ⟨Lasting.refl m, Failing.failure _⟩

theorem paramsObject_frames (params : List Param) : Keeps R P (paramsObject params) := by
  unfold paramsObject
  have filled : ∀ r : Ref, Keeps R P (do
      params.forM fun p => do
        let v ← evaluate p.expr
        changeHeap fun h => h.set r p.name v
      return Value.object r) := fun r =>
    Keeps.bind
      (Keeps.forM fun p _ => Keeps.bind (evaluate_frames p.expr) fun _ => changeHeap_frames _)
      fun _ => Keeps.pure _
  intro m
  exact .after (Writing.withHeap m m.heap.newObject.1) rfl (filled m.heap.newObject.2 _)

theorem payload_frames (content : Option Expr) (params : List Param) :
    Keeps R P (payload content params) := by
  unfold payload
  split
  · exact evaluate_frames _
  · split
    · exact Keeps.pure _
    · exact paramsObject_frames _

end Writing

end Evaluating

section Failing

variable [Failing P]

theorem send_frames (s : SendAction) : Frames P (send s) := by
  unfold send
  refine Keeps.bind (sendName_frames s) fun name => ?_
  refine Keeps.bind (textOf_frames _ _ _) fun target => ?_
  refine Keeps.bind (sendDelay_frames s) fun delay => ?_
  refine Keeps.bind (payload_frames _ _) fun data => ?_
  refine Keeps.bind (sendIdOf_frames s delay) fun sendId => ?_
  have leaving : Frames P (if target = some internalTarget then
      if delay ≠ 0 then fail (.execution "delayed send to #_internal is not supported")
      else update fun m => m.enqueue { name, type := .internal, sendId, data }
    else update fun m => m.emit (.send { name, sendId, target, type := s.type, delay, data })) := by
    split
    · split
      · exact fail_frames _
      · exact Keeps.update fun m => .enqueue m _
    · exact Keeps.update fun m => .emit m _ rfl
  simp only
  split
  · exact Keeps.bind (assign_frames _ _) fun _ => leaving
  · exact leaving

theorem write_frames (label : Option String) (v : Value) : Frames P (do
    let m ← get
    match m.options.logger.logFault label with
    | some source => fail (m.platformFailure source)
    | none => set (m.tell (.log label (m.heap.display v)))) := by
  intro m
  refine keepsAt_bind (Keeps.get m) ?_
  intro _ _ run
  cases run
  split
  · exact fail_frames _ m
  · exact Machine.Drifts.tell m _

theorem log_frames (label : Option String) (e : Option Expr) : Frames P (log label e) := by
  unfold log
  cases e with
  | some e => exact Keeps.bind (evaluate_frames e) fun v => write_frames label v
  | none => exact write_frames label .undefined

theorem cancel_frames (id : Option SendId) (e : Option Expr) : Frames P (cancel id e) := by
  unfold cancel
  refine Keeps.bind (textOf_frames _ _ _) fun text => ?_
  split
  · exact Keeps.update fun m => .emit m _ rfl
  · exact fail_frames _

theorem arrayItems_frames (v : Value) : Frames P (arrayItems v) := by
  unfold arrayItems
  split
  · exact Keeps.bind Keeps.get fun _ => Keeps.pure _
  · exact fail_frames _

theorem custom_frames (name : String) {action : CustomAction}
    (asked : P .crash ∨ action.Returns) : Frames P (custom name action) := by
  intro m
  unfold KeepsAt custom
  cases run : action m.heap m.context.dataModel with
  | done h => exact .withHeap m h
  | failed h f => exact ⟨.withHeap m h, Failing.failure _⟩
  | crashed => exact ⟨.refl m, asked.resolve_right fun returns => returns _ _ run⟩

end Failing

mutual

theorem execute_frames [Failing P] : ∀ {a : Action}, P .crash ∨ a.Customs CustomAction.Returns →
    Frames P (execute a)
  | .raise event, _ => by
    rw [execute]
    exact Keeps.update fun m => .enqueue m _
  | .send s, _ => by
    rw [execute]
    exact send_frames s
  | .cancel id e, _ => by
    rw [execute]
    exact cancel_frames id e
  | .log label e, _ => by
    rw [execute]
    exact log_frames label e
  | .assign location e, _ => by
    rw [execute]
    exact Keeps.bind (evaluate_frames e) fun v => assign_frames location v
  | .branch arms, asked => by
    rw [execute]
    exact executeArms_frames asked
  | .forEach array item index actions, asked => by
    rw [execute]
    have body : Frames P (executeAll actions) := executeAll_frames asked
    refine Keeps.bind (evaluate_frames array) fun v => ?_
    refine Keeps.bind (arrayItems_frames v) fun values => ?_
    refine Keeps.forM fun entry _ => ?_
    refine Keeps.bind (assign_frames _ _) fun _ => ?_
    split
    · exact Keeps.bind (assign_frames _ _) fun _ => body
    · exact body
  | .custom name action, asked => by
    rw [execute]
    exact custom_frames name asked

theorem executeAll_frames [Failing P] : ∀ {actions : List Action},
    P .crash ∨ Action.customsOfAll CustomAction.Returns actions → Frames P (executeAll actions)
  | [], _ => by
    rw [executeAll]
    exact Keeps.pure _
  | a :: rest, asked => by
    rw [executeAll]
    exact Keeps.bind (execute_frames (asked.imp id And.left)) fun _ =>
      executeAll_frames (asked.imp id And.right)

theorem executeArms_frames [Failing P] : ∀ {arms : List (Option Expr × List Action)},
    P .crash ∨ Action.customsOfArms CustomAction.Returns arms → Frames P (executeArms arms)
  | [], _ => by
    rw [executeArms]
    exact Keeps.pure _
  | (none, actions) :: _, asked => by
    rw [executeArms]
    exact executeAll_frames (asked.imp id And.left)
  | (some cond, actions) :: rest, asked => by
    rw [executeArms]
    have yes : Frames P (executeAll actions) := executeAll_frames (asked.imp id And.left)
    have no : Frames P (executeArms rest) := executeArms_frames (asked.imp id And.right)
    refine Keeps.bind (evaluate_frames cond) fun v => ?_
    split
    · exact yes
    · exact no

end

/-- A block ends well unless a host's action breaks down. -/
theorem executeBlock_frames (actions : List Action) : Frames onlyCrash (executeBlock actions) :=
  recovering_keeps (executeAll_frames (Or.inl (Or.inr rfl)))

theorem executeBlock_returns {actions : List Action}
    (returns : Action.customsOfAll CustomAction.Returns actions) :
    Frames never (executeBlock actions) :=
  recovering_keeps (executeAll_frames (Or.inr returns))

end MachineM

end Statechart

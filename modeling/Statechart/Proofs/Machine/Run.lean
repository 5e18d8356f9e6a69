import Mathlib.Logic.Function.Iterate
import Statechart.Proofs.Machine.Microstep
import Statechart.Machine.Host

/- Runs of a machine in any surroundings.

   A machine works until it waits or has ended; it is answered when it asks for something, and it
   takes in whatever comes while it waits. Between two pieces of its work the surroundings may
   change the memory they share with it, read its reports and ask for its destruction.

   A pass of a macrostep first looks for something to do and then does it. Looking leaves the
   configuration alone. -/
namespace Statechart

/-- What a macrostep finds to do. -/
inductive Found where
  | completion
  | destruction
  /-- Neither transitions nor internal events. -/
  | stability
  /-- Transitions on an internal event, or on none. The list may be empty for an event. -/
  | transitions (event : Option Event) (enabled : List TransitionIndex)

namespace MachineM

def look : MachineM Found := do
  let m ← get
  if m.context.done then return .completion
  else if m.destroyed then return .destruction
  else
    let enabled ← selectTransitions none
    if !enabled.isEmpty then return .transitions none enabled
    else
      let m ← get
      match m.context.internalQueue with
      | [] => return .stability
      | e :: rest =>
        set { m with context := { m.context with internalQueue := rest } }
        bindEvent e
        return .transitions (some e) (← selectTransitions (some e.name))

def settleDown : MachineM Control := do
  let m ← get
  set { m with context := { m.context with statesToInvoke := [] } }
  return .invoking (pendingInvokes m)

def act : Found → MachineM Control
  | .completion => complete
  | .destruction => destroy
  | .stability => settleDown
  | .transitions _ enabled => pass enabled

/-- What an external event brings before its transitions are taken. -/
def receive (e : Event) : MachineM (List TransitionIndex) := do
  update fun m => { m with steps := 0 }
  bindEvent e
  passToServices e
  match e.name.doneInvokeId? with
  | some id => forget id
  | none => pure ()
  selectTransitions (some e.name)

def respond (enabled : List TransitionIndex) : MachineM Control := do
  if !enabled.isEmpty then
    update fun m => { m with steps := m.steps + 1 }
    microstep enabled
  return .effects .macrostep

theorem macrostep_eq : macrostep = look >>= act := by
  rw [macrostep, look, bind_assoc]
  congr 1
  funext m
  by_cases done : m.context.done = true
  · rw [if_pos done, if_pos done, pure_bind]
    rfl
  · rw [if_neg done, if_neg done]
    by_cases doomed : m.destroyed = true
    · rw [if_pos doomed, if_pos doomed, pure_bind]
      rfl
    · rw [if_neg doomed, if_neg doomed, bind_assoc]
      congr 1
      funext enabled
      by_cases found : (!enabled.isEmpty) = true
      · rw [if_pos found, if_pos found, pure_bind]
        rfl
      · rw [if_neg found, if_neg found, bind_assoc]
        funext n
        rw [get_bind, get_bind]
        cases n.context.internalQueue with
        | nil => rfl
        | cons e rest =>
          simp only [bind_assoc, pure_bind]
          rfl

theorem macrostep_of_look {m n : Machine} {found : Found} (run : look m = .ok found n) :
    macrostep m = act found n := by
  rw [macrostep_eq]
  exact bind_of_ok act run

theorem macrostep_of_error {m n : Machine} {i : Interrupt} (run : look m = .error i n) :
    macrostep m = .error i n := by
  rw [macrostep_eq]
  exact bind_of_error act run

theorem process_eq (e : Event) : process e = receive e >>= respond := by
  simp only [process, receive, bind_assoc]
  congr 1
  funext _
  congr 1
  funext _
  congr 1
  funext _
  cases e.name.doneInvokeId? with
  | none => rfl
  | some id => rfl

end MachineM

namespace Machine

/-- A piece of work between two waits: the machine goes on by itself, or it is answered. -/
inductive Work : Machine → Machine → Prop where
  | step (m : Machine) (running : m.isBlocked = false) : Work m m.step
  | effectsDone (m : Machine) (next : AfterEffects) (failures : List Failure)
      (asked : m.control = .effects next) : Work m (m.effectsDone failures)
  | startDone (m : Machine) (data : InvokeData) (pending : List (StateIndex × Nat))
      (failure : Option Failure) (asked : m.control = .starts data pending) :
      Work m (m.startDone failure)

/-- The machine as its surroundings leave it to go on. -/
def disturb (m : Machine) (memory : Memory) (destroyed : Bool) (reports : List Report) : Machine :=
  { m with memory, destroyed, reports }

/-- One move of a machine in its surroundings. A run that ended early can be taken up again. -/
inductive Move : Machine → Machine → Prop where
  | work {m m' : Machine} (work : Work m m') : Move m m'
  | take (m : Machine) (input : Input) : Move m (m.take input)
  | disturb (m : Machine) (memory : Memory) (destroyed : Bool) (reports : List Report) :
      Move m (m.disturb memory destroyed reports)
  | restart (m : Machine) (status : ExitStatus) (early : status ≠ .completed)
      (ended : m.control = .exited status) : Move m m.start
  | retry (m : Machine) (fault : Fault) (ended : m.control = .aborted fault) : Move m m.start

/-- Any number of moves. -/
inductive Run : Machine → Machine → Prop where
  | refl (m : Machine) : Run m m
  | next {m m' m'' : Machine} (run : Run m m') (move : Move m' m'') : Run m m''

theorem Run.trans {m m' m'' : Machine} (first : Run m m') (second : Run m' m'') : Run m m'' := by
  induction second with
  | refl => exact first
  | next _ move ih => exact .next ih move

theorem Run.iterate {m₀ m : Machine} (run : Run m₀ m) (k : Nat)
    (free : ∀ i < k, (step^[i] m).isBlocked = false) : Run m₀ (step^[k] m) := by
  induction k with
  | zero => exact run
  | succ k ih =>
    rw [Function.iterate_succ_apply']
    exact (ih fun i hi => free i (Nat.lt_succ_of_lt hi)).next
      (.work (.step _ (free k k.lt_succ_self)))

/-- What every move keeps holds along every run. -/
theorem Run.invariant {Inv : Machine → Prop} {m m' : Machine} (run : Run m m') (start : Inv m)
    (kept : ∀ {a b}, Inv a → Move a b → Inv b) : Inv m' := by
  induction run with
  | refl => exact start
  | next _ move ih => exact kept ih move

/-- What a control says without the values in it, which cannot be compared. -/
inductive Posture where
  | looking
  | preparing (pending : List (StateIndex × Nat))
  | performing
  | starting
  | waiting
  | other
deriving DecidableEq

def posture (m : Machine) : Posture :=
  match m.control with
  | .macrostep => .looking
  | .invoking pending => .preparing pending
  | .effects .macrostep => .performing
  | .starts _ _ => .starting
  | .waiting => .waiting
  | _ => .other

section posture

variable {m : Machine}

theorem control_of_looking (seen : m.posture = .looking) : m.control = .macrostep := by
  unfold posture at seen
  split at seen
  all_goals first | assumption | cases seen

theorem control_of_preparing {pending : List (StateIndex × Nat)}
    (seen : m.posture = .preparing pending) : m.control = .invoking pending := by
  unfold posture at seen
  split at seen
  case h_2 control =>
    cases seen
    exact control
  all_goals cases seen

theorem control_of_performing (seen : m.posture = .performing) :
    m.control = .effects .macrostep := by
  unfold posture at seen
  split at seen
  all_goals first | assumption | cases seen

theorem control_of_starting (seen : m.posture = .starting) :
    ∃ data pending, m.control = .starts data pending := by
  unfold posture at seen
  split at seen
  case h_4 control => exact ⟨_, _, control⟩
  all_goals cases seen

theorem control_of_waiting (seen : m.posture = .waiting) : m.control = .waiting := by
  unfold posture at seen
  split at seen
  all_goals first | assumption | cases seen

end posture

end Machine

/-- There is nothing to do for a machine, by itself or by its host. -/
def Resting : Control → Prop
  | .idle | .waiting | .exited _ | .aborted _ | .crashed => True
  | _ => False

namespace Host

variable {σ : Type}

/-- An answer is a piece of work, unless there is nothing to do. -/
theorem answer_work (host : Host σ) {m : Machine} (busy : ¬ Resting m.control) (s : σ) :
    Machine.Work (m.disturb m.memory (host.destroyed s) m.reports) (host.answer m s).1 := by
  unfold answer
  generalize before : { m with destroyed := host.destroyed s } = n
  have same : m.disturb m.memory (host.destroyed s) m.reports = n := before
  have control : n.control = m.control := before ▸ rfl
  rw [same]
  dsimp only
  by_cases blocked : n.isBlocked = true
  · simp only [blocked, Bool.not_true, Bool.false_eq_true, if_false]
    rw [← control] at busy
    cases asked : n.control with
    | effects next => exact .effectsDone n next _ asked
    | starts data pending => exact .startDone n data pending _ asked
    | starting | macrostep | invoking => simp [Machine.isBlocked, asked] at blocked
    | _ =>
      rw [asked] at busy
      exact absurd trivial busy
  · simp only [blocked, Bool.not_false, if_true]
    exact .step n (by simpa using blocked)

theorem serveWithin_resting (host : Host σ) {m : Machine} (resting : Resting m.control) (fuel : Nat)
    (s : σ) : host.serveWithin fuel m s = (m, s) := by
  cases fuel with
  | zero => rfl
  | succ fuel =>
    unfold serveWithin
    cases control : m.control with
    | starting | macrostep | effects | invoking | starts =>
      rw [control] at resting
      exact resting.elim
    | _ => rfl

theorem serveWithin_busy (host : Host σ) {m : Machine} (busy : ¬ Resting m.control) (fuel : Nat)
    (s : σ) : host.serveWithin (fuel + 1) m s =
      host.serveWithin fuel (host.answer m s).1 (host.answer m s).2 := by
  rw [serveWithin]
  cases control : m.control with
  | starting | macrostep | effects | invoking | starts => rfl
  | _ =>
    rw [control] at busy
    exact absurd trivial busy

theorem serveWithin_run (host : Host σ) (fuel : Nat) (m : Machine) (s : σ) :
    Machine.Run m (host.serveWithin fuel m s).1 := by
  induction fuel generalizing m s with
  | zero => exact .refl m
  | succ fuel ih =>
    by_cases resting : Resting m.control
    · rw [host.serveWithin_resting resting]
      exact .refl m
    · rw [host.serveWithin_busy resting]
      have begun : Machine.Run m _ := .next (.refl m) (.disturb m m.memory (host.destroyed s) m.reports)
      exact (begun.next (.work (host.answer_work resting s))).trans (ih _ _)

end Host

end Statechart

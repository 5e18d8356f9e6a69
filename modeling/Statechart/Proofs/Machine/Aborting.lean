import Statechart.Proofs.Machine.Orderly

/- Why a data model aborts a run.

   An object takes every definition or, if it is constant, none. Beyond that it can only refuse an
   assignment, and the one that a run depends on is the first of a variable of the chart. -/
namespace Statechart

namespace Heap

variable {h : Heap} {r : Ref} {key : String} {v : Value} {e : ValueError} {readOnly : Bool}

theorem define_refused (refused : h.define r key v readOnly = .error e) (key' : String) (v' : Value) :
    h.define r key' v' readOnly = .error .cannotModify := by
  unfold define writeEntry at refused ⊢
  cases found : h.object? r with
  | none => rfl
  | some o =>
    simp only [found, Bool.false_and, Bool.or_false] at refused ⊢
    split at refused
    · rename_i constant
      rw [if_pos constant]
    · cases refused

theorem set_refused (refused : h.set r key v = .error e) (v' : Value) :
    h.set r key v' = .error .cannotModify := by
  unfold set writeEntry at refused ⊢
  cases found : h.object? r with
  | none => rfl
  | some o =>
    simp only [found] at refused ⊢
    split at refused
    · rename_i kept
      rw [if_pos kept]
    · cases refused

end Heap

namespace Machine

/-- Nothing can be defined in the data model. -/
def Sealed (m : Machine) : Prop :=
  ∀ key v, m.heap.define m.context.dataModel key v true = .error .cannotModify

/-- The data model has no place for one of the variables. -/
def Lacks (m : Machine) (nodes : List DataNode) : Prop :=
  ∃ d ∈ nodes, ∀ v, m.heap.set m.context.dataModel d.id v = .error .cannotModify

/-- The data model takes no system variable, or before the initial entry not all of the chart's. -/
def Refuses (m : Machine) : Prop :=
  m.Sealed ∨ m.context.initialized = false ∧ m.Lacks (m.chart.states.toList.flatMap (·.data))

end Machine

namespace MachineM

variable {α β : Type} {m : Machine} {Q : Machine → Prop}

/-- The data model interrupts the part only for a reason that shows in the machine. -/
def Blames (Q : Machine → Prop) (x : MachineM α) (m : Machine) : Prop :=
  Leads x m (fun _ _ => True) fun i n => ∀ e, i = .fault (.value e) → Q n

namespace Blames

variable {x : MachineM α} {f : α → MachineM β}

theorem bind (first : Blames Q x m) (rest : ∀ a n, x m = .ok a n → Blames Q (f a) n) :
    Blames Q (x >>= f) m := Leads.bind first fun a n run _ => rest a n run

theorem read {f : Machine → MachineM α} (rest : Blames Q (f m) m) :
    Blames Q ((get : MachineM Machine) >>= f) m := Leads.of_eq (get_bind f m) rest

theorem update {f : Machine → Machine} : Blames Q (MachineM.update f) m := trivial

theorem mono {Q' : Machine → Prop} (blames : Blames Q x m) (weaker : ∀ n, Q n → Q' n) :
    Blames Q' x m :=
  Leads.mono blames (fun _ _ _ => id) fun _ n reason e fault => weaker n (reason e fault)

/-- A part that can only break down is not interrupted by the data model. -/
theorem of_keeps {R : Machine → Machine → Prop} (keeps : Keeps R onlyCrash x) : Blames Q x m := by
  refine (keeps m).leads.mono (fun _ _ _ _ => trivial) ?_
  rintro i n ⟨_,crash⟩ e fault
  rw [crash] at fault
  cases fault

theorem leads (blames : Blames Q x m) :
    Leads x m (fun _ _ => True) fun i n => ∀ e, i = .fault (.value e) → Q n := blames

theorem framed (blames : Blames Q x m) (frames : Frames refused x) :
    Blames (fun n => n.frame = m.frame ∧ Q n) x m := by
  have kept := frames m
  unfold KeepsAt at kept
  unfold Blames Leads at blames ⊢
  cases run : x m with
  | ok a n => trivial
  | error i n =>
    rw [run] at kept blames
    exact fun e fault => ⟨kept.1.frame, blames e fault⟩

end Blames

theorem defineVariable_blames (key : String) (v : Value) :
    Blames Machine.Sealed (defineVariable key v) m := by
  refine .read ?_
  unfold Blames Leads requireHeap
  cases defined : m.heap.define m.context.dataModel key v true with
  | ok h => simp only [defined]
  | error e =>
    simp only [defined]
    exact fun _ _ => Heap.define_refused defined

theorem bindEvent_blames (e : Event) : Blames Machine.Sealed (bindEvent e) m :=
  .bind .update fun _ k _ => defineVariable_blames (m := k.withHeap (e.toObject k.heap).1) _ _

theorem assigning_blames (d : DataNode) (v : Value) {n : Machine} (framed : n.frame = m.frame) :
    Blames (fun n => n.Lacks [d]) (requireHeap fun h => h.set m.context.dataModel d.id v) n := by
  have same : n.context.dataModel = m.context.dataModel :=
    congrArg (fun m => m.context.dataModel) framed
  rw [← same]
  unfold Blames Leads requireHeap
  cases assigned : n.heap.set n.context.dataModel d.id v with
  | ok h => simp only [assigned]
  | error e =>
    simp only [assigned]
    exact fun _ _ => ⟨d, List.mem_singleton_self d, Heap.set_refused assigned⟩

theorem declare_blames (d : DataNode) : Blames (fun n => n.Lacks [d]) (declare d) m := by
  refine .read ?_
  simp only
  split
  · exact assigning_blames d _ rfl
  · have frames : Frames onlyCrash (evaluateOr d.expr) := evaluateOr_frames d.expr
    exact .bind (.of_keeps frames) fun v n run => assigning_blames d v ((frames m).of_ok run).frame

theorem declareAll_blames (nodes : List DataNode) :
    Blames (fun n => n.Lacks nodes) (nodes.forM declare) m := by
  induction nodes generalizing m with
  | nil => trivial
  | cons d rest ih =>
    refine .bind ((declare_blames d).mono ?_) fun _ _ _ => ih.mono ?_
    · rintro n ⟨_,here,refused⟩
      cases List.mem_singleton.mp here
      exact ⟨d, List.mem_cons_self, refused⟩
    · rintro n ⟨d',later,refused⟩
      exact ⟨d', List.mem_cons_of_mem _ later, refused⟩

theorem initializeData_blames :
    Blames (fun n => n.Sealed ∨ n.Lacks (m.chart.states.toList.flatMap (·.data)))
      initializeData m := by
  have binding : Frames refused bindSystemVariables :=
    Keeps.bind Keeps.get fun _ => Keeps.bind (defineVariable_frames _ _) fun _ =>
      defineVariable_frames _ _
  have sealed : Blames Machine.Sealed bindSystemVariables m :=
    .read (.bind (defineVariable_blames _ _) fun _ _ _ => defineVariable_blames _ _)
  refine .bind (sealed.mono fun _ => Or.inl) fun _ k run => .read ?_
  have same : k.chart = m.chart := congrArg (fun m => m.chart) ((binding m).of_ok run).frame
  rw [same]
  exact (declareAll_blames _).mono fun _ => Or.inr

theorem look_blames : Blames Machine.Sealed look m := by
  unfold look
  refine .read ?_
  split
  · trivial
  · split
    · trivial
    · have selecting : Frames onlyCrash (selectTransitions none) := selectTransitions_frames none
      refine .bind (.of_keeps selecting) fun enabled n _ => ?_
      split
      · trivial
      · refine .read ?_
        split
        · trivial
        · refine .bind (x := set _) trivial fun _ k _ => .bind (bindEvent_blames _) fun _ l _ => ?_
          exact .bind (.of_keeps (R := Machine.Drifts) (selectTransitions_frames _)) fun _ _ _ => trivial

theorem receive_blames (e : Event) : Blames Machine.Sealed (receive e) m := by
  refine Leads.of_eq (receive_eq e m) (Blames.bind (.bind (bindEvent_blames e) fun _ n _ => ?_) ?_)
  · refine .bind (.of_keeps (passToServices_frames e)) fun _ k _ => ?_
    split
    · trivial
    · trivial
  · exact fun _ n _ => .of_keeps (R := Machine.Drifts) (selectTransitions_frames _)

/-- What a part of a step answers when it comes to its end. -/
def Ongoing : Control → Prop
  | .aborted _ | .crashed => False
  | _ => True

theorem goOn_ongoing (pending : List (StateIndex × Nat)) :
    Leads (goOn pending) m (fun control _ => Ongoing control) fun _ _ => False := by
  cases pending with
  | nil =>
    refine (goOn_nil m).mono (fun control n _ after => ?_) fun _ _ => id
    rcases after.2 with ⟨rfl,_⟩ | rfl
    · trivial
    · trivial
  | cons invoke rest =>
    refine (goOn_cons invoke.1 invoke.2 rest m).mono (fun control n _ after => ?_) fun _ _ => id
    rcases after.2 with rfl | ⟨data,rfl⟩
    · trivial
    · trivial

theorem afterEffects_ongoing (next : AfterEffects) :
    Leads (afterEffects next) m (fun control _ => Ongoing control) fun _ _ => False := by
  cases next with
  | macrostep => trivial
  | exit status => trivial

theorem afterStart_ongoing (data : InvokeData) (pending : List (StateIndex × Nat))
    (failure : Option Failure) :
    Leads (afterStart data pending failure) m (fun control _ => Ongoing control)
      fun _ _ => False := by
  cases failure with
  | none => trivial
  | some f => trivial

/-- A value is what the part of a step stops for only where the data model refuses one. -/
def Explains (part : MachineM Control) (m : Machine) : Prop :=
  Leads part m (fun control _ => Ongoing control) fun i n => ∀ e, i = .fault (.value e) → n.Refuses

theorem Explains.of_ongoing {part : MachineM Control}
    (ongoing : Leads part m (fun control _ => Ongoing control) fun _ _ => False) :
    Explains part m := ongoing.mono (fun _ _ _ => id) fun _ _ => False.elim

theorem Blames.explains {x : MachineM α} {f : α → MachineM Control}
    (blames : Blames Machine.Refuses x m) (rest : ∀ a n, x m = .ok a n → Explains (f a) n) :
    Explains (x >>= f) m := Leads.bind blames fun a n run _ => rest a n run

theorem start_explains : Explains start m := by
  cases entered : m.context.initialized with
  | true =>
    have run := start_again entered
    by_cases done : m.context.done = true
    · exact Leads.of_eq (y := pure (.exited .completed)) (run.trans (if_pos done)) trivial
    · exact Leads.of_eq (y := pure .macrostep) (run.trans (if_neg done)) trivial
  | false =>
    refine Leads.of_eq (start_first entered) (Blames.explains ?_ fun _ n _ => ?_)
    · refine (initializeData_blames.framed initializeData_frames).mono ?_
      rintro n ⟨framed,missing⟩
      have outside : n.context.initialized = m.context.initialized :=
        congrArg (fun m => m.context.initialized) (framed.trans (m.frame_reach _))
      have same : n.chart = (m.reach .started).chart := congrArg (fun m => m.chart) framed
      exact missing.imp id fun lacks => ⟨outside.trans entered, same ▸ lacks⟩
    · split
      · exact nofun
      · exact Blames.explains (.of_keeps (enterStates_shell _)) fun _ _ _ => trivial

theorem pass_explains (enabled : List TransitionIndex) : Explains (pass enabled) m := by
  have taking : Blames Machine.Refuses (microstep enabled) { m with steps := m.steps + 1 } :=
    .of_keeps (microstep_shell enabled)
  exact Leads.pass (fun _ => nofun) trivial (taking.leads.mono (fun _ _ _ _ => trivial) fun _ _ => id)

theorem act_explains (found : Found) : Explains (act found) m := by
  cases found with
  | completion =>
    refine (complete_leads m).mono (fun control _ _ ended => ?_) fun i _ stopped => ?_
    · exact ended.1 ▸ trivial
    · exact stopped.1 ▸ nofun
  | destruction => trivial
  | stability => trivial
  | transitions event enabled => exact pass_explains enabled

theorem macrostep_explains : Explains macrostep m := by
  rw [macrostep_eq]
  exact (look_blames.mono fun _ => Or.inl).explains fun found n _ => act_explains found

theorem process_explains (e : Event) : Explains (process e) m := by
  rw [process_eq]
  refine ((receive_blames e).mono fun _ => Or.inl).explains fun enabled n _ => ?_
  unfold respond
  simp only
  split
  · have taking : Blames Machine.Refuses (microstep enabled) { n with steps := n.steps + 1 } :=
      .of_keeps (microstep_shell enabled)
    exact taking.explains fun _ _ _ => trivial
  · trivial

end MachineM

namespace Machine

open MachineM

variable {m m' : Machine} {v : ValueError}

theorem proceed_refuses {part : MachineM Control} (explains : Explains part m)
    (aborted : (m.proceed part).control = .aborted (.value v)) :
    ∃ k, m.proceed part = proceed.abort k (.value v) ∧ k.Refuses := by
  revert aborted
  refine proceed_leads (T := fun n => n.control = .aborted (.value v) →
    ∃ k, n = proceed.abort k (.value v) ∧ k.Refuses) explains ?_ ?_ ?_ ?_
  · intro control n _ ongoing aborted
    cases aborted
    exact ongoing.elim
  · intro f n refuses aborted
    cases aborted
    exact ⟨n, rfl, refuses v rfl⟩
  · intro f n _ aborted
    cases aborted
  · intro n _ aborted
    cases aborted

/-- A run that is aborted by a value was refused a variable. -/
theorem work_refuses (work : Work m m') (aborted : m'.control = .aborted (.value v)) :
    ∃ k, m' = proceed.abort k (.value v) ∧ k.Refuses := by
  cases work.worked with
  | start => exact proceed_refuses start_explains aborted
  | macrostep => exact proceed_refuses macrostep_explains aborted
  | goOn => exact proceed_refuses (.of_ongoing (goOn_ongoing _)) aborted
  | effects => exact proceed_refuses (.of_ongoing (afterEffects_ongoing _)) aborted
  | started => exact proceed_refuses (.of_ongoing (afterStart_ongoing _ _ _)) aborted

theorem take_event_refuses (waiting : m.control = .waiting) {e : Event}
    (aborted : (m.take (.event e)).control = .aborted (.value v)) :
    ∃ k, m.take (.event e) = proceed.abort k (.value v) ∧ k.Refuses := by
  rw [take_waiting waiting] at aborted ⊢
  exact proceed_refuses (process_explains e) aborted

end Machine

end Statechart

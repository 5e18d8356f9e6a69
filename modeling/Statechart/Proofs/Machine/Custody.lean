import Statechart.Proofs.Machine.Orderly
import Statechart.Proofs.Machine.Showing
import Statechart.Proofs.Value.Realm

/- What a machine does to the containers around it. It holds values in its data model, its queue and
   its effects; all of them lie within the machine's realm, and each part of a step keeps to it. -/
namespace Statechart

open Heap (Closes Meets Owns Confines Respects)

/-- The host's action keeps to the realm of whoever runs it. -/
def CustomAction.Behaves (D : Realm) (P : Ref → String → Prop) (action : CustomAction) : Prop :=
  ∀ h data, h.Closes D → Owns D h (.object data) →
    match action h data with
    | .done h' | .failed h' _ => Confines D h h' ∧ Respects P h h'
    | .crashed => True

/-- The host's actions in a chart do. -/
abbrev Chart.Behaves (D : Realm) (P : Ref → String → Prop) (c : Chart) : Prop :=
  c.Customs (CustomAction.Behaves D P)

/-- The values that an effect takes out of a machine. -/
def Effect.values : Effect → List Value
  | .send e => [e.data]
  | .forward _ e => [e.data]
  | .cancel _ | .cancelInvoke _ => []

/-- The values that a machine waits with. -/
def Control.values : Control → List Value
  | .starts data _ => [data.content, data.parameters]
  | _ => []

namespace Machine

/-- The values that a machine holds outside of its data. -/
def holdings (m : Machine) : List Value :=
  m.context.internalQueue.map (·.data) ++ m.effects.flatMap Effect.values ++
    m.context.result :: m.control.values

variable {D : Realm} {P : Ref → String → Prop} {m n k : Machine} {h : Heap} {v : Value}

/-- A machine keeps to its realm. -/
structure Abides (D : Realm) (m : Machine) : Prop where
  closes : m.heap.Closes D
  data : Owns D m.heap (.object m.context.dataModel)
  arguments : ∀ r, m.options.arguments = some r → Owns D m.heap (.object r)
  holdings : ∀ v ∈ m.holdings, Meets D m.heap v

/-- What a part of a step may do to a machine. -/
structure Minds (D : Realm) (P : Ref → String → Prop) (m n : Machine) : Prop where
  confines : Confines D m.heap n.heap
  respects : Respects P m.heap n.heap
  setting : n.setting = m.setting
  data : n.context.dataModel = m.context.dataModel
  holdings : ∀ v ∈ n.holdings, Meets D n.heap v

theorem Minds.chart (minds : Minds D P m n) : n.chart = m.chart := congrArg Prod.fst minds.setting

theorem Minds.options (minds : Minds D P m n) : n.options = m.options :=
  congrArg Prod.snd minds.setting

theorem Minds.behaves (minds : Minds D P m n) (behave : m.chart.Behaves D P) :
    n.chart.Behaves D P := minds.chart ▸ behave

theorem Minds.matures (minds : Minds D P m n) : m.heap.Matures n.heap := minds.confines.matures

theorem Minds.refl (abides : m.Abides D) : Minds D P m m :=
  ⟨.refl abides.closes, .refl P _, rfl, rfl, abides.holdings⟩

theorem Minds.trans (first : Minds D P m n) (second : Minds D P n k) : Minds D P m k where
  confines := first.confines.trans second.confines
  respects := first.respects.trans second.respects
  setting := second.setting.trans first.setting
  data := second.data.trans first.data
  holdings := second.holdings

theorem Minds.abides (minds : Minds D P m n) (abides : m.Abides D) : n.Abides D where
  closes := minds.confines.closes
  data := minds.data ▸ abides.data.mono minds.matures
  arguments r own := (abides.arguments r (minds.options ▸ own)).mono minds.matures
  holdings := minds.holdings

theorem Minds.weaken {P' : Ref → String → Prop} (minds : Minds D P m n)
    (weaker : ∀ r key, P' r key → P r key) : Minds D P' m n :=
  ⟨minds.confines, fun r key slot kept => minds.respects r key slot (weaker r key kept),
    minds.setting, minds.data, minds.holdings⟩

theorem Minds.withHeap (abides : m.Abides D) (confines : Confines D m.heap h)
    (respects : Respects P m.heap h) : Minds D P m (m.withHeap h) :=
  ⟨confines, respects, rfl, rfl, fun v held => (abides.holdings v held).mono confines.matures⟩

/-- A change of what does not concern the data. -/
theorem Minds.shift (abides : m.Abides D) (heap : n.heap = m.heap) (setting : n.setting = m.setting)
    (data : n.context.dataModel = m.context.dataModel)
    (holdings : ∀ v ∈ n.holdings, v ∈ m.holdings ∨ Meets D m.heap v) : Minds D P m n where
  confines := by
    rw [heap]
    exact .refl abides.closes
  respects := by
    rw [heap]
    exact .refl P _
  setting := setting
  data := data
  holdings v held := by
    rw [heap]
    exact (holdings v held).elim (abides.holdings v) id

theorem mem_holdings_enqueue {e : Event} (held : v ∈ (m.enqueue e).holdings) :
    v ∈ m.holdings ∨ v = e.data := by
  simp only [holdings, enqueue, List.map_append, List.map_cons, List.map_nil, List.mem_append,
    List.mem_cons, List.not_mem_nil, or_false] at held ⊢
  tauto

theorem mem_holdings_emit {e : Effect} (held : v ∈ (m.emit e).holdings) :
    v ∈ m.holdings ∨ v ∈ e.values := by
  simp only [holdings, emit, List.flatMap_append, List.flatMap_cons, List.flatMap_nil,
    List.append_nil, List.mem_append, List.mem_cons] at held ⊢
  tauto

theorem Minds.enqueue (abides : m.Abides D) {e : Event} (meets : Meets D m.heap e.data) :
    Minds D P m (m.enqueue e) := by
  refine .shift abides rfl rfl rfl fun v held => ?_
  rcases mem_holdings_enqueue held with old | rfl
  · exact Or.inl old
  · exact Or.inr meets

theorem Minds.emit (abides : m.Abides D) {e : Effect} (meets : ∀ v ∈ e.values, Meets D m.heap v) :
    Minds D P m (m.emit e) := by
  refine .shift abides rfl rfl rfl fun v held => ?_
  exact (mem_holdings_emit held).imp id (meets v)

theorem Minds.raiseFailure (abides : m.Abides D) (f : Failure) :
    Minds D P m (m.raiseFailure f) := by
  have built := abides.closes.build (.object [("message", .string f.message)])
  have grown : Minds D P m (m.withHeap (Event.ofFailure m.heap f).1) :=
    .withHeap abides built.1 (.extend P (MachineM.extends_ofFailure m.heap f))
  exact grown.trans (.enqueue (grown.abides abides) built.2.toMeets)

theorem Minds.trace (abides : m.Abides D) (r : TraceRecord) : Minds D P m (m.trace r) := by
  have told : Minds D P m (m.tell (.trace r)) :=
    .shift abides rfl rfl rfl fun v held => Or.inl held
  unfold Machine.trace
  split
  · exact .refl abides
  · simp only
    split
    · exact told.trans (.raiseFailure (told.abides abides) _)
    · exact told

theorem Minds.reach (abides : m.Abides D) (point : LifePoint) : Minds D P m (m.reach point) := by
  have traced : Minds D P m (m.trace (.point point)) := .trace abides _
  exact traced.trans (.shift (traced.abides abides) rfl rfl rfl fun v held => Or.inl held)

theorem Minds.raiseFailures (abides : m.Abides D) (failures : List Failure) :
    Minds D P m (failures.foldl Machine.raiseFailure m) := by
  induction failures generalizing m with
  | nil => exact .refl abides
  | cons f rest ih =>
    have first : Minds D P m (m.raiseFailure f) := .raiseFailure abides f
    exact first.trans (ih (first.abides abides))

end Machine

namespace MachineM

open Machine

variable {α β : Type} {D : Realm} {P : Ref → String → Prop} {m n : Machine} {v : Value}
  {Q : α → Machine → Prop} {S : β → Machine → Prop}

/-- The part, taken up in `m`, keeps to the realm however it ends, and comes to `Q` if it comes to
    its end. -/
def Obeys (D : Realm) (P : Ref → String → Prop) (x : MachineM α) (m : Machine)
    (Q : α → Machine → Prop) : Prop :=
  Leads x m (fun a n => Minds D P m n ∧ Q a n) fun _ n => Minds D P m n

/-- The part keeps to the realm. -/
abbrev ObeysAt (D : Realm) (P : Ref → String → Prop) (x : MachineM α) (m : Machine) : Prop :=
  Obeys D P x m fun _ _ => True

section Obeys

variable {x : MachineM α} {f : α → MachineM β}

/-- The rest may depend on what the first part has come to. -/
theorem Obeys.bind_run (first : Obeys D P x m Q)
    (rest : ∀ a n, x m = .ok a n → Minds D P m n → Q a n → Obeys D P (f a) n S) :
    Obeys D P (x >>= f) m S := by
  refine Leads.bind first fun a n run came => ?_
  exact (rest a n run came.1 came.2).mono (fun b k _ later => ⟨came.1.trans later.1, later.2⟩)
    fun _ k stopped => came.1.trans stopped

theorem Obeys.bind (first : Obeys D P x m Q)
    (rest : ∀ a n, Minds D P m n → Q a n → Obeys D P (f a) n S) : Obeys D P (x >>= f) m S :=
  first.bind_run fun a n _ => rest a n

theorem Obeys.pure (abides : m.Abides D) {a : α} (holds : Q a m) :
    Obeys D P (Pure.pure a) m Q := ⟨.refl abides, holds⟩

theorem Obeys.fail (abides : m.Abides D) (e : Failure) : Obeys D P (MachineM.fail e) m Q :=
  Minds.refl (P := P) abides

theorem Obeys.throw (abides : m.Abides D) (i : Interrupt) :
    Obeys D P (MonadExcept.throw i : MachineM α) m Q := Minds.refl (P := P) abides

theorem Obeys.update {g : Machine → Machine} (minds : Minds D P m (g m)) :
    ObeysAt D P (MachineM.update g) m := ⟨minds, trivial⟩

theorem Obeys.forM {l : List β} {f : β → MachineM Unit} (abides : m.Abides D)
    (each : ∀ b ∈ l, ∀ n, Minds D P m n → ObeysAt D P (f b) n) : ObeysAt D P (l.forM f) m := by
  induction l generalizing m with
  | nil => exact .pure abides trivial
  | cons b rest ih =>
    refine .bind (each b List.mem_cons_self m (.refl abides)) fun _ n minds _ => ?_
    exact ih (minds.abides abides) fun d later k minds' =>
      each d (List.mem_cons_of_mem _ later) k (minds.trans minds')

/-- A part that looks at the machine first. -/
theorem Obeys.read {f : Machine → MachineM β} (obeys : Obeys D P (f m) m S) :
    Obeys D P ((MonadState.get : MachineM Machine) >>= f) m S := obeys

theorem Obeys.of_eq {y : MachineM α} (minds : Minds D P m n) (same : x m = y n)
    (obeys : Obeys D P y n Q) : Obeys D P x m Q := by
  refine Leads.of_eq same (Leads.mono obeys ?_ ?_)
  · exact fun _ _ _ came => ⟨minds.trans came.1, came.2⟩
  · exact fun _ _ stopped => minds.trans stopped

end Obeys

section Evaluating

theorem evaluate_obeys (abides : m.Abides D) (e : Expr) :
    Obeys D P (evaluate e) m fun v n => Owns D n.heap v := by
  unfold Obeys Leads evaluate
  cases run : e.eval m.scope m.heap with
  | ok made =>
    obtain ⟨confines,owns⟩ := abides.closes.eval abides.data e run
    exact ⟨.withHeap abides confines (.extend P (Heap.extends_eval e run)), owns⟩
  | error f => exact .refl abides

theorem freshId_obeys (abides : m.Abides D) : ObeysAt D P freshId m :=
  ⟨.shift abides rfl rfl rfl fun _ held => Or.inl held, trivial⟩

theorem expectString_obeys (abides : m.Abides D) (what : String) (v : Value) :
    ObeysAt D P (expectString what v) m := by
  unfold expectString
  split
  · exact .pure abides trivial
  · exact .fail abides _

theorem orFail_obeys (abides : m.Abides D) (x : Except Fault α) : ObeysAt D P (orFail x) m := by
  unfold orFail
  split
  · exact .pure abides trivial
  · exact .fail abides _

theorem textOf_obeys (abides : m.Abides D) (what : String) (t : Option String) (e : Option Expr) :
    ObeysAt D P (textOf what t e) m := by
  unfold textOf
  split
  · exact .pure abides trivial
  · refine .bind (evaluate_obeys abides _) fun v n minds _ => ?_
    have abides := minds.abides abides
    refine .bind (expectString_obeys abides what v) fun _ k minds _ => ?_
    exact .pure (minds.abides abides) trivial
  · exact .pure abides trivial

/-- Whatever comes of a failure, the machine is told. -/
theorem recovering_obeys {x : MachineM Unit} (abides : m.Abides D) (obeys : ObeysAt D P x m) :
    ObeysAt D P (recovering x) m := by
  unfold ObeysAt Obeys Leads recovering at *
  cases run : x m with
  | ok u n =>
    rw [run] at obeys
    exact obeys
  | error i n =>
    rw [run] at obeys
    cases i with
    | failure f => exact ⟨obeys.trans (.raiseFailure (obeys.abides abides) f), trivial⟩
    | fault f => exact obeys
    | crash => exact obeys

theorem evaluateOr_obeys (abides : m.Abides D) (e : Option Expr) :
    Obeys D P (evaluateOr e) m fun v n => Owns D n.heap v := by
  cases e with
  | none => exact ⟨.refl abides, .of_bare rfl⟩
  | some e =>
    have inner := evaluate_obeys (P := P) abides e
    unfold Obeys Leads at inner ⊢
    simp only [evaluateOr]
    cases run : evaluate e m with
    | ok v n =>
      rw [run] at inner
      exact inner
    | error i n =>
      rw [run] at inner
      cases i with
      | failure f => exact ⟨inner.trans (.raiseFailure (inner.abides abides) f), .of_bare rfl⟩
      | fault f => exact inner
      | crash => exact inner

theorem conditionHolds_obeys (abides : m.Abides D) (t : TransitionIndex) :
    ObeysAt D P (conditionHolds t) m := by
  unfold ObeysAt Obeys Leads conditionHolds
  cases (m.chart.transition t).condition with
  | none => exact ⟨.refl abides, trivial⟩
  | some cond =>
    have inner := evaluate_obeys (P := P) abides cond
    unfold Obeys Leads at inner
    simp only
    cases run : evaluate cond m with
    | ok v n =>
      rw [run] at inner
      exact ⟨inner.1, trivial⟩
    | error i n =>
      rw [run] at inner
      cases i with
      | failure f => exact ⟨inner.trans (.raiseFailure (inner.abides abides) f), trivial⟩
      | fault f => exact inner
      | crash => exact inner

theorem firstEnabled_obeys (abides : m.Abides D) (event : Option EventName)
    (candidates : List TransitionIndex) : ObeysAt D P (firstEnabled event candidates) m := by
  induction candidates generalizing m with
  | nil => exact .pure abides trivial
  | cons t rest ih =>
    rw [firstEnabled]
    refine .read ?_
    split
    · refine .bind (conditionHolds_obeys abides t) fun holds n minds _ => ?_
      split
      · exact .pure (minds.abides abides) trivial
      · exact ih (minds.abides abides)
    · exact ih abides

theorem collectEnabled_obeys (abides : m.Abides D) (event : Option EventName)
    (states : List StateIndex) (enabled : List TransitionIndex) :
    ObeysAt D P (collectEnabled event states enabled) m := by
  induction states generalizing m enabled with
  | nil => exact .pure abides trivial
  | cons s rest ih =>
    rw [collectEnabled]
    refine .read (.bind (firstEnabled_obeys abides event _) fun found n minds _ => ?_)
    split
    · exact ih (minds.abides abides) _
    · exact ih (minds.abides abides) _

theorem selectTransitions_obeys (abides : m.Abides D) (event : Option EventName) :
    ObeysAt D P (selectTransitions event) m := by
  unfold selectTransitions
  refine .read (.bind (collectEnabled_obeys abides event _ _) fun enabled n minds _ => ?_)
  have abides := minds.abides abides
  refine .read ?_
  split
  · exact Obeys.throw (Q := fun _ _ => True) abides _
  · exact .pure abides trivial

end Evaluating

section Content

theorem changeHeap_obeys (abides : m.Abides D) {f : Heap → Except ValueError Heap}
    (change : ∀ h, f m.heap = .ok h → Confines D m.heap h ∧ Respects P m.heap h) :
    ObeysAt D P (changeHeap f) m := by
  unfold ObeysAt Obeys Leads changeHeap
  cases run : f m.heap with
  | ok h => exact ⟨.withHeap abides (change h run).1 (change h run).2, trivial⟩
  | error e => exact .refl abides

theorem assign_obeys (abides : m.Abides D) (location : List String) (owns : Owns D m.heap v) :
    ObeysAt D P (assign location v) m := by
  unfold ObeysAt Obeys Leads assign
  cases location with
  | nil => exact .refl abides
  | cons head rest =>
    simp only
    cases m.heap.contains m.context.dataModel head with
    | false => exact .refl abides
    | true =>
      simp only [Bool.not_true, Bool.false_eq_true, if_false]
      cases run : m.heap.setPath m.context.dataModel (head :: rest) v with
      | ok h =>
        have confines := abides.closes.setPath abides.data owns run
        exact ⟨.withHeap abides confines (Heap.setPath_respects P run), trivial⟩
      | error e => exact .refl abides

theorem paramsObject_obeys (abides : m.Abides D) (params : List Param) :
    Obeys D P (paramsObject params) m fun v n => Owns D n.heap v := by
  obtain ⟨confines,owns⟩ := abides.closes.newObject
  have made : Minds D P m (m.withHeap m.heap.newObject.1) :=
    .withHeap abides confines (.extend P (Heap.extends_alloc m.heap _))
  have filled : Obeys D P (do
      params.forM fun p => do
        let v ← evaluate p.expr
        changeHeap fun h => h.set m.heap.newObject.2 p.name v
      return Value.object m.heap.newObject.2) (m.withHeap m.heap.newObject.1)
      fun v n => Owns D n.heap v := by
    have abides := made.abides abides
    refine .bind (.forM abides fun p _ n minds => ?_) fun _ n minds _ => ?_
    · have abides := minds.abides abides
      refine .bind (evaluate_obeys abides p.expr) fun v k minds' value => ?_
      have target := (owns.mono minds.matures).mono minds'.matures
      refine changeHeap_obeys (minds'.abides abides) fun h run => ?_
      exact ⟨minds'.confines.closes.writeEntry target value run,
        Heap.writeEntry_respects P run⟩
    · exact .pure (minds.abides abides) (owns.mono minds.matures)
  exact .of_eq made rfl filled

theorem sendName_obeys (abides : m.Abides D) (s : SendAction) : ObeysAt D P (sendName s) m := by
  unfold sendName
  split
  · exact .pure abides trivial
  · refine .bind (evaluate_obeys abides _) fun v n minds _ => ?_
    have abides := minds.abides abides
    refine .bind (expectString_obeys abides _ v) fun text k minds _ => ?_
    exact orFail_obeys (minds.abides abides) _
  · exact .fail abides _

theorem sendDelay_obeys (abides : m.Abides D) (s : SendAction) : ObeysAt D P (sendDelay s) m := by
  unfold sendDelay
  split
  · exact .pure abides trivial
  · refine .bind (evaluate_obeys abides _) fun v n minds _ => ?_
    have abides := minds.abides abides
    split
    · split
      · exact .pure abides trivial
      · exact .fail abides _
    · exact orFail_obeys abides _
    · exact .read (.fail abides _)
  · exact .pure abides trivial

theorem payload_obeys (abides : m.Abides D) (content : Option Expr) (params : List Param) :
    Obeys D P (payload content params) m fun v n => Owns D n.heap v := by
  unfold payload
  split
  · exact evaluate_obeys abides _
  · split
    · exact .pure abides (.of_bare rfl)
    · exact paramsObject_obeys abides params

theorem sendIdOf_obeys (abides : m.Abides D) (s : SendAction) (delay : Nanos) :
    ObeysAt D P (sendIdOf s delay) m := by
  unfold sendIdOf
  split
  · exact .pure abides trivial
  · refine .bind (freshId_obeys abides) fun _ n minds _ => ?_
    exact .pure (minds.abides abides) trivial
  · split
    · refine .bind (freshId_obeys abides) fun _ n minds _ => ?_
      exact .pure (minds.abides abides) trivial
    · exact .pure abides trivial

theorem send_obeys (abides : m.Abides D) (s : SendAction) : ObeysAt D P (send s) m := by
  unfold send
  refine .bind (sendName_obeys abides s) fun name n minds _ => ?_
  replace abides := minds.abides abides
  refine .bind (textOf_obeys abides _ _ _) fun target n minds _ => ?_
  replace abides := minds.abides abides
  refine .bind (sendDelay_obeys abides s) fun delay n minds _ => ?_
  replace abides := minds.abides abides
  refine .bind (payload_obeys abides _ _) fun data n minds owns => ?_
  replace abides := minds.abides abides
  refine .bind (sendIdOf_obeys abides s delay) fun sendId n minds _ => ?_
  replace abides := minds.abides abides
  replace owns := owns.mono minds.matures
  have leaving {k : Machine} (abides : k.Abides D) (owns : Owns D k.heap data) :
      ObeysAt D P (if target = some internalTarget then
        if delay ≠ 0 then fail (.execution "delayed send to #_internal is not supported")
        else update fun m => m.enqueue { name, type := .internal, sendId, data }
      else update fun m =>
        m.emit (.send { name, sendId, target, type := s.type, delay, data })) k := by
    split
    · split
      · exact .fail abides _
      · exact .update (.enqueue abides owns.toMeets)
    · refine .update (.emit abides fun v held => ?_)
      rw [List.mem_singleton.mp held]
      exact owns.toMeets
  simp only
  split
  · refine .bind (assign_obeys abides _ (.of_bare rfl)) fun _ k minds _ => ?_
    exact leaving (minds.abides abides) (owns.mono minds.matures)
  · exact leaving abides owns

theorem write_obeys (abides : m.Abides D) (label : Option String) (v : Value) : ObeysAt D P (do
    let m ← get
    match m.options.logger.logFault label with
    | some source => fail (m.platformFailure source)
    | none => set (m.tell (.log label (m.heap.display v)))) m := by
  refine .read ?_
  split
  · exact .fail abides _
  · exact ⟨.shift abides rfl rfl rfl fun _ held => Or.inl held, trivial⟩

theorem log_obeys (abides : m.Abides D) (label : Option String) (e : Option Expr) :
    ObeysAt D P (log label e) m := by
  unfold log
  cases e with
  | some e =>
    exact .bind (evaluate_obeys abides e) fun v n minds _ =>
      write_obeys (minds.abides abides) label v
  | none => exact write_obeys abides label .undefined

theorem cancel_obeys (abides : m.Abides D) (id : Option SendId) (e : Option Expr) :
    ObeysAt D P (cancel id e) m := by
  unfold cancel
  refine .bind (textOf_obeys abides _ _ _) fun text n minds _ => ?_
  have abides := minds.abides abides
  split
  · exact .update (.emit abides fun _ none => by cases none)
  · exact .fail abides _

theorem arrayItems_obeys (abides : m.Abides D) (owns : Owns D m.heap v) :
    Obeys D P (arrayItems v) m fun items n => ∀ item ∈ items, Owns D n.heap item := by
  unfold arrayItems
  split
  · rename_i r
    refine .read (.pure abides fun item held => ?_)
    obtain ⟨slot,within,rfl⟩ := List.mem_map.mp held
    exact abides.closes.child owns rfl (Heap.mem_children_of_item within)
  · exact .fail abides _

theorem custom_obeys (abides : m.Abides D) (name : String) {action : CustomAction}
    (behaves : action.Behaves D P) : ObeysAt D P (custom name action) m := by
  have result := behaves m.heap m.context.dataModel abides.closes abides.data
  unfold ObeysAt Obeys Leads custom
  cases run : action m.heap m.context.dataModel with
  | done h =>
    rw [run] at result
    exact ⟨.withHeap abides result.1 result.2, trivial⟩
  | failed h f =>
    rw [run] at result
    exact .withHeap abides result.1 result.2
  | crashed => exact .refl abides

mutual

theorem execute_obeys : ∀ (a : Action) {m : Machine}, m.Abides D →
    a.Customs (CustomAction.Behaves D P) → ObeysAt D P (execute a) m
  | .raise event, _, abides, _ => by
    rw [execute]
    exact .update (.enqueue abides (Owns.of_bare rfl).toMeets)
  | .send s, _, abides, _ => by
    rw [execute]
    exact send_obeys abides s
  | .cancel id e, _, abides, _ => by
    rw [execute]
    exact cancel_obeys abides id e
  | .log label e, _, abides, _ => by
    rw [execute]
    exact log_obeys abides label e
  | .assign location e, _, abides, _ => by
    rw [execute]
    refine .bind (evaluate_obeys abides e) fun v n minds owns => ?_
    exact assign_obeys (minds.abides abides) location owns
  | .branch arms, _, abides, behave => by
    rw [execute]
    exact executeArms_obeys arms abides behave
  | .forEach array item index actions, m, abides, behave => by
    rw [execute]
    have body {k : Machine} (abides : k.Abides D) : ObeysAt D P (executeAll actions) k :=
      executeAll_obeys actions abides behave
    refine .bind (evaluate_obeys abides array) fun v n minds owns => ?_
    have abides := minds.abides abides
    refine .bind (arrayItems_obeys abides owns) fun values n minds owned => ?_
    have abides := minds.abides abides
    refine .forM abides fun entry within k minds => ?_
    obtain ⟨v,i⟩ := entry
    have owns := (owned v (List.fst_mem_of_mem_zipIdx within)).mono minds.matures
    refine .bind (assign_obeys (minds.abides abides) item owns) fun _ k' minds' _ => ?_
    have abides := minds'.abides (minds.abides abides)
    split
    · refine .bind (assign_obeys abides _ (.of_bare rfl)) fun _ _ minds _ => ?_
      exact body (minds.abides abides)
    · exact body abides
  | .custom name action, _, abides, behaves => by
    rw [execute]
    exact custom_obeys abides name behaves

theorem executeAll_obeys : ∀ (actions : List Action) {m : Machine}, m.Abides D →
    Action.customsOfAll (CustomAction.Behaves D P) actions → ObeysAt D P (executeAll actions) m
  | [], _, abides, _ => by
    rw [executeAll]
    exact .pure abides trivial
  | a :: rest, _, abides, behave => by
    rw [executeAll]
    refine .bind (execute_obeys a abides behave.1) fun _ n minds _ => ?_
    exact executeAll_obeys rest (minds.abides abides) behave.2

theorem executeArms_obeys : ∀ (arms : List (Option Expr × List Action)) {m : Machine},
    m.Abides D → Action.customsOfArms (CustomAction.Behaves D P) arms →
      ObeysAt D P (executeArms arms) m
  | [], _, abides, _ => by
    rw [executeArms]
    exact .pure abides trivial
  | (none, actions) :: _, _, abides, behave => by
    rw [executeArms]
    exact executeAll_obeys actions abides behave.1
  | (some cond, actions) :: rest, _, abides, behave => by
    rw [executeArms]
    have yes {k : Machine} (abides : k.Abides D) : ObeysAt D P (executeAll actions) k :=
      executeAll_obeys actions abides behave.1
    have no {k : Machine} (abides : k.Abides D) : ObeysAt D P (executeArms rest) k :=
      executeArms_obeys rest abides behave.2
    refine .bind (evaluate_obeys abides cond) fun v n minds _ => ?_
    split
    · exact yes (minds.abides abides)
    · exact no (minds.abides abides)

end

theorem executeBlock_obeys {actions : List Action} (abides : m.Abides D)
    (behave : Action.customsOfAll (CustomAction.Behaves D P) actions) :
    ObeysAt D P (executeBlock actions) m :=
  recovering_obeys abides (executeAll_obeys actions abides behave)

end Content

end MachineM

end Statechart

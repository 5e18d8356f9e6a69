import Statechart.Proofs.Machine.Parts
import Statechart.Proofs.Value.Correspondence

/- Looking for transitions a second time. Two machines in the same configuration whose conditions
   see alike data select alike; what is selected does not depend on where the data is. So where one
   of them finds no transition and no condition fails, the other finds none either. -/
namespace Statechart

namespace Machine

/-- Only new containers have come into being. -/
def Grew (m m' : Machine) : Prop := ∃ h, m.heap.Extends h ∧ m' = m.withHeap h

theorem Grew.refl (m : Machine) : m.Grew m := ⟨m.heap, .refl _, rfl⟩

theorem Grew.trans {m m' m'' : Machine} (first : m.Grew m') (second : m'.Grew m'') :
    m.Grew m'' := by
  obtain ⟨h,grown,rfl⟩ := first
  obtain ⟨h',grown',rfl⟩ := second
  exact ⟨h', grown.trans grown', rfl⟩

/-- The two machines stand in the same configuration of the same chart, and what the conditions of
    transitions without event read is alike in their data. -/
structure Mirrors (p : Pairing) (m n : Machine) : Prop where
  chart : n.chart = m.chart
  configuration : n.context.configuration = m.context.configuration
  corresponds : Heap.Corresponds p m.heap n.heap
  begins : ∀ t cond path, m.chart.triggered none t = true →
    (m.chart.transition t).condition = some cond → cond.Reads path →
    Expr.Begins p m.heap n.heap m.context.dataModel n.context.dataModel path

/-- Both machines have gone on in the same way. -/
structure Followed (m n m' n' : Machine) : Prop where
  mirrors : ∃ q, Mirrors q m' n'
  left : m.Grew m'
  right : n.Grew n'

variable {p q : Pairing} {m n : Machine}

theorem Mirrors.scope (mirrors : Mirrors p m n) : n.isInState = m.isInState := by
  funext id
  simp only [isInState, isActive, mirrors.chart, mirrors.configuration]

theorem Followed.refl (mirrors : Mirrors p m n) : Followed m n m n :=
  ⟨⟨p, mirrors⟩, .refl m, .refl n⟩

theorem Mirrors.grow {h h' : Heap} (mirrors : Mirrors p m n)
    (grown : Heap.Grown p m.heap n.heap q h h') :
    Mirrors q (m.withHeap h) (n.withHeap h') where
  chart := mirrors.chart
  configuration := mirrors.configuration
  corresponds := grown.corresponds
  begins t cond path trigger condition reads :=
    (mirrors.begins t cond path trigger condition reads).grow grown

/-- The queue has not become shorter. -/
def Queued (m m' : Machine) : Prop :=
  m.context.internalQueue.length ≤ m'.context.internalQueue.length

instance : MachineM.Tolerant Queued where
  refl _ := Nat.le_refl _
  trans := Nat.le_trans
  withHeap _ _ := Nat.le_refl _
  freshId _ := Nat.le_refl _
  enqueue m e := by simp [Queued, enqueue]
  tell _ _ := Nat.le_refl _

end Machine

namespace MachineM

open Machine

variable {α : Type} {p : Pairing} {m m' n n' : Machine}

/-- Whatever the part does in `m` without queueing an event it does in `n` too. -/
def Reflected (part : MachineM α) (m n : Machine) : Prop :=
  ∀ a m', part m = .ok a m' → m'.context.internalQueue.length = m.context.internalQueue.length →
    ∃ n', part n = .ok a n' ∧ Followed m n m' n'

theorem Reflected.pure (mirrors : Mirrors p m n) (a : α) :
    Reflected (Pure.pure a : MachineM α) m n := by
  intro b m' run _
  cases run
  exact ⟨n, rfl, .refl mirrors⟩

/-- Parts in a row. Nothing is queued by either of them, since the queue does not shrink. -/
theorem Reflected.bind {β : Type} {x : MachineM α} {f : α → MachineM β} (first : Reflected x m n)
    (longer : Keeps Queued onlyCrash x) (longer' : ∀ a, Keeps Queued onlyCrash (f a))
    (later : ∀ {a q k l}, Mirrors q k l → Reflected (f a) k l) : Reflected (x >>= f) m n := by
  intro b m' run quiet
  obtain ⟨a,k,run₁,run₂⟩ := bind_eq_ok run
  have up : m.context.internalQueue.length ≤ _ := (longer m).of_ok run₁
  have up' : k.context.internalQueue.length ≤ _ := (longer' a k).of_ok run₂
  obtain ⟨l,same₁,⟨q,mirrors⟩,left,right⟩ := first a k run₁ (by omega)
  obtain ⟨n',same₂,others,left',right'⟩ := later mirrors b m' run₂ (by omega)
  exact ⟨n', (bind_of_ok f same₁).trans same₂, others, left.trans left', right.trans right'⟩

theorem conditionHolds_reflected (mirrors : Mirrors p m n) {t : TransitionIndex}
    (triggered : m.chart.triggered none t = true) : Reflected (conditionHolds t) m n := by
  intro b m' run quiet
  unfold conditionHolds at run ⊢
  rw [mirrors.chart]
  cases condition : (m.chart.transition t).condition with
  | none =>
    rw [condition] at run
    cases run
    exact ⟨n, rfl, .refl mirrors⟩
  | some cond =>
    rw [condition] at run
    have alike := Expr.eval_alike cond m.isInState mirrors.corresponds fun path reads =>
      mirrors.begins t cond path triggered condition reads
    have scope : n.scope = ⟨n.context.dataModel, m.isInState⟩ := by rw [Machine.scope, mirrors.scope]
    unfold evaluate at run ⊢
    simp only at run ⊢
    rw [scope]
    change Expr.Alike p m.heap n.heap (cond.eval m.scope m.heap) _ at alike
    cases left : cond.eval m.scope m.heap with
    | error f =>
      -- The failure has been queued.
      rw [left] at run
      cases run
      simp [raiseFailure, enqueue, withHeap] at quiet
    | ok made =>
      rw [left] at run alike
      cases right : cond.eval ⟨n.context.dataModel, m.isInState⟩ n.heap with
      | error f =>
        rw [right] at alike
        cases alike
      | ok made' =>
        rw [right] at alike
        obtain ⟨grown,like⟩ := alike
        cases run
        rw [like.isTruthy]
        exact ⟨_, rfl, ⟨_, mirrors.grow grown⟩, ⟨_, grown.left, rfl⟩, ⟨_, grown.right, rfl⟩⟩

theorem firstEnabled_reflected (mirrors : Mirrors p m n) (candidates : List TransitionIndex) :
    Reflected (firstEnabled none candidates) m n := by
  induction candidates generalizing p m n with
  | nil => exact Reflected.pure mirrors _
  | cons t rest ih =>
    intro found m' run quiet
    rw [firstEnabled, get_bind] at run ⊢
    rw [mirrors.chart]
    by_cases triggered : m.chart.triggered none t = true
    · rw [if_pos triggered] at run ⊢
      refine Reflected.bind (conditionHolds_reflected mirrors triggered) (conditionHolds_frames t)
        ?_ ?_ found m' run quiet
      · intro holds
        split
        · exact Keeps.pure _
        · exact firstEnabled_frames none rest
      · intro holds q k l mirrors
        split
        · exact Reflected.pure mirrors _
        · exact ih mirrors
    · rw [if_neg triggered] at run ⊢
      exact ih mirrors found m' run quiet

theorem collectEnabled_reflected (mirrors : Mirrors p m n) (states : List StateIndex)
    (enabled : List TransitionIndex) : Reflected (collectEnabled none states enabled) m n := by
  induction states generalizing p m n enabled with
  | nil => exact Reflected.pure mirrors _
  | cons s rest ih =>
    intro found m' run quiet
    rw [collectEnabled, get_bind] at run ⊢
    rw [mirrors.chart]
    refine Reflected.bind (firstEnabled_reflected mirrors (m.chart.candidates s))
      (firstEnabled_frames none _) ?_ ?_ found m' run quiet
    · intro chosen
      split
      · exact collectEnabled_frames none rest _
      · exact collectEnabled_frames none rest _
    · intro chosen q k l mirrors
      split
      · exact ih mirrors _
      · exact ih mirrors _

end MachineM

namespace Chart

variable {c : Chart} {enabled : List TransitionIndex}

theorem settle_ne_nil (c : Chart) (exits : TransitionIndex → List StateIndex)
    (kept : List TransitionIndex) (t : TransitionIndex) : c.settle exits kept t ≠ [] := by
  unfold settle
  simp only
  split
  · simp
  · -- There was a transition to give way to.
    rename_i stays
    rintro rfl
    simp at stays

/-- Of transitions in conflict one is kept. -/
theorem removeConflicts_eq_nil {history : HistoryTable} {configuration : List StateIndex}
    (none : c.removeConflicts history configuration enabled = []) : enabled = [] := by
  unfold removeConflicts at none
  have kept : ∀ (exits : TransitionIndex → List StateIndex) (l kept : List TransitionIndex),
      l.foldl (c.settle exits) kept = [] → l = [] := by
    intro exits l
    induction l with
    | nil => exact fun _ _ => rfl
    | cons t rest ih =>
      intro kept gone
      rw [List.foldl_cons] at gone
      cases ih _ gone
      exact absurd gone (settle_ne_nil c exits kept t)
  have sorted := kept _ _ _ none
  have length : (c.inDocumentOrder enabled).length = enabled.length := List.length_mergeSort _
  rw [sorted, List.length_nil] at length
  exact List.length_eq_zero_iff.mp length.symm

@[simp] theorem removeConflicts_nil (history : HistoryTable) (configuration : List StateIndex) :
    c.removeConflicts history configuration [] = [] := by
  unfold removeConflicts inDocumentOrder
  rw [List.mergeSort_nil]
  rfl

end Chart

namespace MachineM

open Machine

variable {p : Pairing} {m m' n n' : Machine}

/-- A second look finds no transition either, if the first found none and no condition failed. -/
theorem selects_none_again (mirrors : Mirrors p m n)
    (selected : selectTransitions none m = .ok [] m')
    (quiet : m'.context.internalQueue.length = m.context.internalQueue.length) :
    ∃ n', selectTransitions none n = .ok [] n' ∧ n.Grew n' := by
  obtain ⟨enabled,k,collected,_⟩ := collectEnabled_ends none _ [] m
  rw [selectTransitions_of_collect collected] at selected
  split at selected
  · injection selected with none same
    subst same
    obtain rfl := Chart.removeConflicts_eq_nil none
    obtain ⟨n',again,_,_,grew⟩ := collectEnabled_reflected mirrors _ [] _ _ collected quiet
    rw [← mirrors.chart, ← mirrors.configuration] at again
    refine ⟨n', ?_, grew⟩
    rw [selectTransitions_of_collect again, List.all_nil, if_pos rfl, Chart.removeConflicts_nil]
  · cases selected

end MachineM

end Statechart

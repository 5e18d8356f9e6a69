import Statechart.Proofs.Machine.Breakdown
import Statechart.Proofs.Machine.Counting

/- Between two waits a machine takes no more microsteps than its options allow, and it does not go
   on for ever. It goes on for so few steps that its host, who counts them, always sees the end. -/
namespace Statechart

namespace Machine

open MachineM

variable {limit passed : Nat} {m m' b m₀ : Machine} {first passes : List (List TransitionIndex)}

theorem Begins.unbroken (sturdy : b.chart.Sturdy) (fits : b.context.Fits b.chart)
    (begins : b.Begins first m₀) : m₀.Unbroken b.chart := by
  have fits : b.Fits b.chart := ⟨rfl, fits⟩
  cases begins with
  | start => exact ⟨fits.start, nofun⟩
  | @event e _ waiting answers =>
    have unbroken : b.Unbroken b.chart := ⟨fits, by rw [waiting]; exact nofun⟩
    exact unbroken.move sturdy (.take b (.event e))

theorem Begins.refuses (begins : b.Begins first m₀) {v : ValueError}
    (aborted : m₀.control = .aborted (.value v)) :
    ∃ k, m₀ = proceed.abort k (.value v) ∧ k.Refuses := by
  cases begins with
  | start => cases aborted
  | event waiting => exact take_event_refuses waiting aborted

/-- What is left to do before the next wait. -/
def rank (m : Machine) : Nat × Nat := (m.turns, m.weight)

/-- Ranks go down in lexicographic order. -/
def Lighter (m' m : Machine) : Prop := Prod.Lex (· < ·) (· < ·) m'.rank m.rank

theorem lighter_wellFounded : WellFounded Lighter :=
  InvImage.wf rank (Prod.lex Nat.lt_wfRel Nat.lt_wfRel).wf

theorem Eases.lighter (eases : m.Eases m') : m'.Lighter m := by
  unfold Lighter rank
  cases eases with
  | turn less => exact Prod.Lex.left _ _ less
  | between same less =>
    rw [same]
    exact Prod.Lex.right _ less

theorem not_continues (resting : Resting m.control) (m' : Machine) : ¬ Continues m m' := by
  rintro ⟨memory,destroyed,reports,work⟩
  have control : Resting (m.disturb memory destroyed reports).control := resting
  cases work.worked with
  | start asked | macrostep asked | goOn asked =>
    rw [asked] at control
    exact control
  | effects asked | started asked =>
    rw [asked] at control
    exact control

theorem Going.continues (going : m.Going limit passed) (continues : Continues m m') :
    m'.Lighter m ∧ ∃ passed', m'.Going limit passed' := by
  obtain ⟨memory,destroyed,reports,work⟩ := continues
  have proceeds := work_proceeds (going.disturb memory destroyed reports) work
  exact ⟨proceeds.eases.lighter, _, proceeds.going⟩

theorem Going.no_infinite_work (going : m.Going limit passed) :
    ¬ ∃ f : Nat → Machine, f 0 = m ∧ ∀ n, Continues (f n) (f (n + 1)) := by
  induction m using lighter_wellFounded.induction generalizing passed with
  | _ m ih =>
    rintro ⟨f,begins,works⟩
    obtain ⟨lighter,_,after⟩ := going.continues (begins ▸ works 0)
    exact ih (f 1) lighter after ⟨fun n => f (n + 1), rfl, fun n => works (n + 1)⟩

theorem Going.ends (going : m.Going limit passed) (rest : ∀ m', ¬ Continues m m') :
    m.control = .waiting ∨ m.control = .exited .completed ∨ m.control = .exited .destroyed ∨
      m.control = .aborted (.liveLock limit) ∨ (∃ e, m.control = .aborted (.value e)) ∨
      m.control = .crashed := by
  have idle : ∀ m', ¬ Work m m' := fun m' work =>
    rest m' ⟨m.memory, m.destroyed, m.reports, work⟩
  have usual := going.usual
  cases control : m.control with
  | idle =>
    rw [control] at usual
    exact usual.elim
  | starting => exact absurd (.step m (by rw [isBlocked, control])) (idle _)
  | macrostep => exact absurd (.step m (by rw [isBlocked, control])) (idle _)
  | invoking pending => exact absurd (.step m (by rw [isBlocked, control])) (idle _)
  | effects next => exact absurd (.effectsDone m next [] control) (idle _)
  | starts data pending => exact absurd (.startDone m data pending none control) (idle _)
  | waiting => exact Or.inl rfl
  | exited status =>
    rw [control] at usual
    rcases usual with rfl | rfl
    · exact Or.inr (Or.inl rfl)
    · exact Or.inr (Or.inr (Or.inl rfl))
  | aborted fault =>
    rw [control] at usual
    rcases usual with rfl | ⟨e,rfl⟩
    · exact Or.inr (Or.inr (Or.inr (Or.inl rfl)))
    · exact Or.inr (Or.inr (Or.inr (Or.inr (Or.inl ⟨e, rfl⟩))))
  | crashed => exact Or.inr (Or.inr (Or.inr (Or.inr (Or.inr rfl))))

section Serving

theorem invokeCount_eq (m : Machine) : m.invokeCount =
    ((List.range m.chart.states.size).map fun s => (m.chart.state s).invokes.length).sum := by
  have nodes : m.chart.states.toList.map (·.invokes.length) =
      (List.range m.chart.states.size).map fun s => (m.chart.state s).invokes.length := by
    refine List.ext_getElem (by simp) fun s inside _ => ?_
    have inside : s < m.chart.states.size := by simpa using inside
    simp [Chart.state, Array.getD_eq_getD_getElem?, inside]
  rw [invokeCount, ← nodes, ← Array.foldl_toList, List.sum_eq_foldl, List.foldl_map]

/-- The services to be started are some of the chart's. -/
theorem Placed.pending_le {c : Chart} (placed : m.Placed c) :
    (pendingInvokes m).length ≤ m.invokeCount := by
  have pending : (pendingInvokes m).length =
      (m.context.statesToInvoke.map fun s => (m.chart.state s).invokes.length).sum := by
    simp [pendingInvokes, List.length_flatMap]
  have distinct : m.context.statesToInvoke.Nodup :=
    placed.context.statesToInvoke.imp fun less => Nat.ne_of_lt less
  have inside : m.context.statesToInvoke.toFinset ⊆ (List.range m.chart.states.size).toFinset := by
    intro s hs
    have declared := placed.context.entered s (List.mem_toFinset.mp hs)
    rw [← placed.chart] at declared
    exact List.mem_toFinset.mpr (List.mem_range.mpr declared)
  rw [pending, invokeCount_eq, ← List.sum_toFinset _ distinct, ← List.sum_toFinset _ List.nodup_range]
  exact Finset.sum_le_sum_of_subset inside

/-- More than a machine ever has to do before its next pass. -/
def load (m : Machine) : Nat := 2 * m.invokeCount + 6

/-- At most so many pieces of work are left before the next wait. -/
def bulk (m : Machine) : Nat := m.turns * m.load + m.weight

theorem Placed.weight_lt {c : Chart} (placed : m.Placed c) (brief : Brief m.control) :
    m.weight < m.load := by
  have few := placed.pending_le
  unfold weight load
  split
  · omega
  · split
    · omega
    · omega
  · rename_i control
    rw [control] at brief
    exact brief.elim
  · rename_i control
    rw [control] at brief
    exact brief.elim
  · omega
  · omega

theorem Eases.bulk_lt (eases : m.Eases m') (same : m'.load = m.load) (light : m'.weight < m'.load) :
    m'.bulk < m.bulk := by
  unfold bulk
  rw [same] at light ⊢
  cases eases with
  | turn less =>
    calc m'.turns * m.load + m'.weight
        < m'.turns * m.load + m.load := Nat.add_lt_add_left light _
      _ = (m'.turns + 1) * m.load := (Nat.succ_mul _ _).symm
      _ ≤ m.turns * m.load := Nat.mul_le_mul_right _ less
      _ ≤ m.turns * m.load + m.weight := Nat.le_add_right _ _
  | between same less =>
    rw [same]
    exact Nat.add_lt_add_left less _

/-- A machine in a segment, on the way to its end. -/
structure Heading (c : Chart) (m : Machine) : Prop where
  going : ∃ limit passed, m.Going limit passed
  placed : m.Placed c
  light : m.weight < m.load

theorem Heading.bulk_lt {c : Chart} (heading : m.Heading c) : m.bulk < m.stepBound := by
  have few : m.turns ≤ m.options.maxMicrosteps + 1 := by
    unfold turns beginning
    split
    · omega
    · omega
  calc m.bulk < m.turns * m.load + m.load := Nat.add_lt_add_left heading.light _
    _ = (m.turns + 1) * m.load := (Nat.succ_mul _ _).symm
    _ ≤ (m.options.maxMicrosteps + 3) * m.load := Nat.mul_le_mul_right _ (by omega)

theorem Heading.work {c : Chart} (wf : c.WellFormed) (heading : m.Heading c) (memory : Memory)
    (destroyed : Bool) (reports : List Report)
    (work : Work (m.disturb memory destroyed reports) m') : m'.Heading c ∧ m'.bulk < m.bulk := by
  obtain ⟨limit,passed,going⟩ := heading.going
  obtain ⟨going,eases,_⟩ := work_proceeds (going.disturb memory destroyed reports) work
  have disturbed : (m.disturb memory destroyed reports).Placed c := heading.placed.of_places rfl
  have placed : m'.Placed c := move_placed wf disturbed (.work work)
  have same : m'.load = (m.disturb memory destroyed reports).load := by
    have chart : m'.chart = m.chart := placed.chart.trans heading.placed.chart.symm
    unfold load invokeCount
    rw [chart]
    rfl
  have light : m'.weight < m'.load := by
    cases eases with
    | turn _ brief => exact placed.weight_lt brief
    | between _ less =>
      rw [same]
      exact Nat.lt_trans less heading.light
  exact ⟨⟨⟨_, _, going⟩, placed, light⟩, eases.bulk_lt same light⟩

theorem Segment.trans {a b d : Machine} {more : List (List TransitionIndex)}
    (segment : Segment a passes b) (further : Segment b more d) : Segment a (passes ++ more) d := by
  induction further with
  | refl =>
    rw [List.append_nil]
    exact segment
  | next _ memory destroyed reports carries work ih =>
    rw [← List.append_assoc]
    exact ih.next memory destroyed reports carries work

/-- A host that serves a machine long enough sees it come to rest. -/
theorem Heading.served {c : Chart} (wf : c.WellFormed) {σ : Type} (host : Host σ) (fuel : Nat)
    (s : σ) (heading : m.Heading c) (enough : m.bulk < fuel) :
    (∃ more, Segment m more (host.serveWithin fuel m s).1) ∧
      Resting (host.serveWithin fuel m s).1.control := by
  induction fuel generalizing m s with
  | zero => omega
  | succ fuel ih =>
    by_cases resting : Resting m.control
    · rw [host.serveWithin_resting resting]
      exact ⟨⟨[], .refl m⟩, resting⟩
    · rw [host.serveWithin_busy resting]
      have work := host.answer_work resting s
      have first := (Segment.refl m).next _ _ _ (carriesOut_ahead _) work
      obtain ⟨heading,less⟩ := heading.work wf _ _ _ work
      obtain ⟨⟨more,further⟩,ends⟩ := ih (host.answer m s).2 heading (by omega)
      exact ⟨⟨_, first.trans further⟩, ends⟩

/-- A machine that goes on by itself long enough comes to where it cannot. -/
theorem Heading.blocks {c : Chart} (wf : c.WellFormed) {fuel : Nat} (heading : m.Heading c)
    (enough : m.bulk < fuel) : (stepUntilBlocked fuel m).isBlocked = true := by
  induction fuel generalizing m with
  | zero => omega
  | succ fuel ih =>
    cases running : m.isBlocked with
    | true => rwa [stepUntilBlocked_of_blocked running]
    | false =>
      rw [stepUntilBlocked_of_running running]
      obtain ⟨heading,less⟩ := heading.work wf m.memory m.destroyed m.reports (.step m running)
      exact ih heading (by omega)

theorem Begins.heading (entry : (b.chart.state Chart.root).initial ≠ none)
    (positive : 1 ≤ b.options.maxMicrosteps) (wf : b.chart.WellFormed)
    (placed : b.context.Placed b.chart) (begins : b.Begins first m₀) : m₀.Heading b.chart := by
  have going := begins.going entry positive
  have placed : b.Placed b.chart := ⟨rfl, placed⟩
  cases begins with
  | start =>
    have placed : b.start.Placed b.chart := placed.of_places rfl
    exact ⟨⟨_, _, going⟩, placed, placed.weight_lt trivial⟩
  | @event e _ waiting answers =>
    have placed := move_placed wf placed (.take b (.event e))
    obtain ⟨_,_,brief⟩ := take_event b.options.maxMicrosteps waiting answers
    exact ⟨⟨_, _, going⟩, placed, placed.weight_lt brief⟩

theorem Segment.heading {c : Chart} (wf : c.WellFormed) (segment : Segment m passes m')
    (heading : m.Heading c) : m'.Heading c := by
  induction segment with
  | refl => exact heading
  | next _ memory destroyed reports _ work ih => exact (ih.work wf memory destroyed reports work).1

end Serving

/-- There is an enabled transition without event, or else a queued internal event. -/
def HasWork (m : Machine) : Prop :=
  ∃ enabled n, selectTransitions none m = .ok enabled n ∧
    (enabled ≠ [] ∨ n.context.internalQueue ≠ [])

theorem hasWork_of_looked {event : Option Event} {enabled : List TransitionIndex} {n : Machine}
    (looked : Looked m (.transitions event enabled) n) : m.HasWork := by
  cases looked with
  | eventless some selected => exact ⟨enabled, n, selected, Or.inl some⟩
  | event nothing queued bound selected =>
    exact ⟨[], _, nothing, Or.inr (by rw [queued]; exact List.cons_ne_nil _ _)⟩

/-- Between two waits at most as many passes are carried out as the options allow, the event's own
    included, and so at most as many microsteps, which are the passes with transitions. What a piece
    of work carries out is read off what it does, and is one thing only. Work always comes to an end,
    which hosts see: the machine waits, has completed or been destroyed, has met a live-lock, or was
    refused a variable by its data model. It does not break down if no default of the chart is
    circular, the host's actions return and the context fits the chart. A live-lock is reported only
    after as many passes as are allowed, and when there is still something to do. -/
theorem live_lock_bound {library : ActionLibrary} {source : Source.ChartDef} {b m₀ m : Machine}
    {first passes : List (List TransitionIndex)}
    (accepted : Chart.compile library source = .ok b.chart)
    (positive : 1 ≤ b.options.maxMicrosteps) (begins : b.Begins first m₀)
    (segment : Segment m₀ passes m) :
    (first ++ passes).length ≤ b.options.maxMicrosteps ∧
      ((∀ e, ∃! taken, b.Answers e taken) ∧
        ∀ memory destroyed reports, ∃! more, (m.disturb memory destroyed reports).CarriesOut more) ∧
      (¬ ∃ f : Nat → Machine, f 0 = m ∧ ∀ n, Continues (f n) (f (n + 1))) ∧
      ((∀ m', ¬ Continues m m') → m.control = .waiting ∨ m.control = .exited .completed ∨
        m.control = .exited .destroyed ∨
        m.control = .aborted (.liveLock b.options.maxMicrosteps) ∨
        (∃ e, m.control = .aborted (.value e)) ∨ m.control = .crashed) ∧
      (b.context.Placed b.chart → m.advance.isBlocked = true ∧
        ∀ (σ : Type) (host : Host σ) (s : σ), (∃ more, Segment m more (host.serve m s).1) ∧
          ∀ m', ¬ Continues (host.serve m s).1 m') ∧
      (∀ e, m.control = .aborted (.value e) →
        ∃ k, m = proceed.abort k (.value e) ∧ k.Refuses) ∧
      (b.chart.Uncircular → Compile.ActionsAre CustomAction.Returns library →
        b.context.Fits b.chart → m.control ≠ .crashed) ∧
      ∀ memory destroyed reports m' limit, Work (m.disturb memory destroyed reports) m' →
        m'.control = .aborted (.liveLock limit) → limit = b.options.maxMicrosteps ∧
          (first ++ passes).length = b.options.maxMicrosteps ∧
          (m.disturb memory destroyed reports).HasWork := by
  have wf := Chart.compile_wellFormed accepted
  -- The root of a compiled chart has children, so it has an initial transition.
  have entry : (b.chart.state Chart.root).initial ≠ none := by
    obtain ⟨t,enters,_⟩ := wf.initial Chart.root wf.root_kind wf.root_children
    rw [enters]
    exact Option.some_ne_none t
  have going := segment.going (begins.going entry positive)
  rw [← List.length_append] at going
  refine ⟨going.counted ▸ going.bounded, ⟨b.answers_unique, fun _ _ _ => carriesOut_unique _⟩,
    going.no_infinite_work, going.ends, ?_, ?_, ?_, ?_⟩
  · intro placed
    have heading := segment.heading wf (begins.heading entry positive wf placed)
    have enough := heading.bulk_lt
    refine ⟨heading.blocks wf enough, fun σ host s => ?_⟩
    obtain ⟨further,resting⟩ := heading.served wf host (2 * m.stepBound) s (by omega)
    exact ⟨further, not_continues resting⟩
  · intro e aborted
    cases segment with
    | refl => exact begins.refuses aborted
    | next _ _ _ _ _ work => exact work_refuses work aborted
  · intro uncircular returns fits
    have sturdy := Chart.sturdy_of_compile accepted uncircular returns
    exact ((begins.unbroken sturdy fits).run sturdy segment.run).whole
  · intro memory destroyed reports m' limit work locked
    have proceeds := work_proceeds (going.disturb memory destroyed reports) work
    obtain ⟨spent,event,enabled,n,looked⟩ := proceeds.spent limit locked
    refine ⟨?_, spent, hasWork_of_looked looked⟩
    have usual := proceeds.going.usual
    rw [locked] at usual
    rcases usual with same | ⟨e,absurd⟩
    · cases same
      rfl
    · cases absurd

end Machine

namespace Spinning

open Source Machine

/-- A state that is left and entered again and again without any event. -/
def source : ChartDef where
  name := none
  initial := none
  data := []
  extra := none
  states := [.mk (.simple "a" .state [⟨none, none, some ["a"], .external, []⟩]) []]

def fresh : Machine :=
  Machine.create (Chart.compiled [] source) { sessionId := "s", maxMicrosteps := 2 } default

def machine : Machine := fresh.start

def last : Machine := machine.step.step.step.step.step.step

theorem last_segment : Segment machine [[0], [0]] last := by
  have one := (Segment.refl machine).step (by decide +kernel)
  have two := one.step (by decide +kernel)
  have three := two.step (by decide +kernel)
  have four := three.step (by decide +kernel)
  have five := four.step (by decide +kernel)
  have six := five.step (by decide +kernel)
  have passes : [] ++ machine.passAhead.toList ++ machine.step.passAhead.toList
      ++ machine.step.step.passAhead.toList ++ machine.step.step.step.passAhead.toList
      ++ machine.step.step.step.step.passAhead.toList
      ++ machine.step.step.step.step.step.passAhead.toList = [[0], [0]] := by decide +kernel
  rw [passes] at six
  exact six

def isLocked (m : Machine) : Bool :=
  match m.control with
  | .aborted (.liveLock 2) => true
  | _ => false

theorem control_of_isLocked {m : Machine} (locked : isLocked m = true) :
    m.control = .aborted (.liveLock 2) := by
  unfold isLocked at locked
  split at locked
  · assumption
  · cases locked

/-- Two microsteps are taken; the third pass would find the same transition again. -/
theorem last_bounded : ([] ++ [[0], [0]]).length ≤ fresh.options.maxMicrosteps ∧
    last.control ≠ .crashed ∧ last.step.control = .aborted (.liveLock 2) ∧ last.HasWork := by
  have compiled : Chart.compile [] source = .ok (Chart.compiled [] source) :=
    Chart.compile_eq_compiled (by decide +kernel)
  have peopled : (Chart.compiled [] source).Peopled := Chart.peopled_of_check (by decide +kernel)
  have bound := live_lock_bound (b := fresh) compiled (by decide +kernel) .start last_segment
  obtain ⟨few,_,_,_,_,_,whole,locks⟩ := bound
  have locked := control_of_isLocked (m := last.step) (by decide +kernel)
  refine ⟨few, ?_, locked, ?_⟩
  · exact whole peopled.uncircular nofun (create_fits _ _ _).context
  · exact (locks last.memory last.destroyed last.reports last.step 2
      (.step last (by decide +kernel)) locked).2.2

end Spinning

namespace OtherEnds

open Source Machine MachineM

/-- A chart whose one variable has the name of one that is read-only. -/
def reserved : ChartDef where
  name := none
  initial := none
  data := [⟨"_sessionid", ⟨none, none⟩⟩]
  extra := none
  states := [.mk (.simple "a" .state []) []]

/-- A chart in which the defaults of two history states lead to one another. -/
def circling : ChartDef where
  name := none
  initial := some ["g"]
  data := []
  extra := none
  states :=
    [.mk (.simple "p" .state [])
      [ChainedDefaults.past "g" "h", ChainedDefaults.past "h" "g", .mk (.simple "a" .state []) []]]

def machine (source : ChartDef) : Machine :=
  Machine.create (Chart.compiled [] source) { sessionId := "s" } default

theorem machine_chart (source : ChartDef) : (machine source).chart = Chart.compiled [] source := rfl

/-- Where a segment ends that the machine begins. -/
def EndsIn (b m : Machine) : Prop :=
  1 ≤ b.options.maxMicrosteps ∧
    ∃ first m₀ passes, b.Begins first m₀ ∧ Segment m₀ passes m ∧ ∀ m', ¬ Continues m m'

theorem start_endsIn {b : Machine} (positive : 1 ≤ b.options.maxMicrosteps)
    (resting : Resting b.start.step.control) : EndsIn b b.start.step :=
  ⟨positive, [], b.start, _, .start, (Segment.refl _).step rfl, not_continues resting⟩

def isRefused (m : Machine) : Bool :=
  match m.control with
  | .aborted (.value .cannotModify) => true
  | _ => false

theorem control_of_isRefused {m : Machine} (seen : isRefused m = true) :
    m.control = .aborted (.value .cannotModify) := by
  unfold isRefused at seen
  split at seen
  · assumption
  · cases seen

theorem reserved_refused : Chart.compile [] reserved = .ok (machine reserved).chart ∧
    EndsIn (machine reserved) (machine reserved).start.step ∧
    (machine reserved).start.step.control = .aborted (.value .cannotModify) := by
  have control := control_of_isRefused (m := (machine reserved).start.step) (by decide +kernel)
  have positive : 1 ≤ (machine reserved).options.maxMicrosteps := by decide +kernel
  rw [machine_chart]
  exact ⟨Chart.compile_eq_compiled (by decide +kernel),
    start_endsIn positive (by rw [control]; trivial), control⟩

theorem circling_endless : Chart.compile [] circling = .ok (machine circling).chart ∧
    EndsIn (machine circling) (machine circling).start.step ∧
    (machine circling).start.step.control = .crashed ∧
    ∀ depth e, (machine circling).chart.addDescendants? [] depth 2 e = none := by
  have control := Tampered.crashed_of_broken (m := (machine circling).start.step)
    (by decide +kernel)
  have positive : 1 ≤ (machine circling).options.maxMicrosteps := by decide +kernel
  have there : (Chart.compiled [] circling).Names 2 3 :=
    ⟨by decide +kernel, 0, by decide +kernel, by decide +kernel⟩
  have back : (Chart.compiled [] circling).Names 3 2 :=
    ⟨by decide +kernel, 1, by decide +kernel, by decide +kernel⟩
  rw [machine_chart]
  exact ⟨Chart.compile_eq_compiled (by decide +kernel),
    start_endsIn positive (by rw [control]; trivial), control,
    Chart.circular_never_ends there (.single back)⟩

theorem altered_stopped : Chart.compile [] Tampered.source = .ok Tampered.altered.chart ∧
    EndsIn Tampered.altered (Tampered.altered.take (.event Tampered.heard)) ∧
    (Tampered.altered.take (.event Tampered.heard)).control = .crashed := by
  have control := Tampered.crashed_of_broken
    (m := Tampered.altered.take (.event Tampered.heard)) (by decide +kernel)
  have waiting : Tampered.altered.control = .waiting := control_of_waiting (by decide +kernel)
  have positive : 1 ≤ Tampered.altered.options.maxMicrosteps := by decide +kernel
  obtain ⟨first,answers,_⟩ := Tampered.altered.answers_unique Tampered.heard
  refine ⟨Tampered.altered_chart ▸ Tampered.accepted, ⟨positive, ?_⟩, control⟩
  exact ⟨first, _, [], .event waiting answers, .refl _, not_continues (by rw [control]; trivial)⟩

/-- A segment can also end otherwise. The data model refuses to assign to a read-only variable when
    the machine is started; a circular default is entered without end; and an event from a service
    whose invoke is not there breaks the machine down. -/
theorem segments_end_otherwise :
    (Chart.compile [] reserved = .ok (machine reserved).chart ∧
      EndsIn (machine reserved) (machine reserved).start.step ∧
      (machine reserved).start.step.control = .aborted (.value .cannotModify)) ∧
    (Chart.compile [] circling = .ok (machine circling).chart ∧
      EndsIn (machine circling) (machine circling).start.step ∧
      (machine circling).start.step.control = .crashed ∧
      ∀ depth e, (machine circling).chart.addDescendants? [] depth 2 e = none) ∧
    Chart.compile [] Tampered.source = .ok Tampered.altered.chart ∧
      EndsIn Tampered.altered (Tampered.altered.take (.event Tampered.heard)) ∧
      (Tampered.altered.take (.event Tampered.heard)).control = .crashed :=
  ⟨reserved_refused, circling_endless, altered_stopped⟩

end OtherEnds

end Statechart

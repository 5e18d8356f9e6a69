import Statechart.Proofs.Machine.Parts

/- What leaving states does to services. A state that is left takes its services along: each of them
   is dropped and has its cancellation put among the effects, once. -/
namespace Statechart

namespace Machine

variable {m m' m'' : Machine} {states more : List StateIndex}

/-- Just the services of the states are dropped, and each of them is to be cancelled once. -/
structure Releases (states : List StateIndex) (m m' : Machine) : Prop where
  services : m'.context.invocations =
    m.context.invocations.filter fun i => !states.contains i.state
  cancels : m'.cancels.Perm (m.cancels ++
    (m.context.invocations.filter fun i => states.contains i.state).map (·.invokeId))

theorem Releases.of_same (services : m'.context.invocations = m.context.invocations)
    (cancels : m'.cancels = m.cancels) : Releases [] m m' :=
  ⟨by simpa using services, by simp [cancels]⟩

theorem Drifts.releases (drifts : m.Drifts m') : Releases [] m m' :=
  .of_same (congrArg (fun m => m.context.invocations) drifts.frame) drifts.cancels

theorem Releases.congr (same : ∀ s, s ∈ states ↔ s ∈ more) (releases : Releases states m m') :
    Releases more m m' := by
  have alike : states.contains = more.contains := by
    funext s
    exact Bool.eq_iff_iff.mpr (by simpa using same s)
  exact ⟨alike ▸ releases.services, alike ▸ releases.cancels⟩

theorem Releases.append (first : Releases states m m') (second : Releases more m' m'') :
    Releases (states ++ more) m m'' := by
  have services := second.services
  have cancels := second.cancels.trans (first.cancels.append_right _)
  rw [first.services, List.filter_filter] at services cancels
  refine ⟨services.trans (List.filter_congr fun i _ => by simp [Bool.and_comm]), cancels.trans ?_⟩
  rw [List.append_assoc, ← List.map_append]
  refine List.Perm.append_left _ (List.Perm.map _ ?_)
  have parts := List.filter_append_perm (fun i => states.contains i.state)
    (m.context.invocations.filter fun i => (states ++ more).contains i.state)
  rw [List.filter_filter, List.filter_filter] at parts
  refine (List.Perm.of_eq ?_).trans parts
  congr 1
  · refine List.filter_congr fun i _ => ?_
    by_cases own : i.state ∈ states <;> simp [own]
  · refine List.filter_congr fun i _ => ?_
    by_cases own : i.state ∈ states <;> simp [own]

theorem filterMap_cancelled (gone : List Invocation) :
    (gone.map fun i => Effect.cancelInvoke i.invokeId).filterMap Effect.cancelled? =
      gone.map (·.invokeId) := by
  simp [List.filterMap_map, Function.comp_def, Effect.cancelled?]

theorem releases_left (m : Machine) (s : StateIndex) : Releases [s] m (MachineM.left m s) where
  services := List.filter_congr fun i _ => by simp
  cancels := by
    have own : (m.context.invocations.filter fun i => [s].contains i.state) =
        m.context.invocations.filter (·.state = s) := List.filter_congr fun i _ => by simp
    rw [own]
    simp only [cancels, MachineM.left, deactivate, cancelInvocationsOf, List.filterMap_append,
      filterMap_cancelled]
    exact .refl _

end Machine

namespace MachineM

open Machine

variable {m m' : Machine} {u : Unit}

instance : Lasting (Releases []) where
  refl _ := .of_same rfl rfl
  trans first second := first.append second

/-- The state has been left, between two pieces of executable content. -/
structure Leaves (s : StateIndex) (m m' : Machine) : Prop where
  frame : m'.frame = (left m s).frame
  releases : Releases [s] m m'

theorem leaves_of_drifts {s : StateIndex} {n : Machine} (before : m.Drifts n)
    (after : (left n s).Drifts m') : Leaves s m m' where
  frame := by rw [after.frame, frame_left, before.frame, ← frame_left]
  releases := (before.releases.append (releases_left n s)).append after.releases

theorem exitState_leaves {s : StateIndex} (run : exitState s m = .ok u m') : Leaves s m m' := by
  obtain ⟨_,_,got,run⟩ := bind_eq_ok run
  cases got
  obtain ⟨_,m₁,exiting,run⟩ := bind_eq_ok run
  obtain ⟨_,m₂,block,run⟩ := bind_eq_ok run
  obtain ⟨_,m₃,leaving,run⟩ := bind_eq_ok run
  cases leaving
  have before := (trace_frames (P := onlyCrash) _ m).of_ok exiting
  exact leaves_of_drifts (before.trans ((executeBlock_frames _ m₁).of_ok block))
    ((trace_frames (P := onlyCrash) _ _).of_ok run)

/-- How a machine that is done leaves a state. -/
def quit (c : Chart) (s : StateIndex) : MachineM Unit := do
  executeBlock (c.state s).onExit
  update fun m => (m.cancelInvocationsOf s).deactivate s
  update (·.trace (.exited (c.state s).id))

theorem quit_leaves {c : Chart} {s : StateIndex} (run : quit c s m = .ok u m') : Leaves s m m' := by
  obtain ⟨_,m₁,block,run⟩ := bind_eq_ok run
  obtain ⟨_,m₂,leaving,run⟩ := bind_eq_ok run
  cases leaving
  exact leaves_of_drifts ((executeBlock_frames _ m).of_ok block)
    ((trace_frames (P := onlyCrash) _ _).of_ok run)

theorem leaveAll_ok {f : StateIndex → MachineM Unit}
    (each : ∀ (s : StateIndex) {n n' : Machine}, f s n = .ok () n' → Leaves s n n')
    {l : List StateIndex} (run : l.forM f m = .ok u m') :
    m'.frame = (l.foldl left m).frame ∧ Releases l m m' := by
  induction l generalizing m with
  | nil =>
    cases run
    exact ⟨rfl, Lasting.refl _⟩
  | cons s rest ih =>
    obtain ⟨_,m₁,first,run⟩ := bind_eq_ok run
    obtain ⟨framed,released⟩ := ih run
    refine ⟨?_, (each s first).releases.append released⟩
    rw [framed, List.foldl_cons]
    exact frame_foldl_left rest (each s first).frame

theorem statesToInvoke_foldl_left (l : List StateIndex) (m : Machine) :
    (l.foldl left m).context.statesToInvoke = m.context.statesToInvoke := by
  induction l generalizing m with
  | nil => rfl
  | cons s rest ih => rw [List.foldl_cons, ih]; rfl

theorem left_all {l : List StateIndex} (framed : m'.frame = (l.foldl left m).frame)
    (released : Releases l m m') :
    m'.context.configuration = m.context.configuration.filter (fun s => !l.contains s) ∧
      m'.context.statesToInvoke = m.context.statesToInvoke ∧
      m'.context.invocations = m.context.invocations.filter (fun i => !l.contains i.state) := by
  have configuration : m'.context.configuration = (l.foldl left m).context.configuration :=
    congrArg (fun m => m.context.configuration) framed
  have statesToInvoke : m'.context.statesToInvoke = (l.foldl left m).context.statesToInvoke :=
    congrArg (fun m => m.context.statesToInvoke) framed
  exact ⟨configuration.trans (configuration_foldl_left l m),
    statesToInvoke.trans (statesToInvoke_foldl_left l m), released.services⟩

theorem exitStates_releases {enabled : List TransitionIndex}
    (run : exitStates enabled m = .ok u m') :
    Releases (m.chart.exitSet m.context.history m.context.configuration enabled) m m' := by
  obtain ⟨_,_,got,run⟩ := bind_eq_ok run
  cases got
  obtain ⟨_,m₁,recorded,run⟩ := bind_eq_ok run
  cases recorded
  have released := (leaveAll_ok (fun _ _ _ => exitState_leaves) run).2
  exact ⟨(released.congr fun s => List.mem_reverse).services,
    (released.congr fun s => List.mem_reverse).cancels⟩

theorem enterStates_releases (enabled : List TransitionIndex) :
    Keeps (Releases []) onlyCrash (enterStates enabled) :=
  enterStates_keeps Drifts.releases (fun _ _ => .of_same rfl rfl) (fun _ _ => .of_same rfl rfl)
    enabled

/-- Of the services just those of the states that the microstep leaves are dropped. -/
theorem microstep_releases {enabled : List TransitionIndex} (run : microstep enabled m = .ok u m') :
    Releases (m.chart.exitSet m.context.history m.context.configuration enabled) m m' := by
  obtain ⟨_,m₁,leaving,run⟩ := bind_eq_ok run
  obtain ⟨_,m₂,content,run⟩ := bind_eq_ok run
  have performed := ((performTransitions_frames enabled m₁).of_ok content).releases
  have entered := (enterStates_releases enabled m₂).of_ok run
  have released := (exitStates_releases leaving).append (performed.append entered)
  exact released.congr fun s => by simp

/-- When a machine that is done has left its configuration, nothing is active and none of its
    services is left; each has its cancellation put among the effects. -/
theorem complete_ok {control : Control} (run : complete m = .ok control m') :
    control = .effects (.exit .completed) ∧ Releases m.context.configuration m m' ∧
      m'.context.configuration = [] ∧ m'.context.statesToInvoke = [] := by
  obtain ⟨_,_,got,run⟩ := bind_eq_ok run
  cases got
  obtain ⟨_,n,leaving,run⟩ := bind_eq_ok run
  obtain ⟨framed,released⟩ := leaveAll_ok (f := quit m.chart) (fun _ _ _ => quit_leaves) leaving
  cases run
  refine ⟨rfl, ?_, ?_, rfl⟩
  · have own := released.congr fun s => List.mem_reverse
    exact ⟨own.services, own.cancels⟩
  · refine (left_all framed released).1.trans ?_
    simp

end MachineM

end Statechart

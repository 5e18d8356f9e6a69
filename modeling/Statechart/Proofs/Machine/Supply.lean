import Statechart.Proofs.Machine.Orderly

/- Ids are given out one after another. The text of an id tells its number, and no part of a run
   takes a number back, so an id that is given out is a new one. -/
namespace Statechart

namespace Text

/-- What a digit in base sixteen stands for. -/
def hexValue (c : Char) : Nat := if c ≤ '9' then c.toNat - 48 else c.toNat - 87

def readHex (digits : List Char) : Nat := digits.foldl (fun n c => 16 * n + hexValue c) 0

theorem hexValue_digitChar {k : Nat} (digit : k < 16) : hexValue k.digitChar = k := by
  have each : ∀ k < 16, hexValue k.digitChar = k := by decide
  exact each k digit

theorem readHex_toDigits (n : Nat) : readHex (Nat.toDigits 16 n) = n := by
  induction n using Nat.strongRecOn with
  | ind n ih =>
    by_cases last : n < 16
    · rw [Nat.toDigits_of_lt_base last]
      simp [readHex, hexValue_digitChar last]
    · have digit : n % 16 < 16 := Nat.mod_lt n (by omega)
      have before := ih (n / 16) (by omega)
      rw [Nat.toDigits_of_base_le (by omega) (by omega)]
      rw [readHex, List.foldl_append, ← readHex, before]
      simp only [List.foldl_cons, List.foldl_nil, hexValue_digitChar digit]
      omega

theorem readHex_zeros (k : Nat) (digits : List Char) :
    readHex (List.replicate k '0' ++ digits) = readHex digits := by
  induction k with
  | zero => rfl
  | succ k ih => exact ih

theorem hexPadded_injective (width : Nat) : Function.Injective (hexPadded width) := by
  intro a b same
  have digits := congrArg String.toList same
  simp only [hexPadded, String.toList_ofList] at digits
  have read := congrArg readHex digits
  rw [readHex_zeros, readHex_zeros, readHex_toDigits, readHex_toDigits] at read
  exact read

end Text

theorem idText_injective : Function.Injective idText := by
  have cancel : ∀ mark first second : String, mark ++ first = mark ++ second → first = second := by
    intro mark first second same
    have texts := congrArg String.toList same
    simp only [String.toList_append] at texts
    exact String.toList_inj.mp (List.append_cancel_left texts)
  intro a b same
  exact Text.hexPadded_injective 12 (cancel _ _ _ same)

namespace Machine

/-- No id that the first machine has given out is left to the second. -/
def Spends (m m' : Machine) : Prop := m.memory.supply ≤ m'.memory.supply

instance : MachineM.Tolerant Spends where
  refl m := Nat.le_refl m.memory.supply
  trans first second := Nat.le_trans first second
  withHeap m _ := Nat.le_refl m.memory.supply
  freshId m := Nat.le_succ m.memory.supply
  enqueue m _ := Nat.le_refl m.memory.supply
  tell m _ := Nat.le_refl m.memory.supply

variable {m m' : Machine}

theorem Spends.of_same (same : m'.memory = m.memory) : m.Spends m' :=
  Nat.le_of_eq (congrArg Memory.supply same.symm)

theorem Drifts.spends (drifts : m.Drifts m') : m.Spends m' := by
  induction drifts with
  | refl m => exact MachineM.Lasting.refl m
  | trans _ _ first second => exact MachineM.Lasting.trans first second
  | freshId m => exact MachineM.Allocating.freshId m
  | withHeap m h => exact MachineM.Writing.withHeap m h
  | _ => exact .of_same rfl

end Machine

namespace MachineM

open Machine

variable {α : Type} {P : Interrupt → Prop}

/-- The part takes no id back, however it ends. -/
abbrev Spending (x : MachineM α) : Prop := Keeps Spends (fun _ => True) x

theorem Keeps.spending {x : MachineM α} (kept : Keeps Spends P x) : Spending x :=
  kept.mono fun _ _ => trivial

theorem Frames.spending {x : MachineM α} (framed : Frames P x) : Spending x :=
  Keeps.spending (framed.imp Drifts.spends)

theorem update_spending {f : Machine → Machine} (same : ∀ m, (f m).memory = m.memory) :
    Spending (update f) := Keeps.update fun m => .of_same (same m)

theorem exitStates_spending (enabled : List TransitionIndex) : Spending (exitStates enabled) := by
  have leaving : ∀ exits : List StateIndex, Spending (exits.forM exitState) := fun exits =>
    Keeps.spending (Keeps.forM fun s _ =>
      exitState_keeps Drifts.spends (fun _ _ => .of_same rfl) s)
  intro m
  exact .after (n := { m with context := { m.context with
    statesToInvoke := m.context.statesToInvoke.filter
      (!(m.chart.exitSet m.context.history m.context.configuration enabled).contains ·)
    history := m.chart.recordAll m.context.configuration
      (m.chart.exitSet m.context.history m.context.configuration enabled) m.context.history } })
    (.of_same rfl) rfl
    (leaving (m.chart.exitSet m.context.history m.context.configuration enabled).reverse _)

theorem microstep_spending (enabled : List TransitionIndex) : Spending (microstep enabled) :=
  Keeps.bind (exitStates_spending enabled) fun _ =>
    Keeps.bind (Frames.spending (performTransitions_frames enabled)) fun _ =>
      Keeps.spending (enterStates_keeps Drifts.spends (fun _ _ => .of_same rfl)
        (fun _ _ => .of_same rfl) enabled)

theorem complete_spending : Spending complete := by
  refine Keeps.bind Keeps.get fun m => Keeps.bind (Keeps.forM fun s _ => ?_) fun _ => ?_
  · refine Keeps.bind (Frames.spending (executeBlock_frames _)) fun _ => ?_
    exact Keeps.bind (update_spending fun _ => rfl) fun _ =>
      Frames.spending (trace_frames (P := onlyCrash) _)
  · exact Keeps.bind (update_spending fun _ => rfl) fun _ => Keeps.pure _

theorem destroy_spending : Spending destroy :=
  Keeps.bind (update_spending fun _ => rfl) fun _ => Keeps.pure _

theorem pass_spending (enabled : List TransitionIndex) : Spending (pass enabled) :=
  pass_keeps (fun _ => .of_same rfl) (microstep_spending enabled)

theorem macrostep_spending : Spending macrostep := by
  rw [macrostep_eq]
  refine Keeps.bind (Keeps.spending (look_keeps fun _ _ => .of_same rfl)) fun found => ?_
  cases found with
  | completion => exact complete_spending
  | destruction => exact destroy_spending
  | stability => exact fun m => Spends.of_same rfl
  | transitions event enabled => exact pass_spending enabled

theorem start_spending : Spending start := by
  refine Keeps.bind (Frames.spending (reach_frames (P := onlyCrash) _)) fun _ => ?_
  refine Keeps.bind Keeps.get fun m => ?_
  split
  · split
    · exact Keeps.bind (Frames.spending (reach_frames (P := onlyCrash) _)) fun _ => Keeps.pure _
    · exact Keeps.pure _
  · refine Keeps.bind (Keeps.spending (P := refused) initializeData_frames) fun _ => ?_
    split
    · exact fun m => ⟨Lasting.refl m, trivial⟩
    · refine Keeps.bind (Keeps.spending (enterStates_keeps Drifts.spends (fun _ _ => .of_same rfl)
        (fun _ _ => .of_same rfl) _)) fun _ => ?_
      exact Keeps.bind (update_spending fun _ => rfl) fun _ => Keeps.pure _

theorem goOn_spending (pending : List (StateIndex × Nat)) : Spending (goOn pending) := by
  refine Keeps.spending (P := never) fun m => ?_
  refine goOn_keeps (fun _ => .of_same rfl) pending m fun s node _ i _ _ => ?_
  exact prepareInvoke_keeps s node i (fun _ _ _ => .of_same rfl) m

theorem afterEffects_spending (next : AfterEffects) : Spending (afterEffects next) := by
  cases next with
  | macrostep => exact Keeps.pure _
  | exit status =>
    exact Keeps.bind (Frames.spending (reach_frames (P := onlyCrash) _)) fun _ => Keeps.pure _

theorem process_spending (e : Event) : Spending (process e) := by
  rw [process_eq]
  refine Keeps.bind ?_ fun enabled => ?_
  · refine Keeps.bind (update_spending fun _ => rfl) fun _ => ?_
    refine Keeps.bind (Keeps.spending (P := refused) (bindEvent_frames e)) fun _ => ?_
    refine Keeps.bind (Frames.spending (passToServices_frames e)) fun _ => ?_
    have selecting : Spending (selectTransitions (some e.name)) :=
      Keeps.spending (selectTransitions_frames _)
    simp only
    split
    · exact Keeps.bind (update_spending fun _ => rfl) fun _ => selecting
    · exact selecting
  · unfold respond
    simp only
    split
    · refine Keeps.bind (update_spending fun _ => rfl) fun _ => ?_
      exact Keeps.bind (microstep_spending enabled) fun _ => Keeps.pure _
    · exact Keeps.pure _

theorem takeInput_spending (input : Input) : Spending (takeInput input) := by
  cases input with
  | destroy => exact destroy_spending
  | suspend => exact suspend_keeps Drifts.spends fun _ _ => .of_same rfl
  | closed =>
    exact Keeps.bind (Frames.spending (reach_frames (P := onlyCrash) _)) fun _ => Keeps.pure _
  | event e => exact process_spending e

end MachineM

namespace Machine

open MachineM

variable {m m' : Machine}

theorem spends_proceed {part : MachineM Control} (kept : Spending part) :
    m.Spends (m.proceed part) := by
  have aborted : ∀ (f : Fault) (n : Machine), m.Spends n → m.Spends (proceed.abort n f) := by
    intro f n before
    exact Lasting.trans before (n.drifts_reach _).spends
  refine proceed_leads (T := m.Spends) (kept m).leads ?_ ?_ ?_ ?_
  · exact fun _ _ _ after => after
  · exact fun f n stopped => aborted f n stopped.1
  · exact fun f n stopped => aborted _ n stopped.1
  · exact fun _ stopped => stopped.1

theorem spends_foldl_raiseFailure (failures : List Failure) (m : Machine) :
    m.Spends (failures.foldl raiseFailure m) := by
  induction failures generalizing m with
  | nil => exact Lasting.refl m
  | cons f rest ih => exact Lasting.trans (Growing.raiseFailure m f) (ih (m.raiseFailure f))

/-- No work of a machine takes an id back. -/
theorem Worked.spends (worked : Worked m m') : m.Spends m' := by
  cases worked with
  | start => exact spends_proceed start_spending
  | macrostep => exact spends_proceed macrostep_spending
  | goOn => exact spends_proceed (goOn_spending _)
  | effects control failures =>
    have told := spends_foldl_raiseFailure failures { m with effects := [] }
    exact Lasting.trans (show m.Spends _ from told) (spends_proceed (afterEffects_spending _))
  | started control failure =>
    exact spends_proceed (Keeps.spending (afterStart_keeps (fun _ _ => .of_same rfl) _ _ failure))

theorem spends_take (m : Machine) (input : Input) : m.Spends (m.take input) := by
  by_cases waiting : m.control = .waiting
  · rw [take_waiting waiting]
    exact spends_proceed (takeInput_spending input)
  · rw [take_other waiting]
    exact Lasting.refl m

/-- A machine that takes up a run has the ids to give out that its host has. -/
theorem resume_spends {c : Chart} {options : Options} {memory : Memory} {b : Bucket}
    (resumed : resume c options memory b = .ok m) : memory.supply ≤ m.memory.supply := by
  obtain ⟨h,context,-,ready⟩ := resume_ok resumed
  exact (setUp_frames c { chart := c, options, memory := { memory with heap := h }, context }).of_ok
    (R := Spends) ready

end Machine

end Statechart

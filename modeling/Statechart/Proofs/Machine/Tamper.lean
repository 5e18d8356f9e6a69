import Statechart.Proofs.Snapshot.Realm

/- The system variables cannot be tampered with. A machine marks them read-only in its data model,
   which no assignment passes over; the event is shown by constant containers all the way down. -/
namespace Statechart

open Heap (Closes Meets Owns Confines Respects)

/-- The realm of a machine that has its heap to itself. -/
def Realm.whole : Realm := ⟨fun _ => True, fun _ => True⟩

namespace Heap

variable {h h' : Heap} {r : Ref} {key : String} {slot : Slot} {v : Value}

theorem Sound.closes (sound : h.Sound) : h.Closes .whole where
  sound := sound
  fresh _ _ := ⟨trivial, trivial⟩
  shared := ⟨trivial, trivial⟩
  near _ _ _ _ _ _ := trivial
  own _ _ _ _ _ _ := Or.inl trivial

theorem Finds.owns (finds : h.Finds v) : Owns .whole h v :=
  ⟨⟨finds, fun _ _ => trivial⟩, fun _ _ => Or.inl trivial⟩

theorem Written.slot? {o : ObjectCell} (written : Written h r key slot o h') (name : String) :
    h'.slot? r name = if key = name then some slot else h.slot? r name := by
  have before : h.object? r = some o := by rw [object?, written.before]
  have after : h'.object? r = some { o with entries := insertEntry key slot o.entries } := by
    rw [object?, written.after]
  simp only [Heap.slot?, before, after, Option.bind_some, ObjectCell.get?, lookupEntry_insertEntry]

theorem object?_of_bare (same : (h'.cell? r).map Cell.bare = (h.cell? r).map Cell.bare) :
    (h'.object? r).map ObjectCell.entries = (h.object? r).map ObjectCell.entries := by
  unfold object?
  cases found : h.cell? r with
  | none =>
    rw [found] at same
    rw [Option.map_eq_none_iff.mp same]
  | some c =>
    rw [found] at same
    obtain ⟨d,found',bare⟩ := Option.map_eq_some_iff.mp same
    rw [found']
    cases c with
    | object o =>
      cases d with
      | object o' =>
        cases o
        cases o'
        simp_all [Cell.bare]
      | array a => cases bare
    | array a =>
      cases d with
      | object o' => cases bare
      | array a' => rfl

theorem items_of_bare (same : (h'.cell? r).map Cell.bare = (h.cell? r).map Cell.bare) :
    h'.items r = h.items r := by
  unfold items array?
  cases found : h.cell? r with
  | none =>
    rw [found] at same
    rw [Option.map_eq_none_iff.mp same]
  | some c =>
    rw [found] at same
    obtain ⟨d,found',bare⟩ := Option.map_eq_some_iff.mp same
    rw [found']
    cases c with
    | object o =>
      cases d with
      | object o' => rfl
      | array a => cases bare
    | array a =>
      cases d with
      | object o' => cases bare
      | array a' =>
        cases a
        cases a'
        simp_all [Cell.bare]

theorem get_of_bare (same : (h'.cell? r).map Cell.bare = (h.cell? r).map Cell.bare) (key : String) :
    h'.get r key = h.get r key := by
  have entries := object?_of_bare same
  have slots : h'.slot? r key = h.slot? r key := by
    have lookup (k : Heap) : k.slot? r key =
        ((k.object? r).map ObjectCell.entries).bind (lookupEntry key) := by
      rw [Option.bind_map]
      rfl
    rw [lookup, lookup, entries]
  unfold Heap.get
  rw [slots]

/-- A constant value reads the same later, along every path. -/
theorem Matures.getPath (matures : h.Matures h') (sound : h.Sound) (path : List String)
    (finds : h.Finds v) (constant : ∀ r, v.ref? = some r → h.access r = .constant) :
    h'.getPath v path = h.getPath v path ∧
      ∀ r, (h.getPath v path).ref? = some r → h.access r = .constant ∧
        (h'.cell? r).map Cell.bare = (h.cell? r).map Cell.bare := by
  induction path generalizing v with
  | nil => exact ⟨rfl, fun r own => ⟨constant r own, matures.frozen finds own (constant r own)⟩⟩
  | cons head rest ih =>
    have plain {w : Value} (bare : w.ref? = none) (r : Ref) (own : w.ref? = some r) :
        h.access r = .constant ∧ (h'.cell? r).map Cell.bare = (h.cell? r).map Cell.bare := by
      rw [bare] at own
      cases own
    cases v with
    | object r =>
      have frozen := constant r rfl
      have same := matures.frozen finds rfl frozen
      rw [Heap.getPath, Heap.getPath, get_of_bare same]
      have child : h.get r head = .undefined ∨ h.get r head ∈ h.children r := by
        unfold Heap.get
        split
        · exact Or.inr (mem_children_of_slot ‹_›)
        · exact Or.inl rfl
      rcases child with none | held
      · rw [none]
        refine ih trivial fun s own => ?_
        cases own
      · exact ih (sound.intact r _ held) fun s own => sound.frozen r frozen _ held s own
    | array r =>
      have frozen := constant r rfl
      have same := matures.frozen finds rfl frozen
      have items := items_of_bare same
      rw [Heap.getPath, Heap.getPath, items]
      split
      · rename_i i _
        have item : h'.getItem r i = h.getItem r i := by rw [getItem, getItem, items]
        rw [item]
        have child : h.getItem r i = .undefined ∨ h.getItem r i ∈ h.children r := by
          unfold getItem
          split
          · exact Or.inr (mem_children_of_item (List.mem_of_getElem? ‹_›))
          · exact Or.inl rfl
        rcases child with none | held
        · rw [none]
          refine ih trivial fun s own => ?_
          cases own
        · exact ih (sound.intact r _ held) fun s own => sound.frozen r frozen _ held s own
      · split
        · exact ⟨rfl, plain rfl⟩
        · exact ⟨rfl, plain rfl⟩
    | _ => exact ⟨rfl, plain rfl⟩

end Heap

/-- No part of the chart is a host's action. -/
abbrev Chart.Unaided (c : Chart) : Prop := c.Customs fun _ => False

namespace Machine

variable {m n : Machine} {shown : Option Exhibit} {x : Exhibit} {e : Event}

/-- An exhibit is shown as it was made: its object stands read-only under its name, and the heap in
    which it was made has since grown older only. -/
structure Displays (m : Machine) (x : Exhibit) : Prop where
  slot : m.heap.slot? m.context.dataModel "_event" = some ⟨.object x.object, true⟩
  sound : x.heap.Sound
  finds : x.heap.Finds (.object x.object)
  constant : x.heap.access x.object = .constant
  matures : x.heap.Matures m.heap

/-- The system variables are as they should be. -/
structure Stands (m : Machine) (shown : Option Exhibit) : Prop where
  abides : m.Abides .whole
  unaided : m.chart.Unaided
  session : m.heap.slot? m.context.dataModel "_sessionid" =
    some ⟨.string m.options.sessionId, true⟩
  chart : m.heap.slot? m.context.dataModel "_name" =
    some ⟨Event.textOrUndefined m.chart.name, true⟩
  event : ∀ x, shown = some x → m.Displays x

abbrev everywhere : Ref → String → Prop := fun _ _ => True

/-- Everywhere but where the event is bound. -/
abbrev butEvent : Ref → String → Prop := fun _ key => key ≠ "_event"

theorem Stands.behave (stands : m.Stands shown) (P : Ref → String → Prop) :
    m.chart.Behaves .whole P := Chart.Customs.mono (fun _ none => none.elim) stands.unaided

theorem Stands.named (stands : m.Stands shown) (P : Ref → String → Prop) : MachineM.Named P m :=
  ⟨fun _ => stands.session, fun _ => stands.chart⟩

theorem Displays.along (displays : m.Displays x) (minds : Minds .whole everywhere m n) :
    n.Displays x where
  slot := by
    rw [minds.data]
    exact minds.respects _ _ _ trivial displays.slot rfl
  sound := displays.sound
  finds := displays.finds
  constant := displays.constant
  matures := displays.matures.trans minds.matures

/-- The names stay wherever the machine writes past no other mark than the event's. -/
theorem Stands.rename (stands : m.Stands shown) (minds : Minds .whole butEvent m n)
    {shown' : Option Exhibit} (event : ∀ x, shown' = some x → n.Displays x) : n.Stands shown' where
  abides := minds.abides stands.abides
  unaided := minds.chart ▸ stands.unaided
  session := by
    rw [minds.data, minds.options]
    exact minds.respects _ _ _ (by simp) stands.session rfl
  chart := by
    rw [minds.data, minds.chart]
    exact minds.respects _ _ _ (by simp) stands.chart rfl
  event := event

theorem Stands.along (stands : m.Stands shown) (minds : Minds .whole everywhere m n) :
    n.Stands shown :=
  stands.rename (minds.weaken fun _ _ _ => trivial) fun x here =>
    (stands.event x here).along minds

theorem Stands.bound (stands : m.Stands shown) (finds : m.heap.Finds e.data)
    (run : MachineM.bindEvent e m = .ok () n) : n.Stands (some (m.exhibit e)) := by
  have minds : Minds .whole butEvent m n := by
    have obeys := MachineM.bindEvent_obeys (P := butEvent) stands.abides finds.owns.toMeets
      fun _ _ kept => kept rfl
    unfold MachineM.ObeysAt MachineM.Obeys MachineM.Leads at obeys
    rw [run] at obeys
    exact obeys.1
  refine stands.rename minds ?_
  intro x here
  cases here
  obtain ⟨data,defined⟩ := MachineM.bindEvent_ok run
  have traced : Minds .whole everywhere m (m.trace (.event e.type e.name)) :=
    .trace stands.abides _
  have closes := (traced.abides stands.abides).closes
  have finds' := (finds.owns.mono traced.matures).toMeets
  obtain ⟨grown,confines,owns⟩ := MachineM.toObject_confines closes finds'
  obtain ⟨_,_,object,_,found,constant,_⟩ := Heap.toObject_replica closes.sound finds'.finds
  obtain ⟨o,written⟩ := Heap.writeEntry_ok defined
  exact {
    slot := by
      rw [data, written.slot?, if_pos rfl]
      rfl
    sound := confines.closes.sound
    finds := owns.finds
    constant := (Heap.access_of_cell found).trans constant
    matures := written.matures confines.closes.sound owns.finds }

/-- What a part does that leaves the bound event alone. -/
theorem Stands.obeyed {α : Type} {y : MachineM α} {Q : α → Machine → Prop}
    (stands : m.Stands shown) (obeys : MachineM.Obeys .whole everywhere y m Q) :
    (∀ a n, y m = .ok a n → n.Stands shown) ∧ ∀ i n, y m = .error i n → n.Stands shown := by
  unfold MachineM.Obeys MachineM.Leads at obeys
  constructor
  · intro a n run
    rw [run] at obeys
    exact stands.along obeys.1
  · intro i n run
    rw [run] at obeys
    exact stands.along obeys

theorem Stands.proceed (stands : m.Stands shown) {part : MachineM Control}
    (obeys : MachineM.Obeys .whole everywhere part m (MachineM.Carries .whole)) :
    (m.proceed part).Stands shown := stands.along (.proceed stands.abides obeys)

end Machine

namespace MachineM

open Machine

variable {α β : Type} {m n l : Machine} {shown : Option Exhibit} {x : Exhibit} {e : Event}

section Shapes

theorem bind_run_congr {y z : MachineM α} (f : α → MachineM β) (same : y m = z n) :
    (y >>= f) m = (z >>= f) n := by
  simp only [bind, EStateM.bind, same]

theorem defineVariable_ok {key : String} {v : Value} (run : defineVariable key v m = .ok () n) :
    n.setting = m.setting ∧ n.context.dataModel = m.context.dataModel ∧
      m.heap.define m.context.dataModel key v true = .ok n.heap := by
  rw [defineVariable, get_bind, requireHeap] at run
  split at run
  · rename_i h defined
    cases run
    exact ⟨rfl, rfl, defined⟩
  · cases run

theorem shows?_eq_some (shows : m.shows? e = some x) :
    x = m.exhibit e ∧ ∃ n, bindEvent e m = .ok () n := by
  unfold shows? at shows
  split at shows
  · rename_i n run
    cases shows
    exact ⟨rfl, n, run⟩
  · cases shows

theorem macrostep_finds (finds : m.finds? = some x) : ∃ e rest k l,
    selectTransitions none m = .ok [] k ∧ k.context.internalQueue = e :: rest ∧
      bindEvent e { k with context := { k.context with internalQueue := rest } } = .ok () l ∧
      x = Machine.exhibit { k with context := { k.context with internalQueue := rest } } e ∧
      macrostep m = (selectTransitions (some e.name) >>= pass) l := by
  unfold finds? at finds
  split at finds
  · cases finds
  · rename_i going
    split at finds
    · rename_i k selected
      split at finds
      · cases finds
      · rename_i e rest queued
        obtain ⟨made,l,bound⟩ := shows?_eq_some finds
        refine ⟨e, rest, k, l, selected, queued, bound, made, ?_⟩
        simp only [Bool.or_eq_true, not_or] at going
        rw [macrostep, get_bind, if_neg going.1, if_neg going.2, bind_of_ok _ selected]
        simp only [List.isEmpty_nil, Bool.not_true, Bool.false_eq_true, if_false, get_bind]
        rw [queued]
        exact bind_of_ok _ bound
    · cases finds

/-- An external event is bound before anything else is done about it. -/
theorem process_bound (bound : bindEvent e { m with steps := 0 } = .ok () l) :
    process e m = ((attend e >>= fun _ => selectTransitions (some e.name)) >>= respond) l := by
  rw [process_eq]
  refine bind_run_congr respond ?_
  rw [receive_eq, announce_bind, bind_assoc]
  exact bind_of_ok _ bound

end Shapes

/-- A machine that has named itself shows its names. -/
theorem bindSystemVariables_stands (abides : m.Abides .whole) (unaided : m.chart.Unaided)
    (run : bindSystemVariables m = .ok () n) : n.Stands none := by
  have nowhere : Named (fun _ _ => False) m := ⟨False.elim, False.elim⟩
  have obeys := bindSystemVariables_obeys abides nowhere
  unfold ObeysAt Obeys Leads at obeys
  rw [run] at obeys
  have minds := obeys.1
  rw [bindSystemVariables, get_bind] at run
  obtain ⟨_,k,first,second⟩ := bind_eq_ok run
  obtain ⟨setting,data,defined⟩ := defineVariable_ok first
  obtain ⟨setting',data',defined'⟩ := defineVariable_ok second
  obtain ⟨o,written⟩ := Heap.writeEntry_ok defined
  obtain ⟨o',written'⟩ := Heap.writeEntry_ok defined'
  rw [data] at written'
  exact {
    abides := minds.abides abides
    unaided := minds.chart ▸ unaided
    session := by
      rw [minds.data, minds.options, written'.slot?, if_neg (by decide), written.slot?, if_pos rfl]
    chart := by
      rw [minds.data, minds.chart, written'.slot?, if_pos rfl]
    event := fun x none => by cases none }

theorem initializeData_stands (abides : m.Abides .whole) (unaided : m.chart.Unaided)
    (run : initializeData m = .ok () n) : n.Stands none := by
  obtain ⟨_,k,named,run⟩ := bind_eq_ok run
  have stands := bindSystemVariables_stands abides unaided named
  exact (stands.obeyed (declareAll_obeys stands.abides _)).1 () _ run

end MachineM

namespace Machine

open MachineM

variable {m n : Machine} {shown : Option Exhibit} {x : Exhibit} {e : Event}

/-- The machine goes on, and shows what it binds on the way. -/
theorem Stands.work (stands : m.Stands shown) (work : Work m n) :
    n.Stands (m.hears?.or shown) := by
  cases heard : m.hears? with
  | none =>
    exact stands.along (work.minds stands.abides (stands.behave _) (stands.named _) fun _ => heard)
  | some x =>
    have control : m.control = .macrostep := by
      unfold hears? at heard
      split at heard
      · assumption
      · cases heard
    have finds : m.finds? = some x := by rwa [hears?, control] at heard
    have stepped : n = m.proceed macrostep := by
      cases work.worked with
      | macrostep => rfl
      | start other => rw [control] at other; cases other
      | goOn other => rw [control] at other; cases other
      | effects other => rw [control] at other; cases other
      | started other => rw [control] at other; cases other
    obtain ⟨e,rest,k,l,selected,queued,bound,rfl,run⟩ := macrostep_finds finds
    have reached := (stands.obeyed (selectTransitions_obeys stands.abides none)).1 _ _ selected
    obtain ⟨meets,popped⟩ := popped_minds (P := everywhere) reached.abides queued
    have stands' := (reached.along popped).bound meets.finds bound
    have obeys : Obeys .whole everywhere (selectTransitions (some e.name) >>= pass) l
        (Carries .whole) := by
      refine .bind (selectTransitions_obeys stands'.abides _) fun enabled n minds _ => ?_
      exact pass_obeys (minds.abides stands'.abides) (minds.behaves (stands'.behave _)) enabled
    have same : m.proceed macrostep = l.proceed (selectTransitions (some e.name) >>= pass) :=
      proceed_of_eq run
    rw [stepped, same]
    exact stands'.proceed obeys

theorem Stands.take (stands : m.Stands shown) {input : Input}
    (finds : ∀ e, input = .event e → m.heap.Finds e.data) :
    (m.take input).Stands ((m.takes? input).or shown) := by
  cases taken : m.takes? input with
  | none =>
    exact stands.along (take_minds stands.abides (stands.behave _)
      (fun e here => (finds e here).owns.toMeets) fun _ => taken)
  | some x =>
    obtain ⟨e,rfl⟩ : ∃ e, input = .event e := by
      cases input with
      | event e => exact ⟨e, rfl⟩
      | _ => cases taken
    have waiting : m.control = .waiting := by
      simp only [takes?] at taken
      split at taken
      · assumption
      · cases taken
    rw [takes?_event waiting] at taken
    obtain ⟨rfl,l,bound⟩ := shows?_eq_some taken
    have begun : Minds .whole everywhere m { m with steps := 0 } :=
      .shift stands.abides rfl rfl rfl fun _ held => Or.inl held
    have there := finds e rfl
    have stands' := (stands.along begun).bound there bound
    have minds : m.heap.Matures l.heap := by
      have obeys := bindEvent_obeys (P := butEvent) (begun.abides stands.abides)
        there.owns.toMeets fun _ _ kept => kept rfl
      unfold ObeysAt Obeys Leads at obeys
      rw [bound] at obeys
      exact obeys.1.matures
    have obeys : Obeys .whole everywhere
        ((attend e >>= fun _ => selectTransitions (some e.name)) >>= respond) l
        (Carries .whole) := by
      have attended : ObeysAt .whole everywhere
          (attend e >>= fun _ => selectTransitions (some e.name)) l := by
        refine .bind (attend_obeys stands'.abides (stands'.behave _)
          (there.owns.mono minds).toMeets) fun _ n minds _ => ?_
        exact selectTransitions_obeys (minds.abides stands'.abides) _
      refine .bind attended fun enabled n minds _ => ?_
      exact respond_obeys (minds.abides stands'.abides) (minds.behaves (stands'.behave _)) enabled
    have same : m.take (.event e) = l.proceed
        ((attend e >>= fun _ => selectTransitions (some e.name)) >>= respond) := by
      rw [take_waiting waiting]
      exact proceed_of_eq (process_bound bound)
    rw [same]
    exact stands'.proceed obeys

/-- A point of a run whose data has been declared, together with the event that was bound last.
    Besides the points between two steps these are the points inside of one: after any content has
    run or failed, and however the rest of the machine stands then. -/
inductive Underway : Machine → Option Exhibit → Prop where
  | declared {chart : Chart} {options : Options} {memory : Memory} {n : Machine}
      (unaided : chart.Unaided) (sound : memory.heap.Sound)
      (arguments : ∀ r, options.arguments = some r → memory.heap.Finds (.object r))
      (run : initializeData ((create chart options memory).start.reach .started) = .ok () n) :
      Underway n none
  /-- A new machine that got past its data has made its first step. -/
  | entered {chart : Chart} {options : Options} {memory : Memory}
      (unaided : chart.Unaided) (sound : memory.heap.Sound)
      (arguments : ∀ r, options.arguments = some r → memory.heap.Finds (.object r))
      (run : ∃ n, initializeData ((create chart options memory).start.reach .started) = .ok () n) :
      Underway (create chart options memory).start.step none
  /-- A run has been taken up from a snapshot. -/
  | resumed {chart : Chart} {options : Options} {memory : Memory} {b : Bucket} {m : Machine}
      (unaided : chart.Unaided) (sound : memory.heap.Sound)
      (arguments : ∀ r, options.arguments = some r → memory.heap.Finds (.object r))
      (resumed : resume chart options memory b = .ok m) : Underway m none
  | start {m : Machine} {shown : Option Exhibit} (point : Underway m shown) :
      Underway m.start shown
  | work {m n : Machine} {shown : Option Exhibit} (point : Underway m shown) (work : Work m n) :
      Underway n (m.hears?.or shown)
  | take {m : Machine} {shown : Option Exhibit} (point : Underway m shown) (input : Input)
      (finds : ∀ e, input = .event e → m.heap.Finds e.data) :
      Underway (m.take input) ((m.takes? input).or shown)
  /-- Others have been at work in the heap. They may have written to what they came by, but the
      data model itself is not in their reach. -/
  | disturb {m : Machine} {shown : Option Exhibit} (point : Underway m shown) (memory : Memory)
      (destroyed : Bool) (reports : List Report) (matures : m.heap.Matures memory.heap)
      (respects : Respects (fun r _ => r = m.context.dataModel) m.heap memory.heap) :
      Underway (m.disturb memory destroyed reports) shown
  /-- Content has run inside of a step, or has failed. -/
  | content {m n : Machine} {shown : Option Exhibit} (point : Underway m shown)
      {actions : List Action} (unaided : Action.customsOfAll (fun _ => False) actions)
      (run : executeAll actions m = .ok () n ∨ ∃ i, executeAll actions m = .error i n) :
      Underway n shown
  | prepare {m n : Machine} {shown : Option Exhibit} (point : Underway m shown) {s : StateIndex}
      {node : Nat} {i : InvokeNode}
      (run : (∃ data, prepareInvoke s node i m = .ok data n) ∨
        ∃ stop, prepareInvoke s node i m = .error stop n) : Underway n shown
  | raise {m : Machine} {shown : Option Exhibit} (point : Underway m shown) (f : Failure) :
      Underway (m.raiseFailure f) shown
  | bind {m n : Machine} {shown : Option Exhibit} (point : Underway m shown) {e : Event}
      (finds : m.heap.Finds e.data) (run : bindEvent e m = .ok () n) :
      Underway n (some (m.exhibit e))
  /-- States, queues, effects and reports have changed, the data has not. -/
  | elsewhere {m n : Machine} {shown : Option Exhibit} (point : Underway m shown)
      (heap : n.heap = m.heap) (setting : n.setting = m.setting)
      (data : n.context.dataModel = m.context.dataModel)
      (holdings : ∀ v ∈ n.holdings, m.heap.Finds v) : Underway n shown

theorem create_abides {chart : Chart} {options : Options} {memory : Memory}
    (sound : memory.heap.Sound)
    (arguments : ∀ r, options.arguments = some r → memory.heap.Finds (.object r)) :
    ((create chart options memory).start.reach .started).Abides .whole := by
  obtain ⟨confines,owns⟩ := sound.closes.newObject
  have abides : (create chart options memory).start.Abides .whole := by
    refine ⟨confines.closes, owns, fun r own => ?_, fun v held => ?_⟩
    · exact (arguments r own).owns.mono confines.matures
    · rw [List.mem_singleton.mp held]
      exact (Owns.of_bare rfl).toMeets
  exact (Minds.reach (P := everywhere) abides .started).abides abides

theorem create_declared {chart : Chart} {options : Options} {memory : Memory}
    (unaided : chart.Unaided) (sound : memory.heap.Sound)
    (arguments : ∀ r, options.arguments = some r → memory.heap.Finds (.object r))
    (run : initializeData ((create chart options memory).start.reach .started) = .ok () n) :
    n.Stands none := by
  refine initializeData_stands (create_abides sound arguments) ?_ run
  have same : ((create chart options memory).start.reach .started).chart = chart :=
    congrArg Machine.chart (frame_reach _ _)
  rwa [same]

theorem create_entered {chart : Chart} {options : Options} {memory : Memory}
    (unaided : chart.Unaided) (sound : memory.heap.Sound)
    (arguments : ∀ r, options.arguments = some r → memory.heap.Finds (.object r))
    (run : initializeData ((create chart options memory).start.reach .started) = .ok () n) :
    (create chart options memory).start.step.Stands none := by
  have stands := create_declared unaided sound arguments run
  have begun : MachineM.start (create chart options memory).start = settleIn chart n := by
    rw [start_first rfl, enterInitial_eq]
    exact bind_of_ok _ run
  have same : (create chart options memory).start.step = n.proceed (settleIn chart) :=
    proceed_of_eq begun
  rw [same]
  exact stands.proceed (settleIn_obeys stands.abides (stands.behave _) chart)

theorem resume_stands {chart : Chart} {options : Options} {memory : Memory} {b : Bucket}
    (unaided : chart.Unaided) (sound : memory.heap.Sound)
    (arguments : ∀ r, options.arguments = some r → memory.heap.Finds (.object r))
    (resumed : resume chart options memory b = .ok m) : m.Stands none := by
  obtain ⟨h,x,ready,_,_,abides⟩ := resume_confines sound.closes
    (fun r own => (arguments r own).owns) resumed
  obtain ⟨_,k,named,run⟩ := bind_eq_ok ready
  have stands := bindSystemVariables_stands abides unaided named
  have missing : ObeysAt .whole everywhere
      ((chart.states.toList.flatMap (·.data)).forM declareMissing) k :=
    .forM stands.abides fun d _ _ minds => declareMissing_obeys (minds.abides stands.abides) d
  exact (stands.obeyed missing).1 () _ run

theorem Stands.disturb (stands : m.Stands shown) (memory : Memory) (destroyed : Bool)
    (reports : List Report) (matures : m.heap.Matures memory.heap)
    (respects : Respects (fun r _ => r = m.context.dataModel) m.heap memory.heap) :
    (m.disturb memory destroyed reports).Stands shown := by
  have abides := stands.abides
  exact {
    abides := {
      closes := matures.sound.closes
      data := abides.data.mono matures
      arguments := fun r own => (abides.arguments r own).mono matures
      holdings := fun v held => (abides.holdings v held).mono matures }
    unaided := stands.unaided
    session := respects _ _ _ rfl stands.session rfl
    chart := respects _ _ _ rfl stands.chart rfl
    event := fun x here => {
      slot := respects _ _ _ rfl (stands.event x here).slot rfl
      sound := (stands.event x here).sound
      finds := (stands.event x here).finds
      constant := (stands.event x here).constant
      matures := (stands.event x here).matures.trans matures } }

theorem Underway.stands (underway : Underway m shown) : m.Stands shown := by
  induction underway with
  | declared unaided sound arguments run => exact create_declared unaided sound arguments run
  | entered unaided sound arguments run =>
    obtain ⟨_,run⟩ := run
    exact create_entered unaided sound arguments run
  | resumed unaided sound arguments resumed => exact resume_stands unaided sound arguments resumed
  | start _ stands =>
    refine stands.along (.shift stands.abides rfl rfl rfl fun v held => Or.inl ?_)
    simp only [holdings, Machine.start, Control.values, List.mem_append, List.mem_cons,
      List.not_mem_nil, or_false] at held ⊢
    tauto
  | work _ work stands => exact stands.work work
  | take _ input finds stands => exact stands.take finds
  | disturb _ memory destroyed reports matures respects stands =>
    exact stands.disturb memory destroyed reports matures respects
  | content _ unaided run stands =>
    have behave : Action.customsOfAll (CustomAction.Behaves .whole everywhere) _ :=
      Action.customsOfAll_mono (fun _ none => none.elim) unaided
    have obeyed := stands.obeyed (executeAll_obeys _ stands.abides behave)
    rcases run with done | ⟨i,failed⟩
    · exact obeyed.1 () _ done
    · exact obeyed.2 i _ failed
  | @prepare _ _ _ _ s node i run stands =>
    have obeyed := stands.obeyed (prepareInvoke_obeys stands.abides s node i)
    rcases run with ⟨data,done⟩ | ⟨stop,failed⟩
    · exact obeyed.1 data _ done
    · exact obeyed.2 stop _ failed
  | raise _ f stands => exact stands.along (.raiseFailure stands.abides f)
  | bind _ finds run stands => exact stands.bound finds run
  | elsewhere _ heap setting data held stands =>
    refine stands.along (.shift stands.abides heap setting data fun v here => Or.inr ?_)
    exact (held v here).owns.toMeets

theorem evaluate_path (m : Machine) (path : List String) :
    evaluate (.path path) m = .ok (m.heap.getPath (.object m.context.dataModel) path) m := rfl

theorem getPath_slot {key : String} {slot : Slot}
    (there : m.heap.slot? m.context.dataModel key = some slot) (path : List String) :
    m.heap.getPath (.object m.context.dataModel) (key :: path) =
      m.heap.getPath slot.value path := by
  rw [Heap.getPath, Heap.get, there]

/-- At every point of a run past its data the names read as they should. From when an event is bound
    the event reads, along every path, as it did when its object was made, and whatever containers
    a path leads to hold what they held then. -/
theorem system_variables_stand (underway : Underway m shown) :
    evaluate (.path ["_sessionid"]) m = .ok (.string m.options.sessionId) m ∧
      evaluate (.path ["_name"]) m = .ok (Event.textOrUndefined m.chart.name) m ∧
      ∀ x, shown = some x → evaluate (.path ["_event"]) m = .ok (.object x.object) m ∧
        ∀ path, evaluate (.path ("_event" :: path)) m =
            .ok (x.heap.getPath (.object x.object) path) m ∧
          ∀ r, (x.heap.getPath (.object x.object) path).ref? = some r →
            x.heap.access r = .constant ∧
              (m.heap.cell? r).map Cell.bare = (x.heap.cell? r).map Cell.bare := by
  have stands := underway.stands
  refine ⟨?_, ?_, fun x here => ?_⟩
  · rw [evaluate_path, getPath_slot stands.session]
    rfl
  · rw [evaluate_path, getPath_slot stands.chart]
    rfl
  · have displays := stands.event x here
    refine ⟨?_, fun path => ?_⟩
    · rw [evaluate_path, getPath_slot displays.slot]
      rfl
    · have same := displays.matures.getPath displays.sound path displays.finds (by
        intro r own
        cases own
        exact displays.constant)
      refine ⟨?_, same.2⟩
      rw [evaluate_path, getPath_slot displays.slot, same.1]

end Machine

namespace GuardedEvent

open Machine

/-- A state that takes any event into a variable and then writes to the variable. -/
def chart : Chart where
  name := some "guarded"
  states := #[
    { (default : StateNode) with children := [1], initial := some 0, data := [⟨"x", none⟩] },
    { (default : StateNode) with id := "a", document := 1, parent := some 0, transitions := [1] }]
  transitions := #[
    { (default : TransitionNode) with targets := [1] },
    { (default : TransitionNode) with
      document := 2, source := 1, events := [.any]
      actions := [.assign ["x"] (.path ["_event"]),
        .assign ["x", "name"] (.literal (.string "other"))] }]
  checksum := ""

def entered : Machine := (Machine.create chart { sessionId := "s" } default).start.step

def waiting : Machine := entered.step.step.step

def go : Event := Event.external ⟨["go"]⟩

def answered : Machine := waiting.take (.event go)

theorem chart_unaided : chart.Unaided := by
  refine ⟨fun s => ?_, fun s => ?_, fun t => ?_, fun s i within => ?_⟩
  · match s with
    | 0 | 1 | s + 2 => trivial
  · match s with
    | 0 | 1 | s + 2 => trivial
  · match t with
    | 0 | t + 2 => trivial
    | 1 => exact ⟨trivial, trivial, trivial⟩
  · match s with
    | 0 | 1 | s + 2 => cases within

theorem answered_underway : Underway answered ((waiting.takes? (.event go)).or none) := by
  have begun : Underway entered none :=
    .entered chart_unaided Heap.initial_sound (fun _ none => by cases none) ⟨_, rfl⟩
  have one := begun.work (.step entered (by decide +kernel))
  have two := one.work (.step entered.step (by decide +kernel))
  have three := two.work (.step entered.step.step (by decide +kernel))
  have silent : (entered.step.step.hears?.or (entered.step.hears?.or (entered.hears?.or none)))
      = none := Option.isNone_iff_eq_none.mp (by decide +kernel)
  rw [silent] at three
  exact three.take (.event go) fun e here => by
    cases here
    trivial

def textAt (x : Exhibit) (path : List String) : Option String :=
  match x.heap.getPath (.object x.object) path with
  | .string text => some text
  | _ => none

/-- The name of the event stays, though the machine has tried to change it. -/
theorem go_stands : MachineM.evaluate (.path ["_sessionid"]) answered = .ok (.string "s") answered ∧
    MachineM.evaluate (.path ["_name"]) answered = .ok (.string "guarded") answered ∧
    MachineM.evaluate (.path ["_event", "name"]) answered = .ok (.string "go") answered := by
  obtain ⟨session,name,event⟩ := system_variables_stand answered_underway
  have id : answered.options.sessionId = "s" := by decide +kernel
  have named : answered.chart.name = some "guarded" := by decide +kernel
  have text : ((waiting.takes? (.event go)).or none).map (textAt · ["name"]) = some (some "go") := by
    decide +kernel
  rw [id] at session
  rw [named] at name
  obtain ⟨x,here,text⟩ := Option.map_eq_some_iff.mp text
  have read := ((event x here).2 ["name"]).1
  unfold textAt at text
  split at text
  · rename_i value
    cases text
    rw [value] at read
    exact ⟨session, name, read⟩
  · cases text

end GuardedEvent

end Statechart

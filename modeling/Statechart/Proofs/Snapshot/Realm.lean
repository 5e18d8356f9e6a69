import Statechart.Proofs.Machine.Abiding
import Statechart.Proofs.Snapshot.RoundTrip

/- What is read from a snapshot is made anew, so it belongs to whoever reads it. -/
namespace Statechart

open Heap (Closes Meets Owns Confines Respects)

namespace ReadM

variable {α β : Type} {Q : β → Prop}

/-- Whatever the reader reads is of a kind. -/
def Gives (Q : β → Prop) (x : ReadM β) : Prop := ∀ (m : Manuscript) (n : Nat) (b : β) (n' : Nat),
  (x m).run n = some (b, n') → Q b

theorem Gives.pure {b : β} (holds : Q b) : Gives Q (Pure.pure b : ReadM β) := by
  intro m n b' n' run
  cases run
  exact holds

theorem Gives.bind {x : ReadM α} {f : α → ReadM β} (rest : ∀ a, Gives Q (f a)) :
    Gives Q (x >>= f) := by
  intro m n b n' run
  obtain ⟨⟨a,k⟩,_,run⟩ := Option.bind_eq_some_iff.mp run
  exact rest a m k b n' run

theorem Gives.read {p : Place → ReadM β} (gives : ∀ place, Gives Q (p place)) {m : Manuscript}
    {b : β} (read : m.read p = some b) : Q b := by
  obtain ⟨⟨b',n⟩,run,rfl⟩ := Option.map_eq_some_iff.mp read
  exact gives _ m _ _ _ run

end ReadM

variable {D : Realm} {P : Ref → String → Prop} {h h' : Heap} {c : Chart} {b : Bucket}

namespace Heap

/-- The heap and the value have come of building something, or nothing. -/
def Built (h : Heap) (made : Heap × Value) : Prop := made = (h, .undefined) ∨ ∃ t, made = h.build t

theorem Built.confines {v : Value} (closes : h.Closes D) (built : Built h (h', v)) :
    h.Extends h' ∧ Confines D h h' ∧ Owns D h' v := by
  rcases built with none | ⟨t,made⟩
  · cases none
    exact ⟨.refl h, .refl closes, .of_bare rfl⟩
  · have both := closes.build t
    have grown := extends_build h t
    rw [← made] at both grown
    exact ⟨grown, both⟩

end Heap

theorem Event.read_built (p : Place) :
    (Event.read h p).Gives fun made => Heap.Built h (made.1, made.2.data) := by
  unfold Event.read
  iterate 9 refine .bind fun _ => ?_
  refine .pure ?_
  split
  · exact Or.inr ⟨_, rfl⟩
  · exact Or.inl rfl

namespace Context

theorem readEvent_confines {acc : Heap × List Event} (closes : acc.1.Closes D) {j : Json}
    {made : Heap × List Event} (read : readEvent acc j = .ok made) :
    acc.1.Extends made.1 ∧ Confines D acc.1 made.1 ∧
      ∀ e ∈ made.2, e ∈ acc.2 ∨ Owns D made.1 e.data := by
  unfold readEvent at read
  split at read
  · rename_i k e found
    cases read
    have built := ReadM.Gives.read Event.read_built found
    obtain ⟨grown,confines,owns⟩ := built.confines closes
    refine ⟨grown, confines, fun d held => ?_⟩
    rcases List.mem_append.mp held with old | new
    · exact Or.inl old
    · rw [List.mem_singleton.mp new]
      exact Or.inr owns
  · cases read

theorem readEvents_confines (stored : List Json) {acc made : Heap × List Event}
    (closes : acc.1.Closes D) (old : ∀ e ∈ acc.2, Owns D acc.1 e.data)
    (read : stored.foldlM readEvent acc = .ok made) :
    acc.1.Extends made.1 ∧ Confines D acc.1 made.1 ∧ ∀ e ∈ made.2, Owns D made.1 e.data := by
  induction stored generalizing acc with
  | nil =>
    cases read
    exact ⟨.refl _, .refl closes, old⟩
  | cons j rest ih =>
    rw [List.foldlM_cons] at read
    obtain ⟨next,first,read⟩ := Except.bind_eq_ok read
    obtain ⟨grown,confines,owns⟩ := readEvent_confines closes first
    have old' : ∀ e ∈ next.2, Owns D next.1 e.data := fun e held =>
      (owns e held).elim (fun there => (old e there).mono confines.matures) id
    obtain ⟨grown',confines',owns'⟩ := ih confines.closes old' read
    exact ⟨grown.trans grown', confines.trans confines', owns'⟩

/-- A context that is read from a snapshot owns whatever it holds. -/
theorem restore_confines (closes : h.Closes D) {x : Context}
    (restored : restore c h b = .ok (h', x)) :
    h.Extends h' ∧ Confines D h h' ∧ Owns D h' (.object x.dataModel) ∧
      (∀ e ∈ x.internalQueue, Owns D h' e.data) ∧ Owns D h' x.result := by
  obtain ⟨k,_,_,_,queued,_,own,ends⟩ := restore_ok restored
  rw [restoreQueue_eq] at queued
  have start : ∀ e ∈ ([] : List Event), Owns D h e.data := fun _ none => by cases none
  obtain ⟨grown,confines,owns⟩ := readEvents_confines _ closes start queued
  dsimp only at grown confines owns
  have data : Heap.Built k
      ((restoreData k b).1, .object (restoreData k b).2) := Or.inr ⟨.object _, rfl⟩
  obtain ⟨grown₁,confines₁,owns₁⟩ := data.confines confines.closes
  have result : Heap.Built (restoreData k b).1 (h', x.result) := by
    rw [← ends]
    unfold restoreResult
    split
    · exact Or.inr ⟨_, rfl⟩
    · exact Or.inl rfl
  obtain ⟨grown₂,confines₂,owns₂⟩ := result.confines confines₁.closes
  have both := confines₁.trans confines₂
  rw [own]
  exact ⟨grown.trans (grown₁.trans grown₂), confines.trans both, owns₁.mono confines₂.matures,
    fun e held => (owns e held).mono both.matures, owns₂⟩

end Context

namespace Machine

open MachineM

variable {m : Machine} {options : Options} {memory : Memory}

/-- A machine that takes up a run is in a realm of its own, but for its arguments. -/
theorem resume_confines (closes : memory.heap.Closes D)
    (arguments : ∀ r, options.arguments = some r → Owns D memory.heap (.object r))
    (resumed : resume c options memory b = .ok m) : ∃ h context,
      MachineM.setUp c { chart := c, options, memory := { memory with heap := h }, context }
        = .ok () m ∧ memory.heap.Extends h ∧ Confines D memory.heap h ∧
      Abides D { chart := c, options, memory := { memory with heap := h }, context } := by
  obtain ⟨h,x,restored,ready⟩ := resume_ok resumed
  obtain ⟨grown,confines,data,queue,result⟩ := Context.restore_confines closes restored
  refine ⟨h, x, ready, grown, confines, confines.closes, data, fun r own => ?_, fun v held => ?_⟩
  · exact (arguments r own).mono confines.matures
  · simp only [Machine.holdings, List.mem_append, List.mem_map, List.mem_cons] at held
    rcases held with (⟨e,within,rfl⟩ | none) | rfl | none
    · exact (queue e within).toMeets
    · cases none
    · exact result.toMeets
    · cases none

/-- It is ready to go on in the realm. -/
theorem resume_abides (closes : memory.heap.Closes D)
    (arguments : ∀ r, options.arguments = some r → Owns D memory.heap (.object r))
    (resumed : resume c options memory b = .ok m) :
    Confines D memory.heap m.heap ∧ m.start.Abides D ∧ m.chart = c := by
  obtain ⟨h,x,ready,-,confines,abides⟩ := resume_confines closes arguments resumed
  have obeyed := MachineM.setUp_obeys (P := fun _ _ => False) abides ⟨nofun, nofun⟩ c
  unfold MachineM.ObeysAt MachineM.Obeys MachineM.Leads at obeyed
  rw [ready] at obeyed
  have minds := obeyed.1
  have abides := minds.abides abides
  refine ⟨confines.trans minds.confines, ⟨abides.closes, abides.data, abides.arguments, ?_⟩,
    minds.chart⟩
  intro v held
  refine abides.holdings v ?_
  simp only [holdings, Machine.start, Control.values, List.mem_append, List.mem_cons,
    List.not_mem_nil, or_false] at held ⊢
  tauto

end Machine

end Statechart

import Mathlib.Data.List.Nodup
import Statechart.Proofs.Chart.Positions
import Statechart.Proofs.Chart.Scope

/- How accepted charts are laid out.

   The states stand in the order of a walk through the tree, so that everything inside of a state
   follows it directly. What is left in descending order and entered in ascending order is therefore
   left from the inside out and entered from the outside in. -/
namespace Statechart

namespace Compile

theorem duplicate_none {seen ids : List String} (none : duplicate? seen ids = none) :
    ids.Nodup ∧ ∀ id ∈ ids, id ∉ seen := by
  induction ids generalizing seen with
  | nil => exact ⟨List.nodup_nil, fun id hid => by cases hid⟩
  | cons id rest ih =>
    unfold duplicate? at none
    split at none
    · cases none
    · rename_i fresh
      have fresh : id ∉ seen := by simpa using fresh
      obtain ⟨distinct,others⟩ := ih none
      constructor
      · apply List.nodup_cons.mpr
        constructor
        · intro again
          exact others id again List.mem_cons_self
        · exact distinct
      · intro other hother
        rcases List.mem_cons.mp hother with rfl | later
        · exact fresh
        · intro old
          exact others other later (List.mem_cons_of_mem id old)

theorem resolve_distinct {c c' : Chart} {pending : List (TransitionIndex × List String)}
    (run : resolve c pending = .ok c') : (c'.states.toList.map (·.id)).Nodup := by
  have same := (resolve_targeted run).states
  unfold resolve at run
  split at run
  · cases run
  · rename_i none
    rw [same]
    exact (duplicate_none none).1

theorem Draft.sound_nothing : ({} : Draft).Sound where
  parents s p hp := by
    rw [Draft.state_unlisted (Nat.zero_le s)] at hp
    cases hp
  children s := by
    rw [Draft.state_unlisted (Nat.zero_le s)]
    exact List.Pairwise.nil
  owned o k mem := by
    cases mem

theorem Targeted.positions {d : Draft} {name : Option String} {checksum : String} {c : Chart}
    (targeted : Targeted (d.chart name checksum) c) : c.positions = d.positions := by
  have states : c.statePositions = d.statePositions := by
    funext s
    have same : c.state s = d.state s :=
      congrArg (fun a : Array StateNode => a.getD s default) targeted.states
    rw [Chart.statePositions, Draft.statePositions, same]
  have size : c.states.size = d.states.size := congrArg Array.size targeted.states
  have size' : c.transitions.size = d.transitions.size := targeted.size
  unfold Chart.positions Draft.positions
  rw [states, Chart.indices, size, size']
  congr 1
  apply List.map_congr_left
  intro t _
  have source : (c.transition t).source = (d.transition t).source := targeted.source t
  have document : (c.transition t).document = (d.transition t).document := targeted.document t
  rw [source, document]

end Compile

namespace Chart

open Compile

variable {c : Chart} {s x t u : Nat}

/-- The layout of a chart. -/
structure Layout (c : Chart) : Prop where
  /-- The root is the one state without a parent. -/
  root : ∀ s : Nat, s < c.states.size → ((c.state s).parent = none ↔ s = Chart.root)
  /-- A parent stands before its children and lists each once. -/
  parent : ∀ s p : Nat, (c.state s).parent = some p → p < s ∧ (c.state p).children.count s = 1
  children : ∀ p s : Nat, s ∈ (c.state p).children → (c.state s).parent = some p
  ascending : ∀ s : Nat, (c.state s).children.Pairwise (· < ·)
  /-- What is inside of a state is a stretch that begins right after it. -/
  inside : ∀ s : Nat, s < c.states.size → ∃ stop : Nat, s < stop ∧ stop ≤ c.states.size ∧
    ∀ x : Nat, c.isDescendant x s = true ↔ s + 1 ≤ x ∧ x < stop
  stateDocuments : ∀ s x : Nat, s < x → x < c.states.size →
    (c.state s).document < (c.state x).document
  transitionDocuments : ∀ t u : Nat, t < u → u < c.transitions.size →
    (c.transition t).document < (c.transition u).document
  /-- No position is given to two of all states, invokes and transitions. -/
  distinct : (c.positions.map (·.2)).Nodup
  /-- The positions of a state and of all that is inside of it are a stretch. -/
  contiguous : ∀ s : Nat, s < c.states.size → ∃ stop : Nat, ∀ k : Nat,
    (∃ o : Nat, (o, k) ∈ c.positions ∧ (o = s ∨ c.isDescendant o s = true)) ↔
      (c.state s).document ≤ k ∧ k < stop
  ids : (c.states.toList.map (·.id)).Nodup
  targets : ∀ t : Nat, ∀ r ∈ (c.transition t).targets, r < c.states.size
  sources : ∀ s : Nat, ∀ t ∈ (c.state s).transitions,
    t < c.transitions.size ∧ (c.transition t).source = s

/-- What is inside of a state is a stretch, if a stretch holds the states whose parents it holds. -/
theorem IsTree.within_iff (tree : c.IsTree) {stop : Nat} (inside : s < stop)
    (nested : ∀ x p : Nat, x ≠ s → (c.state x).parent = some p →
      (s ≤ p ∧ p < stop ↔ s ≤ x ∧ x < stop)) (declared : stop ≤ c.states.size) :
    c.Within x s ↔ s ≤ x ∧ x < stop := by
  induction x using Nat.strongRecOn with
  | ind x ih =>
    by_cases same : x = s
    · subst same
      exact ⟨fun _ => ⟨Nat.le_refl x, inside⟩, fun _ => Or.inl rfl⟩
    · have strictly : c.Within x s ↔ c.Below x s := or_iff_right same
      rw [strictly, tree.below_iff]
      constructor
      · rintro ⟨p,hp,up⟩
        exact (nested x p same hp).mp ((ih p (tree.parent_lt hp)).mp up)
      · rintro ⟨low,high⟩
        have proper : x ≠ Chart.root := by
          rintro rfl
          exact same (Nat.le_zero.mp low).symm
        obtain ⟨p,hp,before⟩ := tree.parent_before x (by omega) proper
        exact ⟨p, hp, (ih p before).mpr ((nested x p same hp).mpr ⟨low, high⟩)⟩

theorem compile_ids {library : ActionLibrary} {source : Source.ChartDef}
    (accepted : compile library source = .ok c) : (c.states.toList.map (·.id)).Nodup := by
  unfold compile at accepted
  split at accepted
  · cases accepted
  · obtain ⟨⟨top,d⟩,built,accepted⟩ := Except.bind_eq_ok accepted
    obtain ⟨chart,resolved,accepted⟩ := Except.bind_eq_ok accepted
    split at accepted
    · cases accepted
    · cases accepted
      exact resolve_distinct resolved

theorem compile_listed {library : ActionLibrary} {source : Source.ChartDef}
    (accepted : compile library source = .ok c) (listed : t ∈ (c.state s).transitions) :
    t < c.transitions.size := by
  obtain ⟨_,top,d,built,targeted,_⟩ := compile_parts accepted
  have spaced : d.Spaced :=
    addState_spacing library none _ source.states {} top d built Draft.spaced_nothing
  have same : c.state s = d.state s :=
    congrArg (fun a : Array StateNode => a.getD s default) targeted.states
  rw [same] at listed
  rw [targeted.size]
  exact spaced.known s t listed

/-- What is known of the draft that an accepted chart is made from. -/
theorem compile_pieces {library : ActionLibrary} {source : Source.ChartDef}
    (accepted : compile library source = .ok c) : ∃ d : Draft, (∀ s : Nat, c.state s = d.state s) ∧
      c.states.size = d.states.size ∧ c.positions = d.positions ∧ d.Sound ∧
      (d.positions.map (·.2)).Perm (List.range d.given) ∧
      (∀ t : Nat, (c.transition t).document = (d.transition t).document) ∧
      c.transitions.size = d.transitions.size ∧ d.transitionDocuments.Pairwise (· < ·) ∧
      ∀ s : Nat, s < d.states.size → ∃ stop last, d.Piece s stop last := by
  obtain ⟨_,top,d,built,targeted,_⟩ := compile_parts accepted
  obtain ⟨_,_,adds,sound,pieces⟩ := addState_pieces library none _ source.states {} d top
    (fun p eq => by cases eq) Draft.sound_nothing built
  refine ⟨d, fun s => congrArg (fun a : Array StateNode => a.getD s default) targeted.states,
    congrArg Array.size targeted.states, targeted.positions, sound, ?_, targeted.document,
    targeted.size, ?_, fun s hs => pieces s (Nat.zero_le s) hs⟩
  · obtain ⟨more,same,docs,_⟩ := adds.owned
    rw [List.range_eq_range']
    exact (same.map _).trans docs
  · obtain ⟨more,same,ordered,_⟩ := adds.numbered
    rw [same]
    exact ordered

section Pieces

variable {d : Draft} {stop last : Nat} (tree : c.IsTree) (states : ∀ s : Nat, c.state s = d.state s)
  (size : c.states.size = d.states.size) (piece : d.Piece s stop last)

include tree states size piece

/-- The piece of a state holds the states inside of it. -/
theorem within_piece (x : Nat) : c.Within x s ↔ s ≤ x ∧ x < stop := by
  apply tree.within_iff piece.inside
  · intro y p other hp
    rw [states] at hp
    exact piece.nested y p other hp
  · rw [size]
    exact piece.declared

theorem descendant_piece (x : Nat) : c.isDescendant x s = true ↔ s + 1 ≤ x ∧ x < stop := by
  have within := within_piece tree states size piece
  rw [isDescendant_iff]
  constructor
  · intro below
    have bounds := (within x).mp (Or.inr below)
    have after := tree.below_lt below
    omega
  · rintro ⟨low,high⟩
    rcases (within x).mpr ⟨by omega, high⟩ with rfl | below
    · omega
    · exact below

/-- The positions of the states in a piece, and of what they own, are those between the bounds that
    the piece gives. -/
theorem positions_piece (positions : c.positions = d.positions)
    (numbered : (d.positions.map (·.2)).Perm (List.range d.given)) (k : Nat) :
    (∃ o : Nat, (o, k) ∈ c.positions ∧ (o = s ∨ c.isDescendant o s = true)) ↔
      (c.state s).document ≤ k ∧ k < last := by
  have first : (c.state s).document = d.position s := by rw [states]; rfl
  have own : ∀ o : Nat, (o = s ∨ c.isDescendant o s = true) ↔ s ≤ o ∧ o < stop := by
    intro o
    rw [isDescendant_iff]
    exact within_piece tree states size piece o
  rw [first]
  constructor
  · rintro ⟨o,mem,inside⟩
    rw [positions] at mem
    exact (piece.owned o k mem).mp ((own o).mp inside)
  · intro bounds
    have given := piece.given
    have there : k ∈ d.positions.map (·.2) :=
      numbered.mem_iff.mpr (List.mem_range.mpr (Nat.lt_of_lt_of_le bounds.2 given))
    obtain ⟨⟨o,k⟩,mem,rfl⟩ := List.mem_map.mp there
    exact ⟨o, positions ▸ mem, (own o).mpr ((piece.owned o k mem).mpr bounds)⟩

end Pieces

theorem parent_none_iff (tree : c.IsTree) (hs : s < c.states.size) :
    (c.state s).parent = none ↔ s = Chart.root := by
  constructor
  · intro none
    by_contra proper
    obtain ⟨p,hp,_⟩ := tree.parent_before s hs proper
    rw [none] at hp
    cases hp
  · rintro rfl
    exact tree.root_parent

/-- Accepted charts are laid out in the order of the document. -/
theorem compile_layout {library : ActionLibrary} {source : Source.ChartDef}
    (accepted : compile library source = .ok c) : c.Layout := by
  have wf := compile_wellFormed accepted
  have tree := wf.toIsTree
  obtain ⟨d,states,size,positions,sound,numbered,documents,size',ordered,pieces⟩ :=
    compile_pieces accepted
  have ascending : ∀ s : Nat, (c.state s).children.Pairwise (· < ·) := by
    intro s
    rw [states]
    exact sound.children s
  constructor
  · exact fun s hs => parent_none_iff tree hs
  · intro s p hp
    refine ⟨tree.parent_lt hp, ?_⟩
    apply List.count_eq_one_of_mem
    · exact (ascending p).imp Nat.ne_of_lt
    · exact (tree.child_iff p s).mpr hp
  · intro p s child
    exact (tree.child_iff p s).mp child
  · exact ascending
  · intro s hs
    obtain ⟨stop,last,piece⟩ := pieces s (by omega)
    exact ⟨stop, piece.inside, size ▸ piece.declared, descendant_piece tree states size piece⟩
  · intro s x before hx
    exact document_lt accepted before hx
  · intro t u before hu
    rw [documents, documents]
    have listed := List.pairwise_iff_getElem.mp ordered t u
      (by simp [Draft.transitionDocuments]; omega) (by simp [Draft.transitionDocuments]; omega) before
    simpa [Draft.transitionDocuments] using listed
  · rw [positions]
    exact numbered.nodup_iff.mpr List.nodup_range
  · intro s hs
    obtain ⟨stop,last,piece⟩ := pieces s (by omega)
    exact ⟨last, positions_piece tree states size piece positions numbered⟩
  · exact compile_ids accepted
  · exact wf.targets_declared
  · intro s t listed
    exact ⟨compile_listed accepted listed, wf.own_source s t listed⟩

section Orders

variable {history : HistoryTable} {configuration : List StateIndex}
  {transitions : List TransitionIndex} {before after : List StateIndex}

/-- In an ordered list everything that does not follow an element stands before it. -/
theorem mem_before {R : Nat → Nat → Prop} {l : List Nat} (ordered : l.Pairwise R)
    (order : l = before ++ s :: after) (inside : x ∈ l) (other : x ≠ s) (never : ¬ R s x) :
    x ∈ before := by
  rw [order] at ordered inside
  obtain ⟨_,later,_⟩ := List.pairwise_append.mp ordered
  rcases List.mem_append.mp inside with early | late
  · exact early
  · rcases List.mem_cons.mp late with same | behind
    · exact absurd same other
    · exact absurd ((List.pairwise_cons.mp later).1 x behind) never

theorem IsTree.left_inside_out (tree : c.IsTree) (ascending : configuration.Pairwise (· < ·))
    (order : (c.exitSet history configuration transitions).reverse = before ++ s :: after)
    (active : x ∈ configuration) (below : c.Below x s) : x ∈ before := by
  have left : s ∈ c.exitSet history configuration transitions := by
    rw [← List.mem_reverse, order]
    simp
  obtain ⟨_,t,taken,d,domain,inside⟩ := mem_exitSet_iff.mp left
  have left' : x ∈ c.exitSet history configuration transitions :=
    mem_exitSet_iff.mpr ⟨active, t, taken, d, domain, tree.below_trans below inside⟩
  have descending : (c.exitSet history configuration transitions).reverse.Pairwise (· > ·) :=
    List.pairwise_reverse.mpr (ascending.sublist List.filter_sublist)
  have deeper := tree.below_lt below
  exact mem_before descending order (List.mem_reverse.mpr left') (Nat.ne_of_gt deeper)
    (Nat.lt_asymm deeper)

theorem IsTree.entered_outside_in (tree : c.IsTree)
    (order : (c.entrySet history transitions).states = before ++ s :: after)
    (entered : x ∈ (c.entrySet history transitions).states) (below : c.Below s x) : x ∈ before := by
  have outer := tree.below_lt below
  exact mem_before (c.entrySet_ascending history transitions) order entered (Nat.ne_of_lt outer)
    (Nat.lt_asymm outer)

end Orders

end Chart

end Statechart

import Statechart.Proofs.Event.Name

/- The ids in the names of done events, and which of them are read back. -/
namespace Statechart

namespace Text

theorem intercalate_split (s : String) : String.intercalate "." (split '.' s) = s := by
  have dot : ".".toList = ['.'] := rfl
  apply String.toList_injective
  rw [String.toList_intercalate, split_eq, dot, List.map_map]
  have same : (String.toList ∘ String.ofList) = id := funext fun _ => String.toList_ofList
  rw [same, List.map_id, List.intercalate_splitOn]

theorem splitOn_cons (c : Char) (rest : List Char) :
    (c :: rest).splitOn '.'
      = if c = '.' then [] :: rest.splitOn '.' else (rest.splitOn '.').modifyHead (c :: ·) := by
  rw [List.splitOn, List.splitOnP_cons_eq_if_modifyHead]
  simp [List.splitOn]

/-- A first piece is empty at a dot in front, or in an empty text. -/
theorem splitOn_head (cs : List Char) :
    (cs.splitOn '.').head? = some [] ↔ cs = [] ∨ cs.head? = some '.' := by
  cases cs with
  | nil => simp
  | cons c rest =>
    rw [splitOn_cons]
    split
    · simp_all
    · cases pieces : rest.splitOn '.' with
      | nil => exact absurd pieces (List.splitOn_ne_nil '.' rest)
      | cons piece others => simp_all

theorem splitOn_parted (cs : List Char) :
    [] ∈ cs.splitOn '.' ↔ (cs.splitOn '.').head? = some [] ∨ [] ∈ (cs.splitOn '.').tail := by
  cases cs.splitOn '.' with
  | nil => simp
  | cons piece others => simp [eq_comm]

theorem dots_cons (c : Char) (rest : List Char) :
    ['.', '.'] <:+: c :: rest ↔ (c = '.' ∧ rest.head? = some '.') ∨ ['.', '.'] <:+: rest := by
  rw [List.infix_cons_iff, List.cons_prefix_cons]
  cases rest with
  | nil => simp
  | cons d rest => simp [List.cons_prefix_cons, eq_comm]

/-- Every dot opens a piece, which is empty if the text ends there or another dot follows. -/
theorem splitOn_tail (cs : List Char) :
    [] ∈ (cs.splitOn '.').tail ↔ cs.getLast? = some '.' ∨ ['.', '.'] <:+: cs := by
  induction cs with
  | nil => simp
  | cons c rest ih =>
    rw [splitOn_cons, dots_cons]
    split
    · rename_i dot
      rw [List.tail_cons, splitOn_parted, splitOn_head, ih]
      cases rest with
      | nil => simp [dot]
      | cons d rest => simp [dot, List.getLast?_cons_cons, or_left_comm]
    · rename_i other
      rw [List.tail_modifyHead, ih]
      cases rest with
      | nil => simp [other]
      | cons d rest => simp [other, List.getLast?_cons_cons]

/-- No piece between dots is empty exactly if dots stand only between other characters. -/
theorem no_empty_piece (s : String) :
    "" ∉ split '.' s ↔ s ≠ "" ∧ s.toList.head? ≠ some '.' ∧ s.toList.getLast? ≠ some '.'
      ∧ ¬['.', '.'] <:+: s.toList := by
  have empty : "" ∈ split '.' s ↔ [] ∈ s.toList.splitOn '.' := by
    rw [split_eq, ← String.ofList_nil]
    exact List.mem_map_of_injective fun _ _ => String.ofList_injective
  have nothing : s.toList = [] ↔ s = "" := by simp
  rw [empty, splitOn_parted, splitOn_head, splitOn_tail, nothing]
  simp [and_assoc]

end Text

namespace EventName

variable {i : String} {a b : Identifier}

theorem pieces_kept (full : "" ∉ Text.split '.' i) :
    (Text.split '.' i).filter (· ≠ "") = Text.split '.' i := by
  apply List.filter_eq_self.mpr
  intro p within
  simpa using ne_of_mem_of_not_mem within full

theorem doneInvokeId_eq (pieces : List String) :
    doneInvokeId? ⟨"done" :: "invoke" :: pieces⟩
      = if pieces = [] then none else some (String.intercalate "." pieces) := by
  cases pieces with
  | nil => rfl
  | cons p rest => rfl

/-- What is read back tells whether a piece of the id was passed over. -/
theorem doneInvokeId_iff (i : InvokeId) :
    (doneInvoke i).doneInvokeId? = some i ↔ "" ∉ Text.split '.' i := by
  rw [doneInvoke, withSuffix, List.cons_append, List.cons_append, List.nil_append, doneInvokeId_eq]
  constructor
  · intro decoded empty
    split at decoded
    · cases decoded
    · rename_i some
      have apart : ∀ p ∈ (Text.split '.' i).filter (· ≠ ""), '.' ∉ p.toList := by
        intro p within
        exact (Text.mem_split (List.mem_of_mem_filter within)).1
      have pieces := Text.split_intercalate some apart
      rw [Option.some.inj decoded] at pieces
      rw [pieces] at empty
      simp at empty
  · intro full
    rw [pieces_kept full, if_neg (Text.split_ne_nil '.' i), Text.intercalate_split]

theorem withSuffix_full (head : List String) (full : "" ∉ Text.split '.' i) :
    withSuffix head i = ⟨head ++ Text.split '.' i⟩ := by
  rw [withSuffix, pieces_kept full]

theorem doneState_injective (fullA : "" ∉ Text.split '.' a.text) (fullB : "" ∉ Text.split '.' b.text)
    (same : doneState a.text = doneState b.text) : a = b := by
  rw [doneState, doneState, withSuffix_full _ fullA, withSuffix_full _ fullB] at same
  have pieces := List.append_cancel_left (EventName.mk.inj same)
  have texts : a.text = b.text := by
    rw [← Text.intercalate_split a.text, pieces, Text.intercalate_split]
  cases a
  cases b
  cases texts
  rfl

theorem text_doneState (full : "" ∉ Text.split '.' i) :
    (doneState i).text = "done.state." ++ i := by
  have whole := congrArg String.toList (Text.intercalate_split i)
  apply String.toList_injective
  rw [doneState, withSuffix_full _ full, text]
  rw [String.toList_intercalate] at whole ⊢
  cases pieces : Text.split '.' i with
  | nil => exact absurd pieces (Text.split_ne_nil '.' i)
  | cons p rest =>
    rw [pieces] at whole
    rw [String.toList_append, ← whole]
    rfl

/-- The names of done events give back the ids in which dots stand only between other characters:
    the id of a service is read back from the name of its event exactly if no piece of it is empty,
    and for ids of states without empty pieces the names of the events differ, show the id and are
    read back from their texts. -/
theorem done_names_decode :
    (∀ i : InvokeId, (doneInvoke i).doneInvokeId? = some i ↔ "" ∉ Text.split '.' i)
    ∧ (∀ i : InvokeId, "" ∉ Text.split '.' i ↔ i ≠ "" ∧ i.toList.head? ≠ some '.'
        ∧ i.toList.getLast? ≠ some '.' ∧ ¬['.', '.'] <:+: i.toList)
    ∧ (∀ a b : Identifier, "" ∉ Text.split '.' a.text → "" ∉ Text.split '.' b.text →
        doneState a.text = doneState b.text → a = b)
    ∧ ∀ a : Identifier, "" ∉ Text.split '.' a.text →
        (doneState a.text).text = "done.state." ++ a.text
        ∧ parse ("done.state." ++ a.text) = .ok (doneState a.text) := by
  constructor
  · exact doneInvokeId_iff
  constructor
  · exact Text.no_empty_piece
  constructor
  · intro a b fullA fullB same
    exact doneState_injective fullA fullB same
  · intro a full
    have shown := text_doneState full
    have back := parse_text (proper_doneState a)
    rw [shown] at back
    exact ⟨shown, back⟩

namespace Dotted

/-- A state whose id has two pieces. -/
def state : Identifier := ⟨"order.paid", by decide⟩

def sibling : Identifier := ⟨"order.shipped", by decide⟩

theorem state_full : "" ∉ Text.split '.' state.text := by decide

theorem order_decodes :
    (doneInvoke "order.paid").doneInvokeId? = some "order.paid"
    ∧ (doneInvoke "order..paid").doneInvokeId? ≠ some "order..paid"
    ∧ doneState state.text ≠ doneState sibling.text
    ∧ parse "done.state.order.paid" = .ok (doneState "order.paid") := by
  obtain ⟨decodes,_,distinct,reads⟩ := done_names_decode
  have back := (reads state state_full).2
  constructor
  · exact (decodes "order.paid").mpr state_full
  constructor
  · intro same
    exact (decodes "order..paid").mp same (by decide)
  constructor
  · intro same
    have equal := congrArg Identifier.text (distinct state sibling state_full (by decide) same)
    exact absurd equal (by decide)
  · exact back

end Dotted

end EventName

end Statechart

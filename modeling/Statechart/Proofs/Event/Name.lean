import Mathlib.Data.List.Basic
import Statechart.Event.Name

/- The names that a machine gives to the events it raises are read back from their texts. -/
namespace Statechart

namespace Text

theorem splitChars_eq (sep : Char → Bool) (cs : List Char) : splitChars sep cs = cs.splitOnP sep := by
  induction cs with
  | nil => rfl
  | cons c rest ih =>
    rw [splitChars, List.splitOnP_cons_eq_if_modifyHead, ih]
    split
    · rfl
    · cases pieces : List.splitOnP sep rest with
      | nil => exact absurd pieces (List.splitOnP_ne_nil sep rest)
      | cons piece others => rfl

theorem split_eq (sep : Char) (s : String) :
    split sep s = (s.toList.splitOn sep).map String.ofList := by
  rw [split, splitChars_eq]
  rfl

theorem split_ne_nil (sep : Char) (s : String) : split sep s ≠ [] := by
  rw [split_eq]
  intro none
  exact List.splitOn_ne_nil sep s.toList (List.map_eq_nil_iff.mp none)

theorem mem_splitChars {sep : Char} {cs l : List Char} (within : l ∈ splitChars (· == sep) cs) :
    sep ∉ l ∧ ∀ c ∈ l, c ∈ cs := by
  induction cs generalizing l with
  | nil =>
    rw [splitChars, List.mem_singleton] at within
    subst within
    exact ⟨List.not_mem_nil, fun c hc => hc⟩
  | cons d rest ih =>
    have longer : ∀ l ∈ splitChars (· == sep) rest, sep ∉ l ∧ ∀ c ∈ l, c ∈ d :: rest :=
      fun l hl => ⟨(ih hl).1, fun c hc => List.mem_cons_of_mem d ((ih hl).2 c hc)⟩
    rw [splitChars] at within
    split at within
    · rcases List.mem_cons.mp within with rfl | within
      · exact ⟨List.not_mem_nil, fun c hc => by cases hc⟩
      · exact longer l within
    · rename_i other
      have apart : d ≠ sep := by simpa using other
      split at within
      · rw [List.mem_singleton] at within
        subst within
        exact ⟨by simpa using apart.symm, by simp⟩
      · rename_i piece pieces found
        rw [found] at longer
        rcases List.mem_cons.mp within with rfl | within
        · obtain ⟨without,inside⟩ := longer piece List.mem_cons_self
          exact ⟨List.not_mem_cons_of_ne_of_not_mem apart.symm without,
            List.forall_mem_cons.mpr ⟨List.mem_cons_self, inside⟩⟩
        · exact longer l (List.mem_cons_of_mem piece within)

/-- Pieces are made of the characters of the text, and the separator is not among them. -/
theorem mem_split {sep : Char} {s piece : String} (within : piece ∈ split sep s) :
    sep ∉ piece.toList ∧ ∀ c ∈ piece.toList, c ∈ s.toList := by
  obtain ⟨l,hl,rfl⟩ := List.mem_map.mp within
  rw [String.toList_ofList]
  exact mem_splitChars hl

theorem split_intercalate {parts : List String} (some : parts ≠ [])
    (apart : ∀ p ∈ parts, '.' ∉ p.toList) : split '.' (String.intercalate "." parts) = parts := by
  have pieces : ∀ l ∈ parts.map String.toList, '.' ∉ l := by
    intro l hl
    obtain ⟨p,hp,rfl⟩ := List.mem_map.mp hl
    exact apart p hp
  have dot : ".".toList = ['.'] := rfl
  rw [split_eq, String.toList_intercalate, dot,
    List.splitOn_intercalate '.' pieces fun none => some (List.map_eq_nil_iff.mp none),
    List.map_map]
  exact List.map_id'' (fun _ => String.ofList_toList) parts

end Text

namespace EventName

variable {n : EventName}

/-- A name whose parts are identifiers without dots. -/
structure Proper (n : EventName) : Prop where
  some : n.parts ≠ []
  identifiers : ∀ p ∈ n.parts, isIdentifier p = true
  apart : ∀ p ∈ n.parts, '.' ∉ p.toList

/-- The names of internal events: they are written in the chart or computed from a text, or the
    machine makes them up. -/
inductive Given : EventName → Prop where
  | parsed {text : String} {n : EventName} (parsed : parse text = .ok n) : Given n
  | doneState (id : Identifier) : Given (doneState id.text)
  | error (kind : FailureKind) : Given (error kind)

theorem parse_text (proper : n.Proper) : parse n.text = .ok n := by
  have parts := Text.split_intercalate proper.some proper.apart
  unfold parse text
  simp only [parts]
  rw [if_pos (List.all_eq_true.mpr proper.identifiers)]

theorem proper_of_parse {text : String} (parsed : parse text = .ok n) : n.Proper := by
  unfold parse at parsed
  simp only at parsed
  split at parsed
  · rename_i identifiers
    cases parsed
    exact ⟨Text.split_ne_nil _ _, List.all_eq_true.mp identifiers, fun p hp => (Text.mem_split hp).1⟩
  · cases parsed

theorem proper_doneState (id : Identifier) : (doneState id.text).Proper := by
  have own : ∀ p ∈ (Text.split '.' id.text).filter (· ≠ ""),
      isIdentifier p = true ∧ '.' ∉ p.toList := by
    intro p hp
    obtain ⟨piece,filled⟩ := List.mem_filter.mp hp
    obtain ⟨apart,inside⟩ := Text.mem_split piece
    refine ⟨?_, apart⟩
    have valid := id.valid
    simp only [isIdentifier, Bool.and_eq_true, bne_iff_ne, ne_eq, Bool.not_eq_true',
      List.any_eq_false] at valid ⊢
    exact ⟨by simpa using filled, fun c hc => valid.2 c (inside c hc)⟩
  have head : ∀ p ∈ ["done", "state"], isIdentifier p = true ∧ '.' ∉ p.toList := by decide
  have all : ∀ p ∈ (doneState id.text).parts, isIdentifier p = true ∧ '.' ∉ p.toList := by
    intro p hp
    rcases List.mem_append.mp hp with hp | hp
    · exact head p hp
    · exact own p hp
  exact ⟨by simp [doneState, withSuffix], fun p hp => (all p hp).1, fun p hp => (all p hp).2⟩

theorem proper_error (kind : FailureKind) : (error kind).Proper := by
  have all : ∀ p ∈ (error kind).parts, isIdentifier p = true ∧ '.' ∉ p.toList := by
    cases kind
    all_goals decide
  exact ⟨by simp [error], fun p hp => (all p hp).1, fun p hp => (all p hp).2⟩

theorem Given.proper (given : Given n) : n.Proper := by
  cases given with
  | parsed parsed => exact proper_of_parse parsed
  | doneState id => exact proper_doneState id
  | error kind => exact proper_error kind

end EventName

end Statechart

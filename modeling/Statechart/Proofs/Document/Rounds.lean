import Statechart.Proofs.Document.Writing

/- What is not told apart when charts are read and written.

   A chart that was read, written and read again is the chart it was, whatever order fields are kept
   in, and so are its canonical text and its checksum. A token list may be given as one text or as
   the list of its words. -/
namespace Statechart

namespace Json

/-- Changes what stands in the fields of a record or of a row. -/
def mapFields (names : List String) (f : String → Json → Json) : Json → Json
  | .object fields => .object (fields.map fun g => (g.1, f g.1 g.2))
  | .array items =>
    if items.length ≤ names.length then .array (List.zipWith f names items) else .array items
  | j => j

/-- Changes the members of a list. -/
def mapItems (f : Json → Json) : Json → Json
  | .array items => .array (items.map f)
  | j => j

def recorded? (names : List String) : Json → Option (List (String × Json))
  | .object fields => some fields
  | .array items => if items.length ≤ names.length then some (names.zip items) else none
  | _ => none

theorem mapFields_eq_null {names : List String} {f : String → Json → Json} {j : Json} :
    j.mapFields names f = .null ↔ j = .null := by
  cases j with
  | array items =>
    rw [mapFields]
    split <;> simp
  | _ => simp [mapFields]

theorem recorded?_mapFields (names : List String) (f : String → Json → Json) (j : Json) :
    (j.mapFields names f).recorded? names =
      (j.recorded? names).map (List.map fun g => (g.1, f g.1 g.2)) := by
  cases j with
  | object fields => rfl
  | array items =>
    by_cases fits : items.length ≤ names.length
    · simp only [mapFields, recorded?, if_pos fits, List.length_zipWith, Option.map_some,
        Nat.min_eq_right fits]
      congr 1
      clear fits
      induction names generalizing items with
      | nil => simp
      | cons name names ih => cases items <;> simp [ih]
    · simp [mapFields, recorded?, fits]
  | _ => rfl

end Json

namespace Document

def ofJsonRecord (fields : List (String × Json)) : List (String × Document) :=
  fields.map fun g => (g.1, ofJson g.2)

theorem hasFields_ofJson {names : List String} {j : Json} {raw : List (String × Document)} :
    (ofJson j).HasFields names raw ↔
      ∃ fields, j.recorded? names = some fields ∧ raw = ofJsonRecord fields := by
  unfold HasFields
  cases j with
  | object fields =>
    rw [ofJson_object]
    simp only [Json.recorded?, Option.some.injEq, exists_eq_left']
    constructor
    · rintro (same | ⟨_,never,_⟩)
      · exact (ofFields_injective same).symm
      · cases never
    · rintro rfl
      exact Or.inl rfl
  | array items =>
    rw [ofJson_array]
    constructor
    · rintro (never | ⟨_,same,fits,rfl⟩)
      · cases never
      · cases same
        rw [List.length_map] at fits
        exact ⟨_, if_pos fits, by rw [ofJsonRecord, List.zip_map_right]; rfl⟩
    · rintro ⟨fields,found,rfl⟩
      obtain ⟨fits,rfl⟩ : items.length ≤ names.length ∧ names.zip items = fields := by
        simpa [Json.recorded?] using found
      refine Or.inr ⟨_, rfl, by rwa [List.length_map], ?_⟩
      rw [ofJsonRecord, List.zip_map_right]
      rfl
  | _ => simp [ofJson, ofFields, Json.recorded?]

theorem under_ofJsonRecord (key : String) (fields : List (String × Json)) :
    under key (ofJsonRecord fields) = ((fields.filter (·.1 = key)).map (·.2)).map ofJson := by
  unfold under ofJsonRecord
  rw [List.filter_map, List.map_map, List.map_map]
  rfl

end Document

namespace Source

open Json

/-- A token list that is given as one text becomes the list of its words. -/
def spellTokens : Json → Json
  | .string s => .array ((Text.words s).map .string)
  | j => j

/-- The token lists of a transition become lists. -/
def spellTransition : Json → Json :=
  mapFields ["event", "cond", "target", "type", "actions"] fun key =>
    if key = "event" ∨ key = "target" then spellTokens else id

/-- The token lists of a state, and of those that stand at most `n` states deep, become lists. -/
def spellState : Nat → Json → Json
  | 0 => id
  | n + 1 =>
    mapFields ["id", "type", "history", "initial", "states", "transitions", "onentry", "onexit",
        "invoke", "datamodel", "donedata"] fun key =>
      if key = "initial" then spellTokens
      else if key = "states" then mapItems (spellState n)
      else if key = "transitions" then mapItems spellTransition
      else id

/-- The token lists of a chart, and of its states at most `n` deep, become lists. -/
def spellChart (n : Nat) : Json → Json :=
  mapFields ["name", "initial", "datamodel", "states", "meta"] fun key =>
    if key = "initial" then spellTokens
    else if key = "states" then mapItems (spellState n)
    else id

def ChartDef.again? (c : ChartDef) : Option ChartDef := (Manuscript.ofJson c.toJson).read readChart

/-- What is left of a chart after so many rounds of writing and reading. -/
def ChartDef.rounds : Nat → ChartDef → Option ChartDef
  | 0, c => some c
  | n + 1, c => c.again?.bind (rounds n)

end Source

namespace Meaning

open Json Source Document

variable {α : Type} {kind : Meaning α} {f : Json → Json}

/-- The change makes no difference to what a document means, and leaves none out. -/
structure Keeps (f : Json → Json) (kind : Meaning α) : Prop where
  same : ∀ j a, kind (ofJson (f j)) a ↔ kind (ofJson j) a
  null : ∀ j, f j = .null ↔ j = .null

theorem Keeps.id : Keeps id kind := ⟨fun _ _ => Iff.rfl, fun _ => Iff.rfl⟩

theorem list_texts {s l : List String} : list text (.list none (s.map fun t => ofJson (.string t))) l ↔
    l = s := by
  constructor
  · rintro ⟨_,same,each⟩
    cases same
    rw [List.forall₂_map_left_iff] at each
    induction each with
    | nil => rfl
    | cons here _ ih =>
      cases here
      rw [ih]
  · rintro rfl
    exact ⟨_, rfl, by rw [List.forall₂_map_left_iff, List.forall₂_same]; exact fun _ _ => rfl⟩

theorem tokens_keeps : Keeps spellTokens tokens where
  same j l := by
    cases j with
    | string s =>
      have words : tokens (ofJson (spellTokens (.string s))) l ↔ l = Text.words s := by
        rw [spellTokens, ofJson_array, List.map_map]
        unfold tokens
        rw [Function.comp_def, list_texts]
        simp [ofJson]
      rw [words]
      simp [tokens, list, ofJson, Atom.ofJson]
    | _ => exact Iff.rfl
  null j := by cases j <;> simp [spellTokens]

theorem list_keeps (keeps : Keeps f kind) : Keeps (mapItems f) (list kind) where
  same j l := by
    cases j with
    | array items =>
      have items_of : ∀ items, list kind (ofJson (.array items)) l ↔
          List.Forall₂ (fun j a => kind (ofJson j) a) items l := by
        intro items
        rw [ofJson_array, ← List.forall₂_map_left_iff]
        exact ⟨fun ⟨_,same,each⟩ => by cases same; exact each, fun each => ⟨_, rfl, each⟩⟩
      rw [mapItems, items_of, items_of, List.forall₂_map_left_iff]
      exact ⟨fun each => each.imp fun j a => (keeps.same j a).mp,
        fun each => each.imp fun j a => (keeps.same j a).mpr⟩
    | _ => exact Iff.rfl
  null j := by cases j <;> simp [mapItems]

theorem optional_keeps (keeps : Keeps f kind) : Keeps f (optional kind) where
  same j o := by
    have null : ∀ j, ofJson j = ofJson .null ↔ j = .null := fun j =>
      ⟨fun same => by_contra fun given => ofJson_ne_null given same, fun same => by rw [same]⟩
    simp only [optional, ne_eq, null, keeps.null, keeps.same]
  null := keeps.null

section Fields

variable {f : String → Json → Json} {key : String} {fields : List (String × Json)}

abbrev changed (f : String → Json → Json) (fields : List (String × Json)) : List (String × Json) :=
  fields.map fun g => (g.1, f g.1 g.2)

theorem under_changed : under key (ofJsonRecord (changed f fields)) =
    (((fields.filter (·.1 = key)).map (·.2)).map (f key)).map ofJson := by
  rw [under_ofJsonRecord, changed, List.filter_map]
  simp only [List.map_map]
  refine List.map_congr_left fun g inside => ?_
  have named := (List.mem_filter.mp inside).2
  simp only [Function.comp_apply, decide_eq_true_eq] at named
  simp [named]

theorem required_changed (keeps : Keeps (f key) kind) (a : α) :
    required kind key (ofJsonRecord (changed f fields)) a ↔
      required kind key (ofJsonRecord fields) a := by
  unfold required
  rw [under_changed, under_ofJsonRecord]
  generalize (fields.filter (·.1 = key)).map (·.2) = given
  match given with
  | [] => simp
  | [j] => simpa using keeps.same j a
  | _ :: _ :: _ => simp

theorem defaulted_changed (keeps : Keeps (f key) kind) (fallback a : α) :
    defaulted kind fallback key (ofJsonRecord (changed f fields)) a ↔
      defaulted kind fallback key (ofJsonRecord fields) a := by
  unfold defaulted
  rw [required_changed keeps, under_changed, under_ofJsonRecord]
  simp

theorem possible_changed (keeps : Keeps (f key) kind) (o : Option α) :
    possible kind key (ofJsonRecord (changed f fields)) o ↔
      possible kind key (ofJsonRecord fields) o :=
  defaulted_changed (optional_keeps keeps) none o

theorem record_keeps {names : List String} {parts : List (String × Document) → α → Prop}
    (same : ∀ fields a, parts (ofJsonRecord (changed f fields)) a ↔ parts (ofJsonRecord fields) a) :
    Keeps (mapFields names f) (record names parts) where
  same j a := by
    unfold record
    simp only [hasFields_ofJson, recorded?_mapFields, Option.map_eq_some_iff]
    constructor
    · rintro ⟨_,⟨_,⟨fields,found,rfl⟩,rfl⟩,said⟩
      exact ⟨_, ⟨fields, found, rfl⟩, (same fields a).mp said⟩
    · rintro ⟨_,⟨fields,found,rfl⟩,said⟩
      exact ⟨_, ⟨_, ⟨fields, found, rfl⟩, rfl⟩, (same fields a).mpr said⟩
  null _ := mapFields_eq_null

end Fields

theorem transition_keeps : Keeps spellTransition transition :=
  record_keeps fun _ t => and_congr (possible_changed tokens_keeps t.event) <|
    and_congr (possible_changed .id t.cond) <|
    and_congr (possible_changed tokens_keeps t.target) <|
    and_congr (defaulted_changed .id _ t.type) (defaulted_changed .id _ t.actions)

theorem stateWithin_keeps (n depth : Nat) : Keeps (spellState n) (stateWithin depth) := by
  induction n generalizing depth with
  | zero => exact .id
  | succ n ih =>
    cases depth with
    | zero => exact ⟨fun _ _ => Iff.rfl, fun _ => mapFields_eq_null⟩
    | succ depth =>
      refine record_keeps fun _ s => exists_congr fun info => exists_congr fun children =>
        and_congr ?_ (and_congr (defaulted_changed (list_keeps (ih depth)) _ children) Iff.rfl)
      exact and_congr (possible_changed .id info.id) <|
        and_congr (defaulted_changed .id _ info.type) <|
        and_congr (possible_changed .id info.history) <|
        and_congr (possible_changed tokens_keeps info.initial) <|
        and_congr (defaulted_changed (list_keeps transition_keeps) _ info.transitions) <|
        and_congr (defaulted_changed .id _ info.onEntry) <|
        and_congr (defaulted_changed .id _ info.onExit) <|
        and_congr (defaulted_changed .id _ info.invokes) <|
        and_congr (defaulted_changed .id _ info.data) (possible_changed .id info.doneData)

theorem state_keeps (n : Nat) : Keeps (spellState n) state where
  same j s := by
    have within : ∀ d : Document, state d s ↔ ∃ depth, stateWithin depth d s := fun d =>
      ⟨fun said => ⟨_, said⟩, fun ⟨_,said⟩ => stateWithin_of_height said (Nat.lt_succ_self _)⟩
    rw [within, within]
    exact exists_congr fun depth => (stateWithin_keeps n depth).same j s
  null := (stateWithin_keeps n 0).null

/-- How token lists are given makes no difference to what a chart means. -/
theorem chart_keeps (n : Nat) : Keeps (spellChart n) chart :=
  record_keeps fun _ c => and_congr (possible_changed .id c.name) <|
    and_congr (possible_changed tokens_keeps c.initial) <|
    and_congr (defaulted_changed .id _ c.data) <|
    and_congr (required_changed (list_keeps (state_keeps n)) c.states)
      (possible_changed .id c.extra)

end Meaning

namespace Source

open Json Meaning

variable {j : Json} {c : ChartDef}

theorem read_again (read : (Manuscript.ofJson j).read readChart = some c) (A : Arrangement) :
    (Manuscript.ofJson (A.of c.toJson)).read readChart = some c :=
  read_iff.mpr (chart_written (read_iff.mp read))

theorem rounds_of_again (again : c.again? = some c) (n : Nat) : c.rounds n = some c := by
  induction n with
  | zero => rfl
  | succ n ih => rw [ChartDef.rounds, again, Option.bind_some, ih]

theorem read_spellChart (n : Nat) (j : Json) :
    (Manuscript.ofJson (spellChart n j)).read readChart = (Manuscript.ofJson j).read readChart := by
  refine Option.ext fun c => ?_
  rw [read_iff, read_iff]
  exact (chart_keeps n).same j c

/-- A chart that was read is read again from what is written of it, whether fields stay where they
    were written or are put into ascending order. Any number of rounds leaves it as it is, with its
    canonical text and its checksum. And from a document in which token lists are given as one text
    the same is read as from the one in which they are the lists of its words. -/
theorem canonical_form_fixed (read : (Manuscript.ofJson j).read readChart = some c) :
    (Manuscript.ofJson c.toJson).read readChart = some c ∧
      (Manuscript.ofJson c.toJson.sorted).read readChart = some c ∧
      (∀ n, c.rounds n = some c) ∧
      (∀ n c', c.rounds n = some c' → c'.text = c.text ∧ c'.checksum = c.checksum) ∧
      ∀ n i, (Manuscript.ofJson (spellChart n i)).read readChart =
        (Manuscript.ofJson i).read readChart := by
  have rounds : ∀ n, c.rounds n = some c := rounds_of_again (read_again read asWritten)
  refine ⟨read_again read asWritten, read_again read ascending, rounds, ?_, read_spellChart⟩
  intro n c' left
  rw [rounds n] at left
  cases left
  exact ⟨rfl, rfl⟩

end Source

namespace Gate

open Source

/-- A state with a transition on two events to two targets, both lists given as one text. -/
def document : Json :=
  .object [("unknown", .null), ("states", .array [
    .object [("transitions", .array [.object [("target", .string "x  y"),
      ("event", .string " a b.* "), ("actions", .array [.object [("if", .object [
        ("else", .array [.object [("custom", .object [("name", .string "ring")])]]),
        ("cond", .string "z")])]])]]), ("id", .string "shut")]])]

/-- What is read from it. -/
def chart : ChartDef where
  name := none
  initial := none
  data := []
  states := [.mk
    { id := some "shut", type := .state, history := none, initial := none
      transitions := [
        { event := some ["a", "b.*"], cond := none, target := some ["x", "y"], type := .external
          actions := [.branch "z" [] [] (some [.custom "ring" .null])] }]
      onEntry := [], onExit := [], invokes := [], data := [], doneData := none } []]
  extra := none

theorem chart_kept : (Manuscript.ofJson document).read readChart = some chart ∧
    chart.rounds 3 = some chart ∧
    (Manuscript.ofJson (spellChart 1 document)).read readChart = some chart := by
  have read : (Manuscript.ofJson document).read readChart = some chart := rfl
  obtain ⟨_,_,rounds,_,spelled⟩ := canonical_form_fixed read
  exact ⟨read, rounds 3, (spelled 1 document).trans read⟩

end Gate

end Statechart

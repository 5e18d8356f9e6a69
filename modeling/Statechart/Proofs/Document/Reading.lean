import Statechart.Proofs.Document.Meaning

/- Readers give what documents mean.

   A reader meets a document at a certain depth, and keeps count of the links that it follows. JSON
   documents have no links. As long as not too many containers are open the depth makes no
   difference, and where they are the reader gives nothing. -/
namespace Statechart

namespace ReadM

variable {α β γ : Type} {m : Manuscript} {low low' : Prop} {x : ReadM α} {P Q : α → Prop}

/-- All that the reader gives satisfies `P`, and no link is followed. If nothing is too high for it,
    the reader gives whatever satisfies `P`. -/
structure Answers (m : Manuscript) (low : Prop) (x : ReadM α) (P : α → Prop) : Prop where
  sound : ∀ n a n', x m n = some (a, n') → n' = n ∧ P a
  complete : low → ∀ n a, P a → x m n = some (a, n)

namespace Answers

theorem change (answers : Answers m low x P) (sound : ∀ a, P a → Q a)
    (complete : low → ∀ a, Q a → P a) : Answers m low x Q where
  sound n a n' run := (answers.sound n a n' run).imp id (sound a)
  complete fits n a holds := answers.complete fits n a (complete fits a holds)

theorem congr (answers : Answers m low x P) (same : ∀ a, P a ↔ Q a) : Answers m low x Q :=
  answers.change (fun a => (same a).mp) fun _ a => (same a).mpr

theorem mono (answers : Answers m low x P) (lower : low' → low) : Answers m low' x P where
  sound := answers.sound
  complete fits := answers.complete (lower fits)

theorem pure (a : α) : Answers m low (Pure.pure a) (fun b => b = a) where
  sound n b n' run := by
    cases run
    exact ⟨rfl, rfl⟩
  complete _ n b same := by
    cases same
    rfl

theorem failure : Answers m low (failure : ReadM α) (fun _ => False) where
  sound _ _ _ run := by cases run
  complete _ _ _ never := never.elim

theorem lift (o : Option α) : Answers m low (ReadM.lift o) (fun a => o = some a) := by
  cases o with
  | none => exact failure.congr (by simp)
  | some b => exact (pure b).congr (by simp [eq_comm])

theorem read {f : Manuscript → ReadM α} (answers : Answers m low (f m) P) :
    Answers m low (MonadReader.read >>= f) P where
  sound := answers.sound
  complete := answers.complete

theorem bind {f : α → ReadM β} {R : α → β → Prop} (first : Answers m low x P)
    (rest : ∀ a, P a → Answers m low (f a) (R a)) :
    Answers m low (x >>= f) (fun b => ∃ a, P a ∧ R a b) where
  sound n b n' run := by
    have step : (x >>= f) m n = (x m n).bind fun p => f p.1 m p.2 := rfl
    rw [step, Option.bind_eq_some_iff] at run
    obtain ⟨⟨a,k⟩,got,run⟩ := run
    obtain ⟨rfl,holds⟩ := first.sound n a k got
    obtain ⟨same,relates⟩ := (rest a holds).sound k b n' run
    exact ⟨same, a, holds, relates⟩
  complete fits n b := by
    rintro ⟨a,holds,relates⟩
    have step : (x >>= f) m n = (x m n).bind fun p => f p.1 m p.2 := rfl
    rw [step, first.complete fits n a holds]
    exact (rest a holds).complete fits n b relates

theorem mapM {f : β → ReadM α} {R : β → α → Prop} {l : List β}
    (each : ∀ b ∈ l, Answers m low (f b) (R b)) :
    Answers m low (l.mapM f) (fun out => List.Forall₂ R l out) := by
  induction l with
  | nil => exact (pure []).congr (by simp)
  | cons b rest ih =>
    rw [List.mapM_cons]
    have later := ih fun c hc => each c (List.mem_cons_of_mem b hc)
    refine ((each b List.mem_cons_self).bind fun a _ => later.bind fun out _ =>
      pure (a :: out)).congr fun out => ?_
    rw [List.forall₂_cons_left_iff]
    simp only [exists_and_left]

end Answers

/-- Where less than `bound` containers may be opened, the reader gives what a document means. -/
def Reads (m : Manuscript) (bound : Nat) (reader : Place → ReadM α) (kind : Meaning α) : Prop :=
  ∀ d depth, depth < bound → d.Plain → Answers m (d.height < depth) (reader ⟨d, depth⟩) (kind d)

theorem Reads.mono {reader : Place → ReadM α} {kind : Meaning α} {bound bound' : Nat}
    (reads : Reads m bound reader kind) (less : bound' ≤ bound) : Reads m bound' reader kind :=
  fun d depth within plain => reads d depth (Nat.lt_of_lt_of_le within less) plain

end ReadM

/-- The places of the fields of a record, in which `depth` containers may be opened. -/
def Fields.placed (fields : List (String × Document)) (depth : Nat) : Fields :=
  fields.map fun f => (f.1, ⟨f.2, depth⟩)

namespace Place

open ReadM Document

variable {α β : Type} {m : Manuscript} {low : Prop} {bound : Nat} {d : Document}

theorem follow_plain (plain : d.Plain) (depth : Nat) : follow ⟨d, depth⟩ = pure ⟨d, depth⟩ := by
  cases plain <;> rfl

theorem atom_answers {view : Atom → Option α} (plain : d.Plain) (depth : Nat) :
    Answers m low (atom view ⟨d, depth⟩) fun a => ∃ x, d = .atom none x ∧ view x = some a := by
  unfold atom
  rw [follow_plain plain, pure_bind]
  cases plain with
  | atom j => exact (Answers.lift _).congr (by simp)
  | list inner => exact Answers.failure.congr (by simp)
  | record keys values => exact Answers.failure.congr (by simp)

theorem text_answers (plain : d.Plain) (depth : Nat) :
    Answers m low (text ⟨d, depth⟩) (Meaning.text d) := by
  refine (atom_answers plain depth).congr fun s => ?_
  cases plain with
  | atom j => cases j <;> simp [Meaning.text, Document.ofJson, Atom.ofJson]
  | list inner => simp [Meaning.text, Document.ofJson]
  | record keys values => simp [Meaning.text, Document.ofJson]

theorem text_reads : Reads m bound text Meaning.text := fun _ depth _ plain =>
  text_answers plain depth

theorem flag_reads : Reads m bound flag Meaning.flag := by
  intro d depth _ plain
  refine (atom_answers plain depth).congr fun b => ?_
  cases plain with
  | atom j => cases j <;> simp [Meaning.flag, Document.ofJson, Atom.ofJson]
  | list inner => simp [Meaning.flag, Document.ofJson]
  | record keys values => simp [Meaning.flag, Document.ofJson]

theorem items_answers (plain : d.Plain) (depth : Nat) :
    Answers m low (items ⟨d, depth⟩) fun out => ∃ items k,
      d = .list none items ∧ depth = k + 1 ∧ out = items.map (⟨·, k⟩) := by
  unfold items
  rw [follow_plain plain, pure_bind]
  cases plain with
  | atom j => cases j <;> exact Answers.failure.congr (by simp)
  | list inner =>
    cases depth with
    | zero => exact Answers.failure.congr (by simp)
    | succ k => exact (Answers.pure _).congr (by simp)
  | record keys values => exact Answers.failure.congr (by simp)

theorem list_reads {reader : Place → ReadM α} {kind : Meaning α} (reads : Reads m bound reader kind) :
    Reads m (bound + 1) (list reader) (Meaning.list kind) := by
  intro d depth within plain
  refine ((items_answers plain depth).bind (R := fun out l =>
    List.Forall₂ (fun p a => kind p.document a) out l) ?_).change ?_ ?_
  · rintro out ⟨items,k,rfl,rfl,rfl⟩
    refine Answers.mapM fun p hp => ?_
    obtain ⟨i,hi,rfl⟩ := List.mem_map.mp hp
    have inner : i.Plain := by
      cases plain with
      | list inner => exact inner i hi
    refine (reads i k (Nat.lt_of_succ_lt_succ within) inner).mono fun low => ?_
    exact Nat.lt_of_lt_of_le (height_of_item hi) (Nat.lt_succ_iff.mp low)
  · rintro l ⟨out,⟨items,k,rfl,rfl,rfl⟩,each⟩
    rw [List.forall₂_map_left_iff] at each
    exact ⟨items, rfl, each⟩
  · rintro low l ⟨items,rfl,each⟩
    obtain ⟨k,rfl⟩ : ∃ k, depth = k + 1 := ⟨depth - 1, by omega⟩
    exact ⟨_, ⟨items, k, rfl, rfl, rfl⟩, List.forall₂_map_left_iff.mpr each⟩

/-- Keys that are texts, and what they stand before. -/
theorem forall₂_placed {raw : List (Document × Document)} {out : Fields} {depth : Nat} :
    List.Forall₂ (fun f p => f.1 = .ofJson (.string p.1) ∧ p.2 = ⟨f.2, depth⟩) raw out ↔
      ∃ fields : List (String × Document),
        raw = fields.map (fun f => (.ofJson (.string f.1), f.2)) ∧
          out = Fields.placed fields depth := by
  constructor
  · intro each
    induction each with
    | nil => exact ⟨[], rfl, rfl⟩
    | @cons f p _ _ here _ ih =>
      obtain ⟨fields,rfl,rfl⟩ := ih
      refine ⟨(p.1, f.2) :: fields, ?_, ?_⟩
      · rw [List.map_cons, ← here.1]
      · exact congrArg (· :: _) (Prod.ext rfl here.2)
  · rintro ⟨fields,rfl,rfl⟩
    rw [List.forall₂_map_left_iff, Fields.placed, List.forall₂_map_right_iff, List.forall₂_same]
    exact fun f _ => ⟨rfl, rfl⟩

theorem fields_answers (plain : d.Plain) (depth : Nat) :
    Answers m low (fields ⟨d, depth⟩) fun out => ∃ fields k,
      d = .ofFields fields ∧ depth = k + 1 ∧ out = Fields.placed fields k := by
  unfold Place.fields
  rw [follow_plain plain, pure_bind]
  cases plain with
  | atom j => cases j <;> exact Answers.failure.congr (by simp [ofFields])
  | list inner => exact Answers.failure.congr (by simp [ofFields])
  | @record raw keys values =>
    cases depth with
    | zero => exact Answers.failure.congr (by simp)
    | succ k =>
      refine (Answers.mapM (R := fun f p => f.1 = .ofJson (.string p.1) ∧ p.2 = ⟨f.2, k⟩)
        fun f hf => ?_).congr fun out => ?_
      · refine ((text_answers (keys f hf) k).bind fun s _ =>
          Answers.pure (s, Place.mk f.2 k)).congr fun p => ?_
        constructor
        · rintro ⟨s,key,rfl⟩
          exact ⟨key, rfl⟩
        · rintro ⟨key,place⟩
          exact ⟨p.1, key, Prod.ext rfl place⟩
      · rw [forall₂_placed]
        simp [ofFields]

theorem row_answers (names : List String) (plain : d.Plain) (depth : Nat) :
    Answers m low (row true names ⟨d, depth⟩) fun out => ∃ fields k,
      d.HasFields names fields ∧ depth = k + 1 ∧ out = Fields.placed fields k := by
  cases plain with
  | atom j => exact (fields_answers (.atom j) depth).congr fun out => by simp [HasFields]
  | record keys values =>
    exact (fields_answers (.record keys values) depth).congr fun out => by simp [HasFields]
  | @list items inner =>
    refine ((items_answers (.list inner) depth).bind (R := fun places out =>
      places.length ≤ names.length ∧ out = names.zip places) fun places _ => ?_).congr fun out => ?_
    · by_cases fits : places.length ≤ names.length
      · rw [if_pos fits]
        exact (Answers.pure _).congr (by simp [fits])
      · rw [if_neg fits]
        exact Answers.failure.congr (by simp [fits])
    · constructor
      · rintro ⟨_,⟨_,k,same,rfl,rfl⟩,fits,rfl⟩
        cases same
        rw [List.length_map] at fits
        refine ⟨_, k, Or.inr ⟨items, rfl, fits, rfl⟩, rfl, ?_⟩
        rw [Fields.placed, List.zip_map_right]
        rfl
      · rintro ⟨_,k,same | ⟨_,same,fits,rfl⟩,rfl,rfl⟩
        · cases same
        · cases same
          refine ⟨_, ⟨items, k, rfl, rfl, rfl⟩, by rwa [List.length_map], ?_⟩
          rw [Fields.placed, List.zip_map_right]
          rfl

theorem record_answers (rows : m.rows = true) (names : List String) (plain : d.Plain)
    (depth : Nat) : Answers m low (record names ⟨d, depth⟩) fun out => ∃ fields k,
      d.HasFields names fields ∧ depth = k + 1 ∧ out = Fields.placed fields k := by
  refine Answers.read ?_
  rw [rows]
  exact row_answers names plain depth

theorem content_answers (fixed : m.choiceRows = false) (names : List String) (plain : d.Plain)
    (depth : Nat) : Answers m low (content names ⟨d, depth⟩) fun out => ∃ fields k,
      d = .ofFields fields ∧ depth = k + 1 ∧ out = Fields.placed fields k := by
  refine Answers.read ?_
  rw [fixed]
  unfold row
  cases plain with
  | atom j => exact fields_answers (.atom j) depth
  | list inner => exact fields_answers (.list inner) depth
  | record keys values => exact fields_answers (.record keys values) depth

theorem optional_reads {reader : Place → ReadM α} {kind : Meaning α}
    (reads : Reads m bound reader kind) : Reads m bound (optional reader) (Meaning.optional kind) := by
  intro d depth within plain
  have present : d ≠ .ofJson .null → optional reader ⟨d, depth⟩ = some <$> reader ⟨d, depth⟩ := by
    intro given
    unfold optional
    rw [follow_plain plain, pure_bind]
    cases plain with
    | atom j => cases j <;> first | rfl | exact absurd rfl given
    | list inner => rfl
    | record keys values => rfl
  by_cases absent : d = .ofJson .null
  · subst absent
    exact (Answers.pure none).congr (by simp [Meaning.optional])
  · rw [present absent, map_eq_pure_bind]
    refine ((reads d depth within plain).bind fun a _ => Answers.pure (some a)).congr fun o => ?_
    simp only [Meaning.optional, absent, false_and, false_or, not_false_eq_true, true_and, ne_eq]
    exact exists_congr fun a => And.comm

theorem choice_answers (unlabelled : m.labels = false) (plain : d.Plain) (depth : Nat) :
    Answers m low (choice ⟨d, depth⟩) fun c => ∃ content k,
      d = .ofFields [(c.1, content)] ∧ depth = k + 1 ∧ c.2 = ⟨content, k⟩ := by
  unfold choice
  refine Answers.read ?_
  simp only [follow_plain plain, pure_bind, unlabelled]
  cases plain with
  | atom j => exact Answers.failure.congr (by simp [ofFields])
  | list inner => exact Answers.failure.congr (by simp [ofFields])
  | @record raw keys values =>
    rcases raw with _ | ⟨⟨key,content⟩,_ | ⟨second,rest⟩⟩
    · exact Answers.failure.congr (by simp [ofFields])
    · cases depth with
      | zero => exact Answers.failure.congr (by simp)
      | succ k =>
        refine ((text_answers (keys _ List.mem_cons_self) k).bind fun s _ =>
          Answers.pure (s, Place.mk content k)).congr fun c => ?_
        constructor
        · rintro ⟨s,rfl,rfl⟩
          exact ⟨content, k, rfl, rfl, rfl⟩
        · rintro ⟨content',k',same,deeper,place⟩
          obtain ⟨rfl,rfl⟩ : key = .ofJson (.string c.1) ∧ content = content' := by
            simpa [ofFields] using same
          cases deeper
          exact ⟨c.1, rfl, Prod.ext rfl place⟩
    · exact Answers.failure.congr (by simp [ofFields])

theorem bareChoice_reads (unlabelled : m.labels = false) (ofName : String → Option α) :
    Reads m bound (bareChoice ofName) (Meaning.bareChoice ofName) := by
  intro d depth within plain
  unfold bareChoice
  rw [follow_plain plain, pure_bind]
  have chosen : Answers m (d.height < depth) (do
      let chosen ← choice ⟨d, depth⟩
      if ← chosen.2.atom fun a => some a.isBare then ReadM.lift (ofName chosen.1) else failure)
      fun a => ∃ s, ofName s = some a ∧ d = .ofFields [(s, .ofJson .null)] := by
    refine ((choice_answers unlabelled plain depth).bind
      (R := fun c a => ofName c.1 = some a ∧ c.2.document = .ofJson .null) ?_).change ?_ ?_
    · rintro ⟨name,_⟩ ⟨content,k,rfl,rfl,rfl⟩
      have inner : content.Plain := plain.values_of_ofFields _ List.mem_cons_self
      refine ((atom_answers inner k).bind (R := fun bare a => bare = true ∧ ofName name = some a)
        fun bare _ => ?_).congr fun a => ?_
      · cases bare with
        | false => exact Answers.failure.congr (by simp)
        | true => exact (Answers.lift _).congr (by simp)
      · cases inner with
        | atom j => cases j <;> simp [Document.ofJson, Atom.ofJson]
        | list inner => simp [Document.ofJson]
        | record keys values => simp [Document.ofJson]
    · rintro a ⟨c,⟨content,k,same,_,place⟩,named,null⟩
      rw [place] at null
      exact ⟨c.1, named, null ▸ same⟩
    · rintro low a ⟨s,named,same⟩
      obtain ⟨k,rfl⟩ : ∃ k, depth = k + 1 := ⟨depth - 1, by omega⟩
      exact ⟨(s, ⟨.ofJson .null, k⟩), ⟨_, k, same, rfl, rfl⟩, named, rfl⟩
  cases plain with
  | atom j =>
    refine (Answers.lift _).congr fun a => ?_
    cases j <;> simp [Meaning.bareChoice, Document.ofJson, Atom.ofJson, ofFields]
  | list inner => exact chosen.congr fun a => by simp [Meaning.bareChoice, Document.ofJson]
  | record keys values => exact chosen.congr fun a => by simp [Meaning.bareChoice, Document.ofJson]

theorem forall₂_json {items : List Document} {out : List Json} :
    List.Forall₂ Meaning.json items out ↔
      ∃ l : List Json, items = l.map .ofJson ∧ out = l.map .sorted := by
  constructor
  · intro each
    induction each with
    | nil => exact ⟨[], rfl, rfl⟩
    | cons here _ ih =>
      obtain ⟨j,rfl,rfl⟩ := here
      obtain ⟨l,rfl,rfl⟩ := ih
      exact ⟨j :: l, rfl, rfl⟩
  · rintro ⟨l,rfl,rfl⟩
    rw [List.forall₂_map_left_iff, List.forall₂_map_right_iff, List.forall₂_same]
    exact fun j _ => ⟨j, rfl, rfl⟩

/-- Fields whose values are read as JSON come from JSON. -/
theorem forall₂_jsonFields {raw : List (Document × Document)} {out : List (String × Json)} :
    List.Forall₂ (fun f o => f.1 = .ofJson (.string o.1) ∧ Meaning.json f.2 o.2) raw out ↔
      ∃ l : List (String × Json), raw = l.map (fun f => (.ofJson (.string f.1), .ofJson f.2)) ∧
        out = l.map fun f => (f.1, f.2.sorted) := by
  constructor
  · intro each
    induction each with
    | nil => exact ⟨[], rfl, rfl⟩
    | @cons f o _ _ here _ ih =>
      obtain ⟨key,j,value,sorted⟩ := here
      obtain ⟨l,rfl,rfl⟩ := ih
      refine ⟨(o.1, j) :: l, ?_, ?_⟩
      · exact congrArg (· :: _) (Prod.ext key value)
      · exact congrArg (· :: _) (Prod.ext rfl sorted)
  · rintro ⟨l,rfl,rfl⟩
    rw [List.forall₂_map_left_iff, List.forall₂_map_right_iff, List.forall₂_same]
    exact fun f _ => ⟨rfl, f.2, rfl, rfl⟩

theorem atom_json {j v : Json} :
    (Atom.ofJson j).value = some v ↔ Meaning.json (.atom none (.ofJson j)) v := by
  constructor
  · intro value
    cases j with
    | array items => cases value
    | object fields => cases value
    | null =>
      cases value
      exact ⟨.null, rfl, rfl⟩
    | bool b =>
      cases value
      exact ⟨.bool b, rfl, rfl⟩
    | number n =>
      cases value
      exact ⟨.number n, rfl, rfl⟩
    | string s =>
      cases value
      exact ⟨.string s, rfl, rfl⟩
  · rintro ⟨i,same,rfl⟩
    cases j <;> cases i <;> simp_all [Document.ofJson, Atom.ofJson, Json.sorted]

theorem list_json {items : List Document} {v : Json} :
    (∃ l, List.Forall₂ Meaning.json items l ∧ v = .array l) ↔ Meaning.json (.list none items) v := by
  constructor
  · rintro ⟨_,each,rfl⟩
    obtain ⟨l,rfl,rfl⟩ := forall₂_json.mp each
    exact ⟨.array l, (ofJson_array l).symm, by rw [Json.sorted, Json.sortedItems_eq]⟩
  · rintro ⟨j,same,rfl⟩
    cases j with
    | array l =>
      rw [ofJson_array] at same
      cases same
      exact ⟨_, forall₂_json.mpr ⟨l, rfl, rfl⟩, by rw [Json.sorted, Json.sortedItems_eq]⟩
    | _ => cases same

theorem record_json {raw : List (Document × Document)} {v : Json} :
    (∃ l : List (String × Json), List.Forall₂ (fun f o =>
      f.1 = .ofJson (.string o.1) ∧ Meaning.json f.2 o.2) raw l ∧ v = Json.mkObject l) ↔
        Meaning.json (.record none raw) v := by
  constructor
  · rintro ⟨_,each,rfl⟩
    obtain ⟨l,rfl,rfl⟩ := forall₂_jsonFields.mp each
    exact ⟨.object l, by rw [Document.ofJson, ofJsonFields_eq], by
      rw [Json.sorted, Json.sortedFields_eq]⟩
  · rintro ⟨j,same,rfl⟩
    cases j with
    | object l =>
      rw [Document.ofJson, ofJsonFields_eq] at same
      cases same
      exact ⟨_, forall₂_jsonFields.mpr ⟨l, rfl, rfl⟩, by rw [Json.sorted, Json.sortedFields_eq]⟩
    | _ => cases same

theorem jsonAt_answers (plain : d.Plain) (depth : Nat) :
    Answers m (d.height ≤ depth) (jsonAt depth d) (Meaning.json d) := by
  induction depth generalizing d with
  | zero =>
    unfold jsonAt
    rw [follow_plain plain, pure_bind]
    cases plain with
    | atom j => exact (Answers.lift _).congr fun v => atom_json
    | list inner =>
      exact Answers.failure.change (fun _ => False.elim) fun low => absurd low (Nat.not_succ_le_zero _)
    | record keys values =>
      exact Answers.failure.change (fun _ => False.elim) fun low => absurd low (Nat.not_succ_le_zero _)
  | succ depth ih =>
    unfold jsonAt
    rw [follow_plain plain, pure_bind]
    cases plain with
    | atom j => exact (Answers.lift _).congr fun v => atom_json
    | @list items inner =>
      refine ((Answers.mapM fun i hi => (ih (inner i hi)).mono fun low => ?_).bind fun l _ =>
        Answers.pure (Json.array l)).congr fun v => list_json
      exact Nat.lt_succ_iff.mp (Nat.lt_of_lt_of_le (height_of_item hi) low)
    | @record raw keys values =>
      refine ((Answers.mapM (R := fun f o => f.1 = .ofJson (.string o.1) ∧ Meaning.json f.2 o.2)
        fun f hf => ?_).bind fun l _ => Answers.pure (Json.mkObject l)).congr fun v => record_json
      refine ((text_answers (keys f hf) 0).bind fun s _ => ((ih (values f hf)).mono fun low =>
        Nat.lt_succ_iff.mp (Nat.lt_of_lt_of_le (height_of_value hf) low)).bind fun v _ =>
          Answers.pure (s, v)).congr fun o => ?_
      constructor
      · rintro ⟨s,key,v,value,rfl⟩
        exact ⟨key, value⟩
      · rintro ⟨key,value⟩
        exact ⟨o.1, key, o.2, value, rfl⟩

theorem json_reads : Reads m bound json Meaning.json := fun _ depth _ plain =>
  (jsonAt_answers plain depth).mono Nat.le_of_lt

end Place

theorem Fields.under_placed (key : String) (fields : List (String × Document)) (depth : Nat) :
    under key (placed fields depth) = (Document.under key fields).map (⟨·, depth⟩) := by
  unfold under placed Document.under
  rw [List.filter_map, List.map_map, List.map_map]
  rfl

namespace ReadM

open Document

variable {α β : Type} {m : Manuscript} {bound : Nat} {reader : Place → ReadM α} {kind : Meaning α}

/-- Where less than `bound` containers may be opened in the values, the reader gives what the fields
    of a record mean. -/
def ReadsFields (m : Manuscript) (bound : Nat) (reader : Fields → ReadM α)
    (parts : List (String × Document) → α → Prop) : Prop :=
  ∀ fields depth, depth < bound → (∀ f ∈ fields, f.2.Plain) →
    Answers m (∀ f ∈ fields, f.2.height < depth) (reader (.placed fields depth)) (parts fields)

namespace ReadsFields

theorem required (reads : Reads m bound reader kind) (key : String) :
    ReadsFields m bound (Fields.required reader key) (Meaning.required kind key) := by
  intro fields depth within plain
  unfold Fields.required
  rw [Fields.under_placed]
  match alone : Document.under key fields with
  | [] => exact Answers.failure.congr fun a => by simp [Meaning.required, alone]
  | [d] =>
    have inside : (key, d) ∈ fields := mem_under (alone ▸ List.mem_cons_self)
    refine ((reads d depth within (plain _ inside)).mono fun low => low _ inside).congr fun a => ?_
    simp [Meaning.required, alone]
  | _ :: _ :: _ => exact Answers.failure.congr fun a => by simp [Meaning.required, alone]

theorem defaulted (reads : Reads m bound reader kind) (fallback : α) (key : String) :
    ReadsFields m bound (Fields.defaulted reader fallback key)
      (Meaning.defaulted kind fallback key) := by
  intro fields depth within plain
  have given := required reads key fields depth within plain
  unfold Fields.required at given
  unfold Fields.defaulted
  rw [Fields.under_placed] at given ⊢
  match alone : Document.under key fields with
  | [] =>
    exact (Answers.pure fallback).congr fun a => by
      simp [Meaning.defaulted, Meaning.required, alone]
  | [d] =>
    rw [alone] at given
    exact given.congr fun a => by simp [Meaning.defaulted, alone]
  | _ :: _ :: _ =>
    exact Answers.failure.congr fun a => by simp [Meaning.defaulted, Meaning.required, alone]

theorem optional (reads : Reads m bound reader kind) (key : String) :
    ReadsFields m bound (Fields.optional reader key) (Meaning.possible kind key) :=
  defaulted (Place.optional_reads reads) none key

variable {x : Fields → ReadM α} {f : α → Fields → ReadM β}
  {parts parts' : List (String × Document) → α → Prop}
  {rest : α → List (String × Document) → β → Prop}

theorem pure (a : α) : ReadsFields m bound (fun _ => Pure.pure a) fun _ b => b = a :=
  fun _ _ _ _ => Answers.pure a

theorem bind (first : ReadsFields m bound x parts) (later : ∀ a, ReadsFields m bound (f a) (rest a)) :
    ReadsFields m bound (fun fields => x fields >>= fun a => f a fields)
      fun fields b => ∃ a, parts fields a ∧ rest a fields b :=
  fun fields depth within plain => (first fields depth within plain).bind fun a _ =>
    later a fields depth within plain

theorem congr (reads : ReadsFields m bound x parts)
    (same : ∀ fields a, parts fields a ↔ parts' fields a) : ReadsFields m bound x parts' :=
  fun fields depth within plain => (reads fields depth within plain).congr (same fields)

theorem sourced {source : Place → ReadM Fields} {has : Document → List (String × Document) → Prop}
    (reads : ReadsFields m bound x parts)
    (answers : ∀ d depth, d.Plain → Answers m True (source ⟨d, depth⟩) fun out => ∃ fields k,
      has d fields ∧ depth = k + 1 ∧ out = Fields.placed fields k)
    (unique : ∀ d fields fields', has d fields → has d fields' → fields = fields')
    (plain : ∀ d fields, has d fields → d.Plain → ∀ f ∈ fields, f.2.Plain)
    (lower : ∀ d fields, has d fields → ∀ f ∈ fields, f.2.height < d.height) :
    Reads m (bound + 1) (fun p => do x (← source p)) fun d a =>
      ∃ fields, has d fields ∧ parts fields a := by
  intro d depth within whole
  refine (((answers d depth whole).mono fun _ => trivial).bind (R := fun _ a =>
    ∃ fields, has d fields ∧ parts fields a) ?_).change ?_ ?_
  · rintro out ⟨fields,k,here,rfl,rfl⟩
    have inner := reads fields k (Nat.lt_of_succ_lt_succ within) (plain d fields here whole)
    refine (inner.mono fun low f hf => ?_).congr fun a => ⟨fun holds => ⟨fields, here, holds⟩, ?_⟩
    · exact Nat.lt_of_lt_of_le (lower d fields here f hf) (Nat.lt_succ_iff.mp low)
    · rintro ⟨fields',there,holds⟩
      exact unique d fields' fields there here ▸ holds
  · rintro a ⟨_,_,holds⟩
    exact holds
  · rintro low a ⟨fields,here,holds⟩
    obtain ⟨k,rfl⟩ : ∃ k, depth = k + 1 := ⟨depth - 1, by omega⟩
    exact ⟨_, ⟨fields, k, here, rfl, rfl⟩, fields, here, holds⟩

theorem record (reads : ReadsFields m bound x parts) (rows : m.rows = true)
    (names : List String) :
    Reads m (bound + 1) (fun p => do x (← p.record names)) (Meaning.record names parts) :=
  reads.sourced (fun _ depth plain => Place.record_answers rows names plain depth)
    (fun _ _ _ first second => first.unique second) (fun _ _ has plain => has.plain plain)
    fun _ _ has => has.lower

theorem content (reads : ReadsFields m bound x parts) (fixed : m.choiceRows = false)
    (names : List String) :
    Reads m (bound + 1) (fun p => do x (← p.content names)) (Meaning.fields parts) := by
  refine reads.sourced (fun _ depth plain => Place.content_answers fixed names plain depth) ?_ ?_ ?_
  · rintro d fields fields' rfl same
    exact ofFields_injective same
  · rintro d fields rfl plain
    exact plain.values_of_ofFields
  · rintro d fields rfl f hf
    exact height_of_field hf

end ReadsFields

end ReadM

end Statechart

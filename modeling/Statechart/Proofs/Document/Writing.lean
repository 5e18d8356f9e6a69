import Statechart.Chart.Writer
import Statechart.Proofs.Document.Chart

/- Charts mean the same when they are written down again.

   What is written holds nothing but what was read: texts, lists, switches and words as they are, and
   JSON with ascending keys, which never is null where it might have been left out. The fields of an
   object may be kept as they are written or in ascending order. -/
namespace Statechart

namespace Json

/-- A way to keep the fields of objects that were written. -/
structure Arrangement where
  of : Json → Json
  array : ∀ items, of (.array items) = .array (items.map of)
  single : ∀ key j, of (.object [(key, j)]) = .object [(key, of j)]
  object : ∀ fields : List (String × Json), (fields.map (·.1)).Nodup → ∃ kept,
    of (.object fields) = .object kept ∧ (kept.map (·.1)).Nodup ∧
      ∀ key, lookup key kept = (lookup key fields).map of
  canonical : ∀ j, j.Canonical → of j = j

/-- Fields stay where they were written. -/
def asWritten : Arrangement where
  of := id
  array items := by simp
  single _ _ := rfl
  object fields distinct := ⟨fields, rfl, distinct, fun key => by simp⟩
  canonical _ _ := rfl

theorem lookup_sortedFields (key : String) (fields : List (String × Json)) :
    lookup key (sortedFields fields) = (lookup key fields).map sorted := by
  induction fields with
  | nil => rfl
  | cons f rest ih =>
    rw [sortedFields, lookup, lookup]
    split
    · rfl
    · exact ih

theorem Ascending.distinct {fields : List (String × Json)} (ascending : Ascending fields) :
    (fields.map (·.1)).Nodup :=
  List.pairwise_map.mpr (ascending.imp fun less => String.ne_of_lt less)

/-- Fields are put into ascending order. -/
def ascending : Arrangement where
  of := sorted
  array items := by rw [sorted, sortedItems_eq]
  single _ _ := rfl
  object fields distinct := by
    have sorts : ((sortedFields fields).map (·.1)).Nodup := by
      rw [sortedFields_eq, List.map_map]
      exact distinct
    refine ⟨insertAll (sortedFields fields) [], ?_, ?_, fun key => ?_⟩
    · rw [sorted, mkObject_eq]
    · exact (Ascending.insertAll List.Pairwise.nil _).distinct
    · rw [lookup_insertAll sorts, lookup_sortedFields]
      simp [lookup]
  canonical := sorted_of_canonical

namespace Arrangement

variable (A : Arrangement)

@[simp] theorem of_null : A.of .null = .null := A.canonical _ trivial

@[simp] theorem of_string (s : String) : A.of (.string s) = .string s := A.canonical _ trivial

@[simp] theorem of_bool (b : Bool) : A.of (.bool b) = .bool b := A.canonical _ trivial

end Arrangement

end Json

namespace Document

theorem under_eq_lookup {fields : List (String × Json)} (distinct : (fields.map (·.1)).Nodup)
    (key : String) :
    under key (fields.map fun f => (f.1, ofJson f.2)) =
      ((Json.lookup key fields).map ofJson).toList := by
  induction fields with
  | nil => rfl
  | cons f rest ih =>
    obtain ⟨fresh,others⟩ := List.nodup_cons.mp distinct
    have later := ih others
    unfold under at later ⊢
    by_cases here : f.1 = key
    · subst here
      simp [Json.lookup, later, Json.lookup_eq_none fresh]
    · simp [Json.lookup, here, later]

end Document

namespace Source

/-- The keys of the fields are among these, in this order. -/
def Keys (names : List String) (fields : JsonFields) : Prop := (fields.map (·.1)).Sublist names

variable {names names' : List String} {fields fields' : JsonFields} {key k : String}

theorem Keys.append (first : Keys names fields) (second : Keys names' fields') :
    Keys (names ++ names') (fields ++ fields') := by
  unfold Keys
  rw [List.map_append]
  exact List.Sublist.append first second

theorem Keys.one (key : String) (j : Json) : Keys [key] [(key, j)] := List.Sublist.refl _

theorem Keys.cons (key : String) (j : Json) (rest : Keys names fields) :
    Keys (key :: names) ((key, j) :: fields) := List.Sublist.cons_cons key rest

theorem keys_textField (key : String) (o : Option String) : Keys [key] (textField key o) := by
  cases o with
  | none => exact List.nil_sublist _
  | some s => exact List.Sublist.refl _

theorem keys_jsonField (key : String) (o : Option Json) : Keys [key] (jsonField key o) := by
  cases o with
  | none => exact List.nil_sublist _
  | some j => exact List.Sublist.refl _

theorem keys_listField (key : String) (items : List Json) : Keys [key] (listField key items) := by
  cases items with
  | nil => exact List.nil_sublist _
  | cons j rest => exact List.Sublist.refl _

theorem keys_tokensField (key : String) (o : Option (List String)) :
    Keys [key] (tokensField key o) := by
  cases o with
  | none => exact List.nil_sublist _
  | some l => exact List.Sublist.refl _

theorem keys_init (v : ValueDef) : Keys ["expr", "value"] v.fields :=
  (keys_textField "expr" v.expr).append (keys_jsonField "value" v.value)

@[simp] theorem lookup_textField (key k : String) (o : Option String) :
    Json.lookup k (textField key o) = if key = k then o.map .string else none := by
  cases o <;> simp [textField, Json.lookup]

@[simp] theorem lookup_jsonField (key k : String) (o : Option Json) :
    Json.lookup k (jsonField key o) = if key = k then o else none := by
  cases o <;> simp [jsonField, Json.lookup]

/-- What stands in the field of a list. -/
def listed : List Json → Option Json
  | [] => none
  | items => some (.array items)

@[simp] theorem lookup_listField (key k : String) (items : List Json) :
    Json.lookup k (listField key items) = if key = k then listed items else none := by
  cases items <;> simp [listField, listed, Json.lookup]

@[simp] theorem lookup_tokensField (key k : String) (o : Option (List String)) :
    Json.lookup k (tokensField key o) =
      if key = k then o.map fun l => .array (l.map .string) else none := by
  cases o <;> simp [tokensField, Json.lookup]

theorem StateType.ofName?_name (type : StateType) : ofName? type.name = some type := by
  cases type <;> rfl

theorem HistoryType.ofName?_name (type : HistoryType) : ofName? type.name = some type := by
  cases type <;> rfl

theorem TransitionType.ofName?_name (type : TransitionType) : ofName? type.name = some type := by
  cases type <;> rfl

theorem actionsToJson_eq (l : List ActionDef) : actionsToJson l = l.map ActionDef.toJson := by
  induction l with
  | nil => rfl
  | cons a rest ih => rw [actionsToJson, ih, List.map_cons]

def elseIfToJson (b : String × List ActionDef) : Json :=
  .object [("cond", .string b.1), ("actions", .array (b.2.map ActionDef.toJson))]

theorem elseIfsToJson_eq (l : List (String × List ActionDef)) :
    elseIfsToJson l = l.map elseIfToJson := by
  induction l with
  | nil => rfl
  | cons b rest ih => rw [elseIfsToJson, ih, List.map_cons, elseIfToJson, actionsToJson_eq]

theorem branch_toJson (cond : String) (body : List ActionDef)
    (elseIfs : List (String × List ActionDef)) (otherwise : Option (List ActionDef)) :
    (ActionDef.branch cond body elseIfs otherwise).toJson =
      .object [("if", .object ([("cond", .string cond),
          ("actions", .array (body.map ActionDef.toJson))]
        ++ listField "elseif" (elseIfs.map elseIfToJson)
        ++ jsonField "else" (otherwise.map fun l => .array (l.map ActionDef.toJson))))] := by
  cases otherwise with
  | none => rw [ActionDef.toJson, actionsToJson_eq, elseIfsToJson_eq]; rfl
  | some l => rw [ActionDef.toJson, actionsToJson_eq, elseIfsToJson_eq, actionsToJson_eq]; rfl

theorem statesToJson_eq (l : List StateDef) : statesToJson l = l.map StateDef.toJson := by
  induction l with
  | nil => rfl
  | cons s rest ih => rw [statesToJson, ih, List.map_cons]

end Source

namespace Meaning

open Json Source Document

variable (A : Arrangement) {α β : Type} {kind : Meaning α} {written : JsonFields}
  {raw : List (String × Document)} {key : String}

/-- The fields of a document are those that were written. -/
def Stands (written : JsonFields) (raw : List (String × Document)) : Prop :=
  ∀ key, under key raw = ((lookup key written).map fun j => ofJson (A.of j)).toList

variable {A}

theorem exists_stands {names : List String} (keys : Keys names written) (distinct : names.Nodup) :
    ∃ raw, ofJson (A.of (.object written)) = ofFields raw ∧ Stands A written raw := by
  obtain ⟨kept,same,alone,found⟩ := A.object written (keys.nodup distinct)
  refine ⟨_, by rw [same, ofJson_object], fun key => ?_⟩
  rw [under_eq_lookup alone, found, Option.map_map]
  rfl

theorem fields_written {parts : List (String × Document) → α → Prop} {a : α} {names : List String}
    (keys : Keys names written) (distinct : names.Nodup)
    (said : ∀ raw, Stands A written raw → parts raw a) :
    fields parts (ofJson (A.of (.object written))) a := by
  obtain ⟨raw,same,stands⟩ := exists_stands keys distinct
  exact ⟨raw, same, said raw stands⟩

theorem record_written {parts : List (String × Document) → α → Prop} {a : α} {names : List String}
    (keys : Keys names written) (distinct : names.Nodup)
    (said : ∀ raw, Stands A written raw → parts raw a) :
    record names parts (ofJson (A.of (.object written))) a := by
  obtain ⟨raw,same,stands⟩ := exists_stands keys distinct
  exact ⟨raw, Or.inl same, said raw stands⟩

theorem list_written {toJson : α → Json} {l : List α}
    (each : ∀ a ∈ l, kind (ofJson (A.of (toJson a))) a) :
    list kind (ofJson (A.of (.array (l.map toJson)))) l := by
  refine ⟨l.map fun a => ofJson (A.of (toJson a)), ?_, ?_⟩
  · rw [A.array, ofJson_array, List.map_map, List.map_map]
    rfl
  · rw [List.forall₂_map_left_iff, List.forall₂_same]
    exact each

section Fields

variable (stands : Stands A written raw)

include stands

theorem required_written {j : Json} {a : α} (found : lookup key written = some j)
    (said : kind (ofJson (A.of j)) a) : required kind key raw a :=
  ⟨_, by rw [stands key, found]; rfl, said⟩

theorem required_text {s : String} (found : lookup key written = some (.string s)) :
    required text key raw s :=
  required_written stands found (by rw [A.of_string]; rfl)

theorem defaulted_written {j : Json} {fallback a : α} (found : lookup key written = some j)
    (said : kind (ofJson (A.of j)) a) : defaulted kind fallback key raw a :=
  Or.inr (required_written stands found said)

theorem defaulted_missing {fallback : α} (missing : lookup key written = none) :
    defaulted kind fallback key raw fallback :=
  Or.inl ⟨by rw [stands key, missing]; rfl, rfl⟩

theorem defaulted_list {toJson : α → Json} {l : List α}
    (found : lookup key written = listed (l.map toJson))
    (each : ∀ a ∈ l, kind (ofJson (A.of (toJson a))) a) :
    defaulted (list kind) [] key raw l := by
  cases l with
  | nil => exact defaulted_missing stands found
  | cons a rest => exact defaulted_written stands found (list_written each)

theorem possible_written {f : β → Json} {kind : Meaning β} {o : Option β}
    (found : lookup key written = o.map f)
    (said : ∀ b, o = some b → A.of (f b) ≠ .null ∧ kind (ofJson (A.of (f b))) b) :
    possible kind key raw o := by
  cases o with
  | none => exact defaulted_missing stands found
  | some b =>
    obtain ⟨given,said⟩ := said b rfl
    exact defaulted_written stands found (Or.inr ⟨ofJson_ne_null given, b, rfl, said⟩)

theorem possible_text {o : Option String} (found : lookup key written = o.map .string) :
    possible text key raw o :=
  possible_written stands found fun s _ => by rw [A.of_string]; exact ⟨nofun, rfl⟩

theorem possible_tokens {o : Option (List String)}
    (found : lookup key written = o.map fun l => .array (l.map .string)) :
    possible tokens key raw o := by
  refine possible_written stands found fun l _ => ⟨by rw [A.array]; exact nofun, Or.inl ?_⟩
  exact list_written fun s _ => by rw [A.of_string]; rfl

/-- JSON that was read from a field that may be left out is read again. -/
theorem possible_json {before : List (String × Document)} {o : Option Json}
    (found : lookup key written = o) (said : possible json key before o) :
    possible json key raw o := by
  refine possible_written (f := id) stands (by rw [found, Option.map_id]; rfl) fun v same => ?_
  subst same
  rcases said with ⟨_,never⟩ | ⟨d,_,⟨_,never⟩ | ⟨given,w,same,j,rfl,rfl⟩⟩
  · cases never
  · cases never
  · cases same
    have present : j ≠ .null := fun null => given (congrArg ofJson null)
    rw [id, A.canonical _ (canonical_sorted j)]
    exact ⟨sorted_ne_null present, j.sorted, rfl, (sorted_sorted j).symm⟩

theorem init_written {before : List (String × Document)} {v : ValueDef} (said : init before v)
    (expr : lookup "expr" written = v.expr.map .string)
    (value : lookup "value" written = v.value) : init raw v :=
  ⟨possible_text stands expr, possible_json stands value said.2⟩

end Fields

variable {d : Document}

theorem of_object_ne_null (written : JsonFields) {names : List String} (keys : Keys names written)
    (distinct : names.Nodup) : A.of (.object written) ≠ .null := by
  obtain ⟨kept,same,_⟩ := A.object written (keys.nodup distinct)
  rw [same]
  exact nofun

theorem valueDef_written {v : ValueDef} (said : valueDef d v) :
    A.of v.toJson ≠ .null ∧ valueDef (ofJson (A.of v.toJson)) v := by
  obtain ⟨_,_,said⟩ := said
  have keys := keys_init v
  refine ⟨of_object_ne_null _ keys (by decide), record_written keys (by decide) fun raw stands => ?_⟩
  exact init_written stands said (by simp [ValueDef.fields, lookup_append])
    (by simp [ValueDef.fields, lookup_append])

theorem data_written {x : DataDef} (said : data d x) : data (ofJson (A.of x.toJson)) x := by
  obtain ⟨_,_,_,said⟩ := said
  refine record_written ((keys_init x.init).cons "id" _) (by decide) fun raw stands => ⟨?_, ?_⟩
  · exact required_text stands rfl
  · exact init_written stands said (by simp [lookup, ValueDef.fields, lookup_append])
      (by simp [lookup, ValueDef.fields, lookup_append])

theorem param_written {p : ParamDef} (said : param d p) : param (ofJson (A.of p.toJson)) p := by
  obtain ⟨_,_,_,said⟩ := said
  refine record_written ((keys_init p.init).cons "name" _) (by decide) fun raw stands => ⟨?_, ?_⟩
  · exact required_text stands rfl
  · exact init_written stands said (by simp [lookup, ValueDef.fields, lookup_append])
      (by simp [lookup, ValueDef.fields, lookup_append])

/- Every member of a list that was read has a document of its own. -/

theorem exists_of_list {l : List α} (said : list kind d l) : ∀ a ∈ l, ∃ e, kind e a := by
  obtain ⟨items,_,each⟩ := said
  clear * - each
  intro a inside
  induction each with
  | nil => cases inside
  | cons here _ ih =>
    rcases List.mem_cons.mp inside with rfl | later
    · exact ⟨_, here⟩
    · exact ih later

theorem exists_of_defaulted {l : List α} (said : defaulted (list kind) [] key raw l) :
    ∀ a ∈ l, ∃ e, kind e a := by
  rcases said with ⟨_,rfl⟩ | ⟨_,_,said⟩
  · exact nofun
  · exact exists_of_list said

theorem exists_of_possible {o : Option α} (said : possible kind key raw o) :
    ∀ a, o = some a → ∃ e, kind e a := by
  rintro a rfl
  rcases said with ⟨_,never⟩ | ⟨e,_,⟨_,never⟩ | ⟨_,_,same,said⟩⟩
  · cases never
  · cases never
  · cases same
    exact ⟨e, said⟩

section Again

variable {before : List (String × Document)} (stands : Stands A written raw)

include stands

theorem possible_valueDef {o : Option ValueDef} (found : lookup key written = o.map ValueDef.toJson)
    (said : possible valueDef key before o) : possible valueDef key raw o :=
  possible_written stands found fun v same =>
    (exists_of_possible said v same).elim fun _ => valueDef_written

/-- A list is written so that it means the same, if that is so for its members. -/
theorem list_again {toJson : α → Json} {l : List α}
    (again : ∀ e a, kind e a → kind (ofJson (A.of (toJson a))) a)
    (found : lookup key written = listed (l.map toJson))
    (said : defaulted (list kind) [] key before l) : defaulted (list kind) [] key raw l :=
  defaulted_list stands found fun a inside =>
    (exists_of_defaulted said a inside).elim fun e => again e a

theorem whole_list_again {toJson : α → Json} {l : List α}
    (again : ∀ e a, kind e a → kind (ofJson (A.of (toJson a))) a)
    (found : lookup key written = some (.array (l.map toJson)))
    (said : defaulted (list kind) [] key before l) : defaulted (list kind) [] key raw l :=
  defaulted_written stands found (list_written fun a inside =>
    (exists_of_defaulted said a inside).elim fun e => again e a)

end Again

section Actions

variable {action : Meaning ActionDef} {a : ActionDef}
  (again : ∀ e a, action e a → action (ofJson (A.of a.toJson)) a)

include again

theorem elseIf_written (e : Document) (b : String × List ActionDef) (said : elseIf action e b) :
    elseIf action (ofJson (A.of (elseIfToJson b))) b := by
  obtain ⟨_,_,_,done⟩ := said
  refine record_written ((Keys.one "actions" _).cons "cond" _) (by decide) fun raw stands => ⟨?_, ?_⟩
  · exact required_text stands rfl
  · exact whole_list_again stands again rfl done

omit again in
theorem send_written (said : contentOf action "send" d a) :
    ∃ body, a.toJson = .object [("send", body)] ∧
      contentOf action "send" (ofJson (A.of body)) a := by
  rw [contentOf] at said
  obtain ⟨_,_,s,⟨_,_,_,_,_,_,_,delay,_,params,content⟩,rfl⟩ := said
  refine ⟨_, rfl, ?_⟩
  rw [contentOf]
  have keys := ((((((((((keys_textField "event" s.event).append
    (keys_textField "eventexpr" s.eventExpr)).append (keys_textField "target" s.target)).append
    (keys_textField "targetexpr" s.targetExpr)).append (keys_textField "type" s.type)).append
    (keys_textField "id" s.id)).append (keys_textField "idlocation" s.idLocation)).append
    (keys_jsonField "delay" s.delay)).append (keys_textField "delayexpr" s.delayExpr)).append
    (keys_listField "params" (s.params.map ParamDef.toJson))).append
    (keys_jsonField "content" (s.content.map ValueDef.toJson))
  refine record_written keys (by decide) fun raw stands => ⟨s, ⟨?_, ?_, ?_, ?_, ?_, ?_, ?_, ?_,
    ?_, ?_, ?_⟩, rfl⟩
  · exact possible_text stands (by simp [lookup_append])
  · exact possible_text stands (by simp [lookup_append])
  · exact possible_text stands (by simp [lookup_append])
  · exact possible_text stands (by simp [lookup_append])
  · exact possible_text stands (by simp [lookup_append])
  · exact possible_text stands (by simp [lookup_append])
  · exact possible_text stands (by simp [lookup_append])
  · exact possible_json stands (by simp [lookup_append]) delay
  · exact possible_text stands (by simp [lookup_append])
  · exact list_again stands (fun _ _ => param_written) (by simp [lookup_append]) params
  · exact possible_valueDef stands (by simp [lookup_append]) content

theorem branch_written (said : contentOf action "if" d a) :
    ∃ body, a.toJson = .object [("if", body)] ∧ contentOf action "if" (ofJson (A.of body)) a := by
  rw [contentOf] at said
  obtain ⟨_,_,cond,body,elseIfs,otherwise,_,done,others,last,rfl⟩ := said
  refine ⟨_, branch_toJson cond body elseIfs otherwise, ?_⟩
  rw [contentOf]
  refine record_written ((((Keys.one "actions" _).cons "cond" _).append
    (keys_listField "elseif" _)).append (keys_jsonField "else" _)) (by decide)
    fun raw stands => ⟨cond, body, elseIfs, otherwise, ?_, ?_, ?_, ?_, rfl⟩
  · exact required_text stands rfl
  · exact whole_list_again stands again rfl done
  · exact list_again stands (elseIf_written again) (by simp [lookup, lookup_append]) others
  · refine possible_written stands (by simp [lookup, lookup_append]; rfl) fun l same => ?_
    obtain ⟨e,said⟩ := exists_of_possible last l same
    refine ⟨by rw [A.array]; exact nofun, list_written fun a inside => ?_⟩
    exact (exists_of_list said a inside).elim fun e => again e a

theorem forEach_written (said : contentOf action "foreach" d a) :
    ∃ body, a.toJson = .object [("foreach", body)] ∧
      contentOf action "foreach" (ofJson (A.of body)) a := by
  rw [contentOf] at said
  obtain ⟨_,_,array,item,index,body,_,_,_,done,rfl⟩ := said
  refine ⟨_, rfl, ?_⟩
  rw [contentOf]
  refine record_written ((((Keys.one "item" _).cons "array" _).append
    (keys_textField "index" index)).append (.one "actions" _)) (by decide)
    fun raw stands => ⟨array, item, index, body, ?_, ?_, ?_, ?_, rfl⟩
  · exact required_text stands rfl
  · exact required_text stands rfl
  · exact possible_text stands (by simp [lookup, lookup_append])
  · exact whole_list_again stands again (by simp [lookup, lookup_append, actionsToJson_eq]) done

/-- What is done is written so that it means the same, if that is so for what is done inside of it. -/
theorem contentOf_written {name : String} (said : contentOf action name d a) :
    ∃ body, a.toJson = .object [(name, body)] ∧ contentOf action name (ofJson (A.of body)) a := by
  have whole := said
  unfold contentOf at said
  split at said
  · obtain ⟨_,_,event,_,rfl⟩ := said
    refine ⟨_, rfl, ?_⟩
    rw [contentOf]
    refine fields_written (.one "event" _) (by decide) fun raw stands => ⟨event, ?_, rfl⟩
    exact required_text stands rfl
  · exact send_written whole
  · obtain ⟨_,_,id,expr,_,_,rfl⟩ := said
    refine ⟨_, rfl, ?_⟩
    rw [contentOf]
    refine fields_written ((keys_textField "sendid" id).append
      (keys_textField "sendidexpr" expr)) (by decide) fun raw stands => ⟨id, expr, ?_, ?_, rfl⟩
    · exact possible_text stands (by simp [lookup_append])
    · exact possible_text stands (by simp [lookup_append])
  · obtain ⟨_,_,label,expr,_,_,rfl⟩ := said
    refine ⟨_, rfl, ?_⟩
    rw [contentOf]
    refine fields_written ((keys_textField "label" label).append
      (keys_textField "expr" expr)) (by decide) fun raw stands => ⟨label, expr, ?_, ?_, rfl⟩
    · exact possible_text stands (by simp [lookup_append])
    · exact possible_text stands (by simp [lookup_append])
  · obtain ⟨_,_,location,v,_,said,rfl⟩ := said
    refine ⟨_, rfl, ?_⟩
    rw [contentOf]
    refine fields_written ((keys_init v).cons "location" _) (by decide)
      fun raw stands => ⟨location, v, required_text stands rfl, ?_, rfl⟩
    exact init_written stands said (by simp [lookup, ValueDef.fields, lookup_append])
      (by simp [lookup, ValueDef.fields, lookup_append])
  · exact branch_written again whole
  · exact forEach_written again whole
  · obtain ⟨_,_,name,args,_,said,rfl⟩ := said
    refine ⟨_, rfl, ?_⟩
    rw [contentOf]
    refine fields_written ((Keys.one "args" _).cons "name" _) (by decide)
      fun raw stands => ⟨name, args, required_text stands rfl, ?_, rfl⟩
    have canonical : args.Canonical := by
      rcases said with ⟨_,rfl⟩ | ⟨_,_,j,_,rfl⟩
      · trivial
      · exact canonical_sorted j
    refine defaulted_written stands rfl ?_
    rw [A.canonical args canonical]
    exact ⟨args, rfl, (sorted_of_canonical args canonical).symm⟩
  · exact said.elim

end Actions

theorem actionWithin_written {n : Nat} (d : Document) (a : ActionDef)
    (said : actionWithin n d a) : actionWithin n (ofJson (A.of a.toJson)) a := by
  induction n generalizing d a with
  | zero => exact said.elim
  | succ n ih =>
    obtain ⟨name,c,_,said⟩ := said
    obtain ⟨body,same,said⟩ := contentOf_written ih said
    rw [same, A.single]
    exact ⟨name, _, by rw [ofJson_object]; rfl, said⟩

theorem action_written (d : Document) (a : ActionDef) (said : action d a) :
    action (ofJson (A.of a.toJson)) a :=
  actionWithin_of_height (actionWithin_written d a said) (Nat.lt_succ_self _)

section Parts

variable {before : List (String × Document)} (stands : Stands A written raw)

include stands

theorem actions_again {l : List ActionDef} (found : lookup key written = listed (actionsToJson l))
    (said : defaulted (list action) [] key before l) : defaulted (list action) [] key raw l :=
  list_again stands action_written (by rw [found, actionsToJson_eq]) said

/-- A word of a closed choice stands for itself. -/
theorem word_again {ofName : String → Option α} {name : String} {fallback a : α}
    (named : ofName name = some a) (found : lookup key written = some (.string name)) :
    defaulted (bareChoice ofName) fallback key raw a :=
  defaulted_written stands found ⟨name, named, Or.inl (by rw [A.of_string])⟩

end Parts

theorem transition_written (d : Document) (t : TransitionDef) (said : transition d t) :
    transition (ofJson (A.of t.toJson)) t := by
  obtain ⟨_,_,_,_,_,_,actions⟩ := said
  have keys := ((((keys_tokensField "event" t.event).append (keys_textField "cond" t.cond)).append
    (keys_tokensField "target" t.target)).append (.one "type" (.string t.type.name))).append
    (keys_listField "actions" (actionsToJson t.actions))
  refine record_written keys (by decide) fun raw stands => ⟨?_, ?_, ?_, ?_, ?_⟩
  · exact possible_tokens stands (by simp [lookup_append, lookup])
  · exact possible_text stands (by simp [lookup_append, lookup])
  · exact possible_tokens stands (by simp [lookup_append, lookup])
  · exact word_again stands (TransitionType.ofName?_name t.type) (by simp [lookup_append, lookup])
  · exact actions_again stands (by simp [lookup_append, lookup]) actions

theorem invoke_written (d : Document) (i : InvokeDef) (said : invoke d i) :
    invoke (ofJson (A.of i.toJson)) i := by
  obtain ⟨_,_,_,_,_,_,_,params,content,_,finalize⟩ := said
  have keys := ((((((((keys_textField "type" i.type).append (keys_textField "src" i.src)).append
    (keys_textField "srcexpr" i.srcExpr)).append (keys_textField "id" i.id)).append
    (keys_textField "idlocation" i.idLocation)).append
    (keys_listField "params" (i.params.map ParamDef.toJson))).append
    (keys_jsonField "content" (i.content.map ValueDef.toJson))).append
    (.one "autoforward" (.bool i.autoforward))).append
    (keys_listField "finalize" (actionsToJson i.finalize))
  refine record_written keys (by decide) fun raw stands => ⟨?_, ?_, ?_, ?_, ?_, ?_, ?_, ?_, ?_⟩
  · exact possible_text stands (by simp [lookup_append, lookup])
  · exact possible_text stands (by simp [lookup_append, lookup])
  · exact possible_text stands (by simp [lookup_append, lookup])
  · exact possible_text stands (by simp [lookup_append, lookup])
  · exact possible_text stands (by simp [lookup_append, lookup])
  · exact list_again stands (fun _ _ => param_written) (by simp [lookup_append, lookup]) params
  · exact possible_valueDef stands (by simp [lookup_append, lookup]) content
  · exact defaulted_written stands (j := .bool i.autoforward) (by simp [lookup_append, lookup])
      (by rw [A.of_bool]; rfl)
  · exact actions_again stands (by simp [lookup_append, lookup]) finalize

theorem stateOver_written {child : Meaning StateDef}
    (again : ∀ e s, child e s → child (ofJson (A.of s.toJson)) s) (d : Document) (s : StateDef)
    (said : stateOver child d s) : stateOver child (ofJson (A.of s.toJson)) s := by
  obtain ⟨_,_,info,children,⟨_,_,_,_,transitions,onEntry,onExit,invokes,datas,doneData⟩,inner,rfl⟩ :=
    said
  rw [StateDef.toJson, statesToJson_eq]
  have keys := ((((((((((keys_textField "id" info.id).append
    (.one "type" (.string info.type.name))).append
    (keys_textField "history" (info.history.map HistoryType.name))).append
    (keys_tokensField "initial" info.initial)).append
    (keys_listField "states" (children.map StateDef.toJson))).append
    (keys_listField "transitions" (info.transitions.map TransitionDef.toJson))).append
    (keys_listField "onentry" (actionsToJson info.onEntry))).append
    (keys_listField "onexit" (actionsToJson info.onExit))).append
    (keys_listField "invoke" (info.invokes.map InvokeDef.toJson))).append
    (keys_listField "datamodel" (info.data.map DataDef.toJson))).append
    (keys_jsonField "donedata" (info.doneData.map ValueDef.toJson))
  refine record_written keys (by decide) fun raw stands => ⟨info, children, ⟨?_, ?_, ?_, ?_, ?_, ?_,
    ?_, ?_, ?_, ?_⟩, ?_, rfl⟩
  · exact possible_text stands (by simp [lookup_append, lookup])
  · exact word_again stands (StateType.ofName?_name info.type) (by simp [lookup_append, lookup])
  · refine possible_written (f := fun h => .string (HistoryType.name h)) stands
      (by simp [lookup_append, lookup, Function.comp_def]) fun h _ => ?_
    rw [A.of_string]
    exact ⟨nofun, h.name, HistoryType.ofName?_name h, Or.inl rfl⟩
  · exact possible_tokens stands (by simp [lookup_append, lookup])
  · exact list_again stands transition_written (by simp [lookup_append, lookup]) transitions
  · exact actions_again stands (by simp [lookup_append, lookup]) onEntry
  · exact actions_again stands (by simp [lookup_append, lookup]) onExit
  · exact list_again stands invoke_written (by simp [lookup_append, lookup]) invokes
  · exact list_again stands (fun _ _ => data_written) (by simp [lookup_append, lookup]) datas
  · exact possible_valueDef stands (by simp [lookup_append, lookup]) doneData
  · exact list_again stands again (by simp [lookup_append, lookup]) inner

theorem stateWithin_written {n : Nat} (d : Document) (s : StateDef) (said : stateWithin n d s) :
    stateWithin n (ofJson (A.of s.toJson)) s := by
  induction n generalizing d s with
  | zero => exact said.elim
  | succ n ih => exact stateOver_written ih d s said

theorem state_written (d : Document) (s : StateDef) (said : state d s) :
    state (ofJson (A.of s.toJson)) s :=
  stateWithin_of_height (stateWithin_written d s said) (Nat.lt_succ_self _)

/-- A chart is written so that it means the same. -/
theorem chart_written {c : ChartDef} (said : chart d c) : chart (ofJson (A.of c.toJson)) c := by
  obtain ⟨_,_,_,_,datas,⟨_,_,states⟩,extra⟩ := said
  have keys := ((((keys_textField "name" c.name).append (keys_tokensField "initial" c.initial)).append
    (keys_listField "datamodel" (c.data.map DataDef.toJson))).append
    (.one "states" (.array (statesToJson c.states)))).append (keys_jsonField "meta" c.extra)
  refine record_written keys (by decide) fun raw stands => ⟨?_, ?_, ?_, ?_, ?_⟩
  · exact possible_text stands (by simp [lookup_append, lookup])
  · exact possible_tokens stands (by simp [lookup_append, lookup])
  · exact list_again stands (fun _ _ => data_written) (by simp [lookup_append, lookup]) datas
  · refine required_written (j := .array (c.states.map StateDef.toJson)) stands
      (by simp [lookup_append, lookup, statesToJson_eq]) (list_written fun s inside => ?_)
    exact (exists_of_list states s inside).elim fun e => state_written e s
  · exact possible_json stands (by simp [lookup_append, lookup]) extra

end Meaning

end Statechart

import Statechart.Chart.Reader
import Statechart.Proofs.Document.Reading

/- What the documents of charts mean, and that charts are read from them so.

   Actions stand in actions and states in states. Their meanings are given up to a number of levels,
   and a document has no more levels than containers that stand inside each other. -/
namespace Statechart

open Source

/-- Whatever `kind` says of a document that is lower than this one is said by `kind'` as well. -/
def Meaning.Below {α : Type} (d : Document) (kind kind' : Meaning α) : Prop :=
  ∀ e : Document, e.height < d.height → ∀ a, kind e a → kind' e a

namespace Meaning

variable {α : Type} {kind kind' : Meaning α} {d : Document}

/-- Words in one text, or a list of texts. -/
def tokens : Meaning (List String) := fun d l =>
  list text d l ∨ ∃ s, d = .ofJson (.string s) ∧ l = Text.words s

/-- The `expr` and `value` fields of a record. -/
def init (fields : List (String × Document)) (v : ValueDef) : Prop :=
  possible text "expr" fields v.expr ∧ possible json "value" fields v.value

def valueDef : Meaning ValueDef := record ["expr", "value"] init

def data : Meaning DataDef := record ["id", "expr", "value"] fun fields d =>
  required text "id" fields d.id ∧ init fields d.init

def param : Meaning ParamDef := record ["name", "expr", "value"] fun fields p =>
  required text "name" fields p.name ∧ init fields p.init

def send (fields : List (String × Document)) (s : SendDef) : Prop :=
  possible text "event" fields s.event ∧ possible text "eventexpr" fields s.eventExpr ∧
    possible text "target" fields s.target ∧ possible text "targetexpr" fields s.targetExpr ∧
    possible text "type" fields s.type ∧ possible text "id" fields s.id ∧
    possible text "idlocation" fields s.idLocation ∧ possible json "delay" fields s.delay ∧
    possible text "delayexpr" fields s.delayExpr ∧
    defaulted (list param) [] "params" fields s.params ∧
    possible valueDef "content" fields s.content

/-- A condition with what is done where it holds. -/
def elseIf (action : Meaning ActionDef) : Meaning (String × List ActionDef) :=
  record ["cond", "actions"] fun fields b =>
    required text "cond" fields b.1 ∧ defaulted (list action) [] "actions" fields b.2

/-- What an action of some kind consists of, given what actions inside of it mean. -/
def contentOf (action : Meaning ActionDef) : String → Meaning ActionDef
  | "raise" => fields fun fields a => ∃ event, required text "event" fields event ∧ a = .raise event
  | "send" => record ["event", "eventexpr", "target", "targetexpr", "type", "id", "idlocation",
      "delay", "delayexpr", "params", "content"] fun fields a => ∃ s, send fields s ∧ a = .send s
  | "cancel" => fields fun fields a => ∃ id expr, possible text "sendid" fields id ∧
      possible text "sendidexpr" fields expr ∧ a = .cancel id expr
  | "log" => fields fun fields a => ∃ label expr, possible text "label" fields label ∧
      possible text "expr" fields expr ∧ a = .log label expr
  | "assign" => fields fun fields a => ∃ location v, required text "location" fields location ∧
      init fields v ∧ a = .assign location v
  | "if" => record ["cond", "actions", "elseif", "else"] fun fields a =>
      ∃ cond body elseIfs otherwise, required text "cond" fields cond ∧
        defaulted (list action) [] "actions" fields body ∧
        defaulted (list (elseIf action)) [] "elseif" fields elseIfs ∧
        possible (list action) "else" fields otherwise ∧ a = .branch cond body elseIfs otherwise
  | "foreach" => record ["array", "item", "index", "actions"] fun fields a =>
      ∃ array item index body, required text "array" fields array ∧
        required text "item" fields item ∧ possible text "index" fields index ∧
        defaulted (list action) [] "actions" fields body ∧ a = .forEach array item index body
  | "custom" => fields fun fields a => ∃ name args, required text "name" fields name ∧
      defaulted json .null "args" fields args ∧ a = .custom name args
  | _ => fun _ _ => False

/-- An action with at most so many actions around one another. -/
def actionWithin : Nat → Meaning ActionDef
  | 0 => fun _ _ => False
  | n + 1 => fun d a => ∃ name, choice name (contentOf (actionWithin n) name) d a

def action : Meaning ActionDef := fun d => actionWithin (d.height + 1) d

def transition : Meaning TransitionDef :=
  record ["event", "cond", "target", "type", "actions"] fun fields t =>
    possible tokens "event" fields t.event ∧ possible text "cond" fields t.cond ∧
      possible tokens "target" fields t.target ∧
      defaulted (bareChoice TransitionType.ofName?) .external "type" fields t.type ∧
      defaulted (list action) [] "actions" fields t.actions

def invoke : Meaning InvokeDef :=
  record ["type", "src", "srcexpr", "id", "idlocation", "params", "content", "autoforward",
      "finalize"] fun fields i =>
    possible text "type" fields i.type ∧ possible text "src" fields i.src ∧
      possible text "srcexpr" fields i.srcExpr ∧ possible text "id" fields i.id ∧
      possible text "idlocation" fields i.idLocation ∧
      defaulted (list param) [] "params" fields i.params ∧
      possible valueDef "content" fields i.content ∧
      defaulted flag false "autoforward" fields i.autoforward ∧
      defaulted (list action) [] "finalize" fields i.finalize

def stateInfo (fields : List (String × Document)) (s : StateInfo) : Prop :=
  possible text "id" fields s.id ∧
    defaulted (bareChoice StateType.ofName?) .state "type" fields s.type ∧
    possible (bareChoice HistoryType.ofName?) "history" fields s.history ∧
    possible tokens "initial" fields s.initial ∧
    defaulted (list transition) [] "transitions" fields s.transitions ∧
    defaulted (list action) [] "onentry" fields s.onEntry ∧
    defaulted (list action) [] "onexit" fields s.onExit ∧
    defaulted (list invoke) [] "invoke" fields s.invokes ∧
    defaulted (list data) [] "datamodel" fields s.data ∧
    possible valueDef "donedata" fields s.doneData

def stateOver (child : Meaning StateDef) : Meaning StateDef :=
  record ["id", "type", "history", "initial", "states", "transitions", "onentry", "onexit", "invoke",
      "datamodel", "donedata"] fun fields s =>
    ∃ info children, stateInfo fields info ∧
      defaulted (list child) [] "states" fields children ∧ s = .mk info children

/-- A state with at most so many states around one another. -/
def stateWithin : Nat → Meaning StateDef
  | 0 => fun _ _ => False
  | n + 1 => stateOver (stateWithin n)

def state : Meaning StateDef := fun d => stateWithin (d.height + 1) d

def chart : Meaning ChartDef :=
  record ["name", "initial", "datamodel", "states", "meta"] fun fields c =>
    possible text "name" fields c.name ∧ possible tokens "initial" fields c.initial ∧
      defaulted (list data) [] "datamodel" fields c.data ∧
      required (list state) "states" fields c.states ∧ possible json "meta" fields c.extra

/- Meanings are kept where those of parts are. -/

theorem list_below (below : Below d kind kind') {l : List α} (holds : list kind d l) :
    list kind' d l := by
  obtain ⟨items,rfl,each⟩ := holds
  refine ⟨items, rfl, ?_⟩
  induction each with
  | nil => exact .nil
  | @cons e a rest _ here later ih =>
    refine .cons (below e (Document.height_of_item List.mem_cons_self) a here) (ih ?_)
    intro e low
    refine below e (Nat.lt_of_lt_of_le low ?_)
    simp only [Document.height, Document.heightOfItems]
    omega

section Fields

variable {names : List String} {raw : List (String × Document)} {key : String}

theorem required_below (has : d.HasFields names raw) (below : Below d kind kind') {a : α}
    (holds : required kind key raw a) : required kind' key raw a := by
  obtain ⟨e,alone,said⟩ := holds
  have inside : (key, e) ∈ raw := Document.mem_under (alone ▸ List.mem_cons_self)
  exact ⟨e, alone, below e (has.lower _ inside) a said⟩

theorem defaulted_below (has : d.HasFields names raw) (below : Below d kind kind') {fallback a : α}
    (holds : defaulted kind fallback key raw a) : defaulted kind' fallback key raw a :=
  holds.imp id (required_below has below)

theorem Below.optional (below : Below d kind kind') : Below d (optional kind) (optional kind') := by
  intro e low o holds
  refine holds.imp id fun given => ⟨given.1, ?_⟩
  obtain ⟨_,a,rfl,said⟩ := given
  exact ⟨a, rfl, below e low a said⟩

theorem Below.lower {e : Document} (below : Below d kind kind') (low : e.height ≤ d.height) :
    Below e kind kind' :=
  fun f lower => below f (Nat.lt_of_lt_of_le lower low)

theorem Below.list (below : Below d kind kind') :
    Below d (Meaning.list kind) (Meaning.list kind') :=
  fun _ low _ holds => list_below (below.lower (Nat.le_of_lt low)) holds

end Fields

theorem elseIf_below {action action' : Meaning ActionDef} (below : Below d action action')
    {b : String × List ActionDef} (holds : elseIf action d b) : elseIf action' d b := by
  obtain ⟨fields,has,cond,body⟩ := holds
  exact ⟨fields, has, cond, defaulted_below has below.list body⟩

theorem content_below {action action' : Meaning ActionDef} (below : Below d action action')
    {name : String} {a : ActionDef} (holds : contentOf action name d a) :
    contentOf action' name d a := by
  unfold contentOf at holds ⊢
  split at holds
  · exact holds
  · exact holds
  · exact holds
  · exact holds
  · exact holds
  · obtain ⟨fields,has,cond,body,elseIfs,otherwise,named,done,others,last,rfl⟩ := holds
    have elseIfBelow : Below d (elseIf action) (elseIf action') := fun _ low _ said =>
      elseIf_below (below.lower (Nat.le_of_lt low)) said
    exact ⟨fields, has, cond, body, elseIfs, otherwise, named,
      defaulted_below has below.list done, defaulted_below has elseIfBelow.list others,
      defaulted_below has below.list.optional last, rfl⟩
  · obtain ⟨fields,has,array,item,index,body,first,second,third,done,rfl⟩ := holds
    exact ⟨fields, has, array, item, index, body, first, second, third,
      defaulted_below has below.list done, rfl⟩
  · exact holds
  · exact holds

/-- A document has no more levels than containers inside each other. -/
theorem actionWithin_of_height {n k : Nat} {a : ActionDef} (holds : actionWithin n d a)
    (enough : d.height < k) : actionWithin k d a := by
  induction n generalizing d k a with
  | zero => exact holds.elim
  | succ n ih =>
    obtain ⟨k,rfl⟩ : ∃ i, k = i + 1 := ⟨k - 1, by omega⟩
    obtain ⟨name,c,rfl,said⟩ := holds
    have low : c.height < (Document.ofFields [(name, c)]).height :=
      Document.height_of_field (f := (name, c)) List.mem_cons_self
    exact ⟨name, c, rfl, content_below (fun e lower a said => ih said (by omega)) said⟩

theorem stateOver_below {child child' : Meaning StateDef} (below : Below d child child')
    {s : StateDef} (holds : stateOver child d s) : stateOver child' d s := by
  obtain ⟨fields,has,info,children,own,inner,rfl⟩ := holds
  exact ⟨fields, has, info, children, own, defaulted_below has below.list inner, rfl⟩

theorem stateWithin_of_height {n k : Nat} {s : StateDef} (holds : stateWithin n d s)
    (enough : d.height < k) : stateWithin k d s := by
  induction n generalizing d k s with
  | zero => exact holds.elim
  | succ n ih =>
    obtain ⟨k,rfl⟩ : ∃ i, k = i + 1 := ⟨k - 1, by omega⟩
    exact stateOver_below (fun e lower a said => ih said (by omega)) holds

end Meaning

/-- Documents that were JSON values before. -/
structure Manuscript.IsValue (m : Manuscript) : Prop where
  unlabelled : m.labels = false
  rows : m.rows = true
  fixed : m.choiceRows = false

namespace Source

open ReadM ReadsFields Meaning

variable {m : Manuscript} {bound : Nat}

theorem list_reads {α : Type} {reader : Place → ReadM α} {kind : Meaning α}
    (reads : Reads m bound reader kind) : Reads m bound (Place.list reader) (Meaning.list kind) :=
  (Place.list_reads reads).mono (Nat.le_succ bound)

theorem tokens_reads : Reads m bound readTokens tokens := by
  intro d depth within plain
  unfold readTokens
  rw [Place.follow_plain plain, pure_bind]
  cases plain with
  | atom j =>
    refine (((Place.jsonAt_answers (.atom j) 0).mono fun _ => Nat.le_refl 0).bind
      (R := fun v l => ∃ s, v = .string s ∧ l = Text.words s) fun v _ => ?_).congr fun l => ?_
    · cases v with
      | string s => exact (Answers.pure _).congr (by simp)
      | _ => exact Answers.failure.congr (by simp)
    · simp only [← Place.atom_json]
      cases j <;> simp [tokens, Meaning.list, Document.ofJson, Atom.ofJson]
  | @list items inner =>
    refine (list_reads Place.text_reads _ depth within (.list inner)).congr fun l => ?_
    simp [tokens, Document.ofJson]
  | @record raw keys values =>
    have none_read : Place.jsonAt 0 (.record none raw) = (failure : ReadM Json) := by
      unfold Place.jsonAt
      rw [Place.follow_plain (.record keys values), pure_bind]
    simp only [none_read]
    change Answers m _ (failure : ReadM (List String)) _
    exact Answers.failure.congr fun l => by simp [tokens, Meaning.list, Document.ofJson]

theorem init_reads : ReadsFields m bound readInit init :=
  ((optional Place.text_reads "expr").bind fun expr =>
    (optional Place.json_reads "value").bind fun value => pure (ValueDef.mk expr value)).congr
  fun fields v => by
    constructor
    · rintro ⟨_,expr,_,value,rfl⟩
      exact ⟨expr, value⟩
    · rintro ⟨expr,value⟩
      exact ⟨_, expr, _, value, rfl⟩

theorem valueDef_reads (value : m.IsValue) : Reads m bound readValueDef valueDef :=
  (init_reads.record value.rows _).mono (Nat.le_succ bound)

theorem data_reads (value : m.IsValue) : Reads m bound readData data :=
  ((((required Place.text_reads "id").bind fun id => init_reads.bind fun v =>
    pure (DataDef.mk id v)).congr fun fields d => by
      constructor
      · rintro ⟨_,id,_,v,rfl⟩
        exact ⟨id, v⟩
      · rintro ⟨id,v⟩
        exact ⟨_, id, _, v, rfl⟩).record value.rows _).mono (Nat.le_succ bound)

theorem param_reads (value : m.IsValue) : Reads m bound readParam param :=
  ((((required Place.text_reads "name").bind fun name => init_reads.bind fun v =>
    pure (ParamDef.mk name v)).congr fun fields d => by
      constructor
      · rintro ⟨_,name,_,v,rfl⟩
        exact ⟨name, v⟩
      · rintro ⟨name,v⟩
        exact ⟨_, name, _, v, rfl⟩).record value.rows _).mono (Nat.le_succ bound)

theorem send_reads (value : m.IsValue) : ReadsFields m bound readSend send :=
  ((optional Place.text_reads "event").bind fun event =>
    (optional Place.text_reads "eventexpr").bind fun eventExpr =>
    (optional Place.text_reads "target").bind fun target =>
    (optional Place.text_reads "targetexpr").bind fun targetExpr =>
    (optional Place.text_reads "type").bind fun type =>
    (optional Place.text_reads "id").bind fun id =>
    (optional Place.text_reads "idlocation").bind fun idLocation =>
    (optional Place.json_reads "delay").bind fun delay =>
    (optional Place.text_reads "delayexpr").bind fun delayExpr =>
    (defaulted (list_reads (param_reads value)) [] "params").bind fun params =>
    (optional (valueDef_reads value) "content").bind fun content =>
    pure (SendDef.mk event eventExpr target targetExpr type id idLocation delay delayExpr params
      content)).congr
  fun fields s => by
    constructor
    · rintro ⟨_,event,_,eventExpr,_,target,_,targetExpr,_,type,_,id,_,idLocation,_,delay,_,
        delayExpr,_,params,_,content,rfl⟩
      exact ⟨event, eventExpr, target, targetExpr, type, id, idLocation, delay, delayExpr, params,
        content⟩
    · rintro ⟨event,eventExpr,target,targetExpr,type,id,idLocation,delay,delayExpr,params,content⟩
      exact ⟨_, event, _, eventExpr, _, target, _, targetExpr, _, type, _, id, _, idLocation, _,
        delay, _, delayExpr, _, params, _, content, rfl⟩

section Actions

variable {reader : Place → ReadM ActionDef} {kind : Meaning ActionDef}

theorem elseIf_reads (value : m.IsValue) (reads : Reads m bound reader kind) :
    Reads m bound (readElseIf reader) (elseIf kind) :=
  ((((required Place.text_reads "cond").bind fun cond =>
    (defaulted (list_reads reads) [] "actions").bind fun body => pure (cond, body)).congr
  fun fields b => by
    constructor
    · rintro ⟨_,cond,_,body,rfl⟩
      exact ⟨cond, body⟩
    · rintro ⟨cond,body⟩
      exact ⟨_, cond, _, body, rfl⟩).record value.rows _).mono (Nat.le_succ bound)

theorem content_reads (value : m.IsValue) (reads : Reads m bound reader kind) (name : String) :
    Reads m bound (readContent reader name) (contentOf kind name) := by
  refine (?_ : Reads m (bound + 1) _ _).mono (Nat.le_succ bound)
  unfold contentOf
  split
  · exact ReadsFields.content ((required Place.text_reads "event").bind fun event =>
      pure (ActionDef.raise event)) value.fixed ["event"]
  · exact ((send_reads value).bind fun s => pure (ActionDef.send s)).record value.rows _
  · refine ReadsFields.content (((optional Place.text_reads "sendid").bind fun id =>
      (optional Place.text_reads "sendidexpr").bind fun expr =>
      pure (ActionDef.cancel id expr)).congr fun fields a => ?_) value.fixed ["sendid", "sendidexpr"]
    simp only [exists_and_left]
  · refine ReadsFields.content (((optional Place.text_reads "label").bind fun label =>
      (optional Place.text_reads "expr").bind fun expr =>
      pure (ActionDef.log label expr)).congr fun fields a => ?_) value.fixed ["label", "expr"]
    simp only [exists_and_left]
  · refine ReadsFields.content (((required Place.text_reads "location").bind fun location =>
      init_reads.bind fun v => pure (ActionDef.assign location v)).congr fun fields a => ?_)
      value.fixed ["location", "expr", "value"]
    simp only [exists_and_left]
  · refine (((required Place.text_reads "cond").bind fun cond =>
      (defaulted (list_reads reads) [] "actions").bind fun body =>
      (defaulted (list_reads (elseIf_reads value reads)) [] "elseif").bind fun elseIfs =>
      (optional (list_reads reads) "else").bind fun otherwise =>
      pure (ActionDef.branch cond body elseIfs otherwise)).congr fun fields a => ?_).record
      value.rows _
    simp only [exists_and_left]
  · refine (((required Place.text_reads "array").bind fun array =>
      (required Place.text_reads "item").bind fun item =>
      (optional Place.text_reads "index").bind fun index =>
      (defaulted (list_reads reads) [] "actions").bind fun body =>
      pure (ActionDef.forEach array item index body)).congr fun fields a => ?_).record value.rows _
    simp only [exists_and_left]
  · refine ReadsFields.content (((required Place.text_reads "name").bind fun name =>
      (defaulted Place.json_reads .null "args").bind fun args =>
      pure (ActionDef.custom name args)).congr fun fields a => ?_) value.fixed ["name", "args"]
    simp only [exists_and_left]
  · intro d depth within plain
    have unknown : readContent reader name ⟨d, depth⟩ = failure := by
      simp [readContent, *]
    rw [unknown]
    exact Answers.failure

theorem actionWithin_reads (value : m.IsValue) (n bound : Nat) :
    Reads m bound (readAction n) (actionWithin n) := by
  induction n generalizing bound with
  | zero => exact fun d depth within plain => Answers.failure
  | succ n ih =>
    intro d depth within plain
    refine ((Place.choice_answers value.unlabelled plain depth).bind
      (R := fun c a => contentOf (actionWithin n) c.1 c.2.document a) ?_).change ?_ ?_
    · rintro ⟨name,_⟩ ⟨c,k,rfl,rfl,rfl⟩
      have inner : c.Plain := plain.values_of_ofFields _ List.mem_cons_self
      refine (content_reads value (ih (k + 1)) name c k (Nat.lt_succ_self k) inner).mono fun low => ?_
      exact Nat.lt_of_lt_of_le (Document.height_of_field (f := (name, c)) List.mem_cons_self)
        (Nat.lt_succ_iff.mp low)
    · rintro a ⟨c,⟨inner,_,rfl,_,place⟩,said⟩
      rw [place] at said
      exact ⟨c.1, inner, rfl, said⟩
    · rintro low a ⟨name,c,rfl,said⟩
      obtain ⟨k,rfl⟩ : ∃ k, depth = k + 1 := ⟨depth - 1, by omega⟩
      exact ⟨(name, ⟨c, k⟩), ⟨c, k, rfl, rfl, rfl⟩, said⟩

/-- There are enough levels for as many containers as may be open. -/
theorem action_reads (value : m.IsValue) (n : Nat) : Reads m n (readAction n) action :=
  fun d depth within plain => (actionWithin_reads value n n d depth within plain).change
    (fun _ said => actionWithin_of_height said (Nat.lt_succ_self _))
    fun low _ said => actionWithin_of_height said (Nat.lt_trans low within)

theorem actions_reads (value : m.IsValue) : Reads m bound readActions (Meaning.list action) :=
  fun d depth _ plain => list_reads (action_reads value (depth + 1)) d depth
    (Nat.lt_succ_self depth) plain

end Actions

theorem transition_reads (value : m.IsValue) : Reads m bound readTransition transition :=
  ((((optional tokens_reads "event").bind fun event =>
    (optional Place.text_reads "cond").bind fun cond =>
    (optional tokens_reads "target").bind fun target =>
    (defaulted (Place.bareChoice_reads value.unlabelled TransitionType.ofName?) .external
      "type").bind fun type =>
    (defaulted (actions_reads value) [] "actions").bind fun actions =>
    pure (TransitionDef.mk event cond target type actions)).congr fun fields t => by
      constructor
      · rintro ⟨_,event,_,cond,_,target,_,type,_,actions,rfl⟩
        exact ⟨event, cond, target, type, actions⟩
      · rintro ⟨event,cond,target,type,actions⟩
        exact ⟨_, event, _, cond, _, target, _, type, _, actions, rfl⟩).record
    value.rows _).mono (Nat.le_succ bound)

theorem invoke_reads (value : m.IsValue) : Reads m bound readInvoke invoke :=
  ((((optional Place.text_reads "type").bind fun type =>
    (optional Place.text_reads "src").bind fun src =>
    (optional Place.text_reads "srcexpr").bind fun srcExpr =>
    (optional Place.text_reads "id").bind fun id =>
    (optional Place.text_reads "idlocation").bind fun idLocation =>
    (defaulted (list_reads (param_reads value)) [] "params").bind fun params =>
    (optional (valueDef_reads value) "content").bind fun content =>
    (defaulted Place.flag_reads false "autoforward").bind fun autoforward =>
    (defaulted (actions_reads value) [] "finalize").bind fun finalize =>
    pure (InvokeDef.mk type src srcExpr id idLocation params content autoforward finalize)).congr
  fun fields i => by
    constructor
    · rintro ⟨_,type,_,src,_,srcExpr,_,id,_,idLocation,_,params,_,content,_,autoforward,_,finalize,
        rfl⟩
      exact ⟨type, src, srcExpr, id, idLocation, params, content, autoforward, finalize⟩
    · rintro ⟨type,src,srcExpr,id,idLocation,params,content,autoforward,finalize⟩
      exact ⟨_, type, _, src, _, srcExpr, _, id, _, idLocation, _, params, _, content, _,
        autoforward, _, finalize, rfl⟩).record value.rows _).mono (Nat.le_succ bound)

theorem stateInfo_reads (value : m.IsValue) : ReadsFields m bound readStateInfo stateInfo :=
  ((optional Place.text_reads "id").bind fun id =>
    (defaulted (Place.bareChoice_reads value.unlabelled StateType.ofName?) .state
      "type").bind fun type =>
    (optional (Place.bareChoice_reads value.unlabelled HistoryType.ofName?)
      "history").bind fun history =>
    (optional tokens_reads "initial").bind fun initial =>
    (defaulted (list_reads (transition_reads value)) [] "transitions").bind fun transitions =>
    (defaulted (actions_reads value) [] "onentry").bind fun onEntry =>
    (defaulted (actions_reads value) [] "onexit").bind fun onExit =>
    (defaulted (list_reads (invoke_reads value)) [] "invoke").bind fun invokes =>
    (defaulted (list_reads (data_reads value)) [] "datamodel").bind fun data =>
    (optional (valueDef_reads value) "donedata").bind fun doneData =>
    pure (StateInfo.mk id type history initial transitions onEntry onExit invokes data
      doneData)).congr
  fun fields s => by
    constructor
    · rintro ⟨_,id,_,type,_,history,_,initial,_,transitions,_,onEntry,_,onExit,_,invokes,_,data,_,
        doneData,rfl⟩
      exact ⟨id, type, history, initial, transitions, onEntry, onExit, invokes, data, doneData⟩
    · rintro ⟨id,type,history,initial,transitions,onEntry,onExit,invokes,data,doneData⟩
      exact ⟨_, id, _, type, _, history, _, initial, _, transitions, _, onEntry, _, onExit, _,
        invokes, _, data, _, doneData, rfl⟩

theorem stateWithin_reads (value : m.IsValue) (n bound : Nat) :
    Reads m bound (readState n) (stateWithin n) := by
  induction n generalizing bound with
  | zero => exact fun d depth within plain => Answers.failure
  | succ n ih =>
    refine ((((stateInfo_reads value).bind fun info =>
      (defaulted (list_reads (ih bound)) [] "states").bind fun children =>
      pure (StateDef.mk info children)).congr fun fields s => ?_).record value.rows _).mono
      (Nat.le_succ bound)
    simp only [exists_and_left]

theorem state_reads (value : m.IsValue) (n : Nat) : Reads m n (readState n) state :=
  fun d depth within plain => (stateWithin_reads value n n d depth within plain).change
    (fun _ said => stateWithin_of_height said (Nat.lt_succ_self _))
    fun low _ said => stateWithin_of_height said (Nat.lt_trans low within)

/-- A chart is read from a document that means it, and from no other. -/
theorem chart_reads (value : m.IsValue) : Reads m bound readChart chart := by
  intro d depth within plain
  refine ((((optional Place.text_reads "name").bind fun name =>
    (optional tokens_reads "initial").bind fun initial =>
    (defaulted (list_reads (data_reads value)) [] "datamodel").bind fun data =>
    (required (list_reads (state_reads value (depth + 1))) "states").bind fun states =>
    (optional Place.json_reads "meta").bind fun extra =>
    pure (ChartDef.mk name initial data states extra)).congr fun fields c => ?_).record
    value.rows _) d depth (by omega) plain
  constructor
  · rintro ⟨_,name,_,initial,_,data,_,states,_,extra,rfl⟩
    exact ⟨name, initial, data, states, extra⟩
  · rintro ⟨name,initial,data,states,extra⟩
    exact ⟨_, name, _, initial, _, data, _, states, _, extra, rfl⟩

/-- Reading a JSON value, which is not limited in its depth, gives just the chart that it means. -/
theorem read_iff {j : Json} {c : ChartDef} :
    (Manuscript.ofJson j).read readChart = some c ↔ chart (.ofJson j) c := by
  have answers := chart_reads (m := .ofJson j) ⟨rfl, rfl, rfl⟩ (.ofJson j)
    ((Document.ofJson j).height + 1) (Nat.lt_succ_self _)
    (Document.plain_ofJson j)
  unfold Manuscript.read
  rw [Option.map_eq_some_iff]
  constructor
  · rintro ⟨⟨_,n⟩,run,rfl⟩
    exact (answers.sound 0 _ n run).2
  · intro said
    exact ⟨(c, 0), answers.complete (Nat.lt_succ_self _) 0 c said, rfl⟩

end Source

end Statechart

import Buzz.Lib.TypedTable
import Buzz.Lib.Decimal
import Buzz.Workflow.Template

namespace Buzz.Workflow
set_option autoImplicit true
open Json

/-- The values of the expression language. -/
inductive EvalValue (F : Type) where
  | string (s : String)
  | float (x : F)
  | int (i : Int64)
  | boolean (b : Bool)
  | tuple (items : List (EvalValue F))
  | empty

inductive EvalType where
  | string | float | int | boolean | tuple | empty
deriving DecidableEq

def EvalValue.type : EvalValue F → EvalType
  | .string _ => .string
  | .float _ => .float
  | .int _ => .int
  | .boolean _ => .boolean
  | .tuple _ => .tuple
  | .empty => .empty

inductive EvalError (F : Type) where
  /-- A variable keeps the type of its first value. -/
  | expectedType (existing value : EvalValue F)
  | expectedString (actual : EvalValue F)
  | expectedFixedLenTuple (length : Nat) (actual : EvalValue F)

namespace EvalValue

def asString : EvalValue F → Except (EvalError F) String
  | .string s => .ok s
  | v => .error (.expectedString v)

def asFixedLenTuple (length : Nat) : EvalValue F → Except (EvalError F) (List (EvalValue F))
  | .tuple items =>
    if items.length = length then .ok items else .error (.expectedFixedLenTuple length (.tuple items))
  | v => .error (.expectedFixedLenTuple length v)

end EvalValue

abbrev EvalFunction (F : Type) : Type := EvalValue F → Except (EvalError F) (EvalValue F)

/-- A test of two strings, as a function of the language. -/
def stringTest (test : List Char → List Char → Bool) : EvalFunction F := fun args => do
  match ← args.asFixedLenTuple 2 with
  | [a, b] =>
    let a ← a.asString
    let b ← b.asString
    return .boolean (test a.toList b.toList)
  | _ => .error (.expectedFixedLenTuple 2 args)

def strContains : EvalFunction F :=
  stringTest fun haystack needle => (cutAt needle haystack).isSome

def strStartsWith : EvalFunction F :=
  stringTest fun s pre => pre.isPrefixOf s

def strEndsWith : EvalFunction F :=
  stringTest fun s suffix => suffix.isSuffixOf s

def strLen : EvalFunction F := fun arg => do
  let s ← arg.asString
  return .int (Int64.ofNat s.utf8ByteSize)

structure HashMapContext (F : Type) where
  values : Table String (EvalValue F)
  functions : Table String (EvalFunction F)

namespace HashMapContext

def setFunction (name : String) (f : EvalFunction F) (c : HashMapContext F) : HashMapContext F :=
  { c with functions := c.functions.insert name f }

def setValue (c : HashMapContext F) (name : String) (value : EvalValue F) :
    Except (EvalError F) (HashMapContext F) :=
  match c.values.set EvalValue.type name value with
  | .ok values => .ok { c with values }
  | .error (existing, value) => .error (.expectedType existing value)

end HashMapContext

/-- How floats are written, and the floats that integers become. -/
structure NumberFormat (F : Type) extends FloatFormat F where
  ofU64 : UInt64 → F
  ofI64 : Int64 → F

section Context
variable {F : Type} (fmt : NumberFormat F)

def numberAsI64 : Number F → Option Int64
  | .posInt n => if n.toNat < 2 ^ 63 then some n.toInt64 else none
  | .negInt i _ => some i
  | .float _ => none

def numberAsF64 : Number F → Option F
  | .posInt n => some (fmt.ofU64 n)
  | .negInt i _ => some (fmt.ofI64 i)
  | .float x => some x

def jsonValueToEval : Value F → EvalValue F
  | .string s => .string s
  | .bool b => .boolean b
  | .number n =>
    match numberAsI64 n with
    | some i => .int i
    | none =>
      match numberAsF64 fmt n with
      | some f => .float f
      | none => .string (String.ofList (writeNumber fmt.toFloatFormat n))
  | .null => .empty
  | other => .string (String.ofList (write fmt.toFloatFormat other))

/-- A webhook field that could stand for a variable of its own. -/
def reserved (key : String) : Bool :=
  (stripPrefix "trigger_" key).isSome || (stripPrefix "steps_" key).isSome

def setWebhookField (c : HashMapContext F) (field : Sigma fun _ : String => String) :
    Except (EvalError F) (HashMapContext F) :=
  if reserved field.1 then .ok c else c.setValue ("trigger_" ++ field.1) (.string field.2)

def stepVariable (stepId field : String) : String :=
  "steps_" ++ stepId ++ "_output_" ++ field

def setStepOutput (c : HashMapContext F) (step : Sigma fun _ : String => Value F) :
    Except (EvalError F) (HashMapContext F) :=
  match step.2 with
  | .object map =>
    map.foldlM (fun c m => c.setValue (stepVariable step.1 m.1) (jsonValueToEval fmt m.2)) c
  | _ => .ok c

def triggerFields (ctx : TriggerContext) : List (String × String) :=
  [("trigger_text", ctx.text), ("trigger_author", ctx.author),
    ("trigger_channel_id", ctx.channelId), ("trigger_timestamp", ctx.timestamp),
    ("trigger_emoji", ctx.emoji), ("trigger_message_id", ctx.messageId)]

def newContext : HashMapContext F :=
  (⟨∅, ∅⟩ : HashMapContext F)
    |>.setFunction "str_contains" strContains
    |>.setFunction "str_starts_with" strStartsWith
    |>.setFunction "str_ends_with" strEndsWith
    |>.setFunction "str_len" strLen

/-- The webhook fields come first, so that the standard fields take precedence. -/
def buildEvalContext (ctx : TriggerContext) (outputs : StepOutputs F) :
    Except (EvalError F) (HashMapContext F) := do
  let c ← ctx.webhookFields.entries.foldlM setWebhookField newContext
  let c ← (triggerFields ctx).foldlM (fun c f => c.setValue f.1 (.string f.2)) c
  let c ← c.setValue "trigger_is_reply" (.boolean ctx.isReply)
  outputs.entries.foldlM (setStepOutput fmt) c

/-- What the webhook body sets. -/
def webhookValues (webhook : Table String String) : List (String × EvalValue F) :=
  (webhook.entries.filter fun e => !reserved e.1).map fun e => ("trigger_" ++ e.1, .string e.2)

def triggerValues (ctx : TriggerContext) : List (String × EvalValue F) :=
  (triggerFields ctx).map fun f => (f.1, .string f.2)

/-- What the output of one step sets. -/
def stepValues (step : Sigma fun _ : String => Value F) : List (String × EvalValue F) :=
  match step.2 with
  | .object map => map.map fun m => (stepVariable step.1 m.1, jsonValueToEval fmt m.2)
  | _ => []

def setValues (c : HashMapContext F) (as : List (String × EvalValue F)) :
    Except (EvalError F) (HashMapContext F) :=
  as.foldlM (fun c a => c.setValue a.1 a.2) c

variable {fmt} {c c' : HashMapContext F}

theorem setValues_eq (c : HashMapContext F) (as : List (String × EvalValue F)) :
    setValues c as =
      match c.values.setAll EvalValue.type as with
      | .ok values => .ok { c with values }
      | .error (existing, value) => .error (.expectedType existing value) := by
  rw [setValues]
  induction as generalizing c with
  | nil => rfl
  | cons a as ih =>
    rw [List.foldlM_cons, Table.setAll_cons, HashMapContext.setValue]
    cases c.values.set EvalValue.type a.1 a.2 with
    | error e => rfl
    | ok values => exact ih { c with values }

theorem foldlM_setWebhookField (c : HashMapContext F) (webhook : Table String String) :
    webhook.entries.foldlM setWebhookField c = setValues c (webhookValues webhook) := by
  rw [webhookValues]
  induction webhook.entries generalizing c with
  | nil => rfl
  | cons e es ih =>
    rw [List.foldlM_cons, setWebhookField]
    cases hreserved : reserved e.1 with
    | true =>
      rw [List.filter_cons_of_neg (by rw [hreserved]; decide)]
      exact ih c
    | false =>
      rw [List.filter_cons_of_pos (by rw [hreserved]; rfl), List.map_cons, setValues,
        List.foldlM_cons]
      exact congrArg _ (funext ih)

theorem foldlM_setStepOutput (c : HashMapContext F) (outputs : StepOutputs F) :
    outputs.entries.foldlM (setStepOutput fmt) c =
      setValues c (outputs.entries.flatMap (stepValues fmt)) := by
  have hstep : ∀ (c : HashMapContext F) (step : Sigma fun _ : String => Value F),
      setStepOutput fmt c step = setValues c (stepValues fmt step) := by
    intro c step
    rw [setStepOutput.eq_def, stepValues.eq_def]
    split
    · rw [setValues, List.foldlM_map]
    · rfl
  induction outputs.entries generalizing c with
  | nil => rfl
  | cons e es ih =>
    rw [List.foldlM_cons, List.flatMap_cons, setValues, List.foldlM_append, hstep]
    exact congrArg _ (funext ih)

theorem buildEvalContext_eq (ctx : TriggerContext) (outputs : StepOutputs F) :
    buildEvalContext fmt ctx outputs =
      (setValues newContext (webhookValues ctx.webhookFields ++ triggerValues ctx) >>= fun c =>
        c.setValue "trigger_is_reply" (.boolean ctx.isReply) >>= fun c =>
          setValues c (outputs.entries.flatMap (stepValues fmt))) := by
  rw [buildEvalContext, foldlM_setWebhookField, setValues, setValues, List.foldlM_append,
    bind_assoc, triggerValues]
  simp only [foldlM_setStepOutput, List.foldlM_map]

end Context

section Names

/-- The fields of the outputs of the actions. -/
def dispatchFields : List String :=
  ["sent", "event_id", "added", "skipped", "status", "response", "body", "slept_secs"]

theorem trigger_append_eq_iff {key : String} :
    "trigger_" ++ key = "trigger_is_reply" ↔ key = "is_reply" := by
  have hsplit : "trigger_is_reply" = "trigger_" ++ "is_reply" := by decide
  rw [hsplit, String.append_right_inj]

theorem stepVariable_ne (stepId field key : String) : stepVariable stepId field ≠ "trigger_" ++ key := by
  intro h
  have hlist := congrArg String.toList h
  rw [stepVariable, String.toList_append, String.toList_append, String.toList_append,
    String.toList_append] at hlist
  exact absurd (List.head_eq_of_cons_eq hlist) (by decide)

/-- No field of an output is the end of another one, so the last part of a variable is its field. -/
theorem stepVariable_inj {stepId stepId' field field' : String} (hfield : field ∈ dispatchFields)
    (hfield' : field' ∈ dispatchFields)
    (h : stepVariable stepId field = stepVariable stepId' field') :
    stepId = stepId' ∧ field = field' := by
  have hsuffix : ∀ f ∈ dispatchFields, ∀ f' ∈ dispatchFields,
      f.toList.isSuffixOf f'.toList = true → f = f' := by decide
  have hends : ∀ stepId field, field.toList <:+ (stepVariable stepId field).toList := by
    intro stepId field
    rw [stepVariable, String.toList_append]
    exact List.suffix_append _ _
  have hfields : field = field' := by
    have hown := hends stepId field
    rw [h] at hown
    rcases List.suffix_or_suffix_of_suffix hown (hends stepId' field') with hsub | hsub
    · exact hsuffix _ hfield _ hfield' (List.isSuffixOf_iff_suffix.mpr hsub)
    · exact (hsuffix _ hfield' _ hfield (List.isSuffixOf_iff_suffix.mpr hsub)).symm
  refine ⟨?_, hfields⟩
  subst hfields
  rw [stepVariable, stepVariable, String.append_left_inj, String.append_left_inj,
    String.append_right_inj] at h
  exact h

end Names

/-- An output of an action: an object with fields of the actions. -/
def DispatchOutput (output : Value F) : Prop :=
  ∃ members, output = .object members ∧ (members.map Prod.fst).Nodup ∧
    ∀ field ∈ members.map Prod.fst, field ∈ dispatchFields

/-- The standard variables and those of the step outputs have the values they stand for. -/
structure Binds (fmt : NumberFormat F) (ctx : TriggerContext) (outputs : StepOutputs F)
    (c : HashMapContext F) : Prop where
  text : c.values.lookup "trigger_text" = some (.string ctx.text)
  author : c.values.lookup "trigger_author" = some (.string ctx.author)
  channelId : c.values.lookup "trigger_channel_id" = some (.string ctx.channelId)
  timestamp : c.values.lookup "trigger_timestamp" = some (.string ctx.timestamp)
  emoji : c.values.lookup "trigger_emoji" = some (.string ctx.emoji)
  messageId : c.values.lookup "trigger_message_id" = some (.string ctx.messageId)
  isReply : c.values.lookup "trigger_is_reply" = some (.boolean ctx.isReply)
  steps : ∀ stepId members field value, outputs.lookup stepId = some (.object members) →
    (field, value) ∈ members →
    c.values.lookup (stepVariable stepId field) = some (jsonValueToEval fmt value)

section Build
variable {F : Type} {fmt : NumberFormat F} {ctx : TriggerContext} {outputs : StepOutputs F}
  {webhook : Table String String}

theorem mem_webhookValues {name : String} :
    name ∈ (webhookValues webhook : List (String × EvalValue F)).map Prod.fst ↔
      ∃ key ∈ webhook, reserved key = false ∧ name = "trigger_" ++ key := by
  rw [webhookValues, List.map_map, List.mem_map]
  constructor
  · rintro ⟨e, he, rfl⟩
    rw [List.mem_filter, Bool.not_eq_true'] at he
    exact ⟨e.1, List.mem_keys_of_mem he.1, he.2, rfl⟩
  · rintro ⟨key, hkey, hreserved, rfl⟩
    obtain ⟨value, hmem⟩ := List.exists_of_mem_keys hkey
    refine ⟨⟨key, value⟩, ?_, rfl⟩
    rw [List.mem_filter, Bool.not_eq_true']
    exact ⟨hmem, hreserved⟩

theorem mem_stepValues {a : String × EvalValue F} : a ∈ outputs.entries.flatMap (stepValues fmt) ↔
    ∃ stepId members field value, outputs.lookup stepId = some (.object members) ∧
      (field, value) ∈ members ∧ a = (stepVariable stepId field, jsonValueToEval fmt value) := by
  rw [List.mem_flatMap]
  constructor
  · rintro ⟨⟨stepId, output⟩, hentry, ha⟩
    rw [stepValues.eq_def] at ha
    split at ha
    · rename_i members hobject
      dsimp only at hobject
      subst hobject
      obtain ⟨⟨field, value⟩, hmem, rfl⟩ := List.mem_map.mp ha
      exact ⟨stepId, members, field, value, AList.mem_lookup_iff.mpr hentry, hmem, rfl⟩
    · cases ha
  · rintro ⟨stepId, members, field, value, hlookup, hmem, rfl⟩
    exact ⟨_, AList.mem_lookup_iff.mp hlookup, List.mem_map_of_mem hmem⟩

/-- Different fields of different steps have different variables. -/
theorem stepValues_nodup (h : ∀ stepId output, outputs.lookup stepId = some output →
    DispatchOutput output) :
    ((outputs.entries.flatMap (stepValues fmt)).map Prod.fst).Nodup := by
  have hnames : ∀ e ∈ outputs.entries, ∃ members : List (String × Value F),
      (stepValues fmt e).map Prod.fst = (members.map Prod.fst).map (stepVariable e.1) ∧
      (members.map Prod.fst).Nodup ∧ ∀ field ∈ members.map Prod.fst, field ∈ dispatchFields := by
    rintro ⟨stepId, output⟩ hentry
    obtain ⟨members, rfl, hnodup, hfields⟩ := h stepId output (AList.mem_lookup_iff.mpr hentry)
    refine ⟨members, ?_, hnodup, hfields⟩
    rw [stepValues, List.map_map, List.map_map]
    rfl
  rw [List.map_flatMap, List.nodup_flatMap]
  refine ⟨?_, ?_⟩
  · intro e he
    obtain ⟨members, hmap, hnodup, hfields⟩ := hnames e he
    rw [hmap]
    apply hnodup.map_on
    intro field hfield field' hfield' heq
    exact (stepVariable_inj (hfields _ hfield) (hfields _ hfield') heq).2
  · refine outputs.nodupKeys.pairwise_ne.imp_of_mem ?_
    intro e e' he he' hne
    obtain ⟨members, hmap, _, hfields⟩ := hnames e he
    obtain ⟨members', hmap', _, hfields'⟩ := hnames e' he'
    rw [Function.onFun, hmap, hmap']
    intro name hname hname'
    obtain ⟨field, hfield, rfl⟩ := List.mem_map.mp hname
    obtain ⟨field', hfield', heq⟩ := List.mem_map.mp hname'
    exact hne (stepVariable_inj (hfields _ hfield) (hfields' _ hfield') heq.symm).1

/-- The standard variables, but for the reply flag. -/
theorem triggerValues_nodup :
    ((triggerValues ctx : List (String × EvalValue F)).map Prod.fst).Nodup := by
  have hnames : ["trigger_text", "trigger_author", "trigger_channel_id", "trigger_timestamp",
      "trigger_emoji", "trigger_message_id"].Nodup := by decide
  exact hnames

theorem triggerValues_string (ctx : TriggerContext) :
    ∀ a ∈ (triggerValues ctx : List (String × EvalValue F)), a.2.type = .string := by
  intro a ha
  obtain ⟨f, _, rfl⟩ := List.mem_map.mp ha
  rfl

theorem webhookValues_string (webhook : Table String String) :
    ∀ a ∈ (webhookValues webhook : List (String × EvalValue F)), a.2.type = .string := by
  intro a ha
  obtain ⟨e, _, rfl⟩ := List.mem_map.mp ha
  rfl

/-- No standard variable but the reply flag has its name. -/
theorem reply_notMem_triggerValues :
    "trigger_is_reply" ∉ (triggerValues ctx : List (String × EvalValue F)).map Prod.fst := by
  have hnames : "trigger_is_reply" ∉ ["trigger_text", "trigger_author", "trigger_channel_id",
      "trigger_timestamp", "trigger_emoji", "trigger_message_id"] := by decide
  exact hnames

theorem reply_mem_webhookValues : "trigger_is_reply" ∈
    (webhookValues webhook : List (String × EvalValue F)).map Prod.fst ↔
      "is_reply" ∈ webhook := by
  rw [mem_webhookValues]
  constructor
  · rintro ⟨key, hkey, _, heq⟩
    rw [← trigger_append_eq_iff.mp heq.symm]
    exact hkey
  · intro hkey
    exact ⟨_, hkey, by decide, by decide⟩

theorem stepVariable_notMem_webhookValues {stepId field : String} : stepVariable stepId field ∉
    (webhookValues webhook : List (String × EvalValue F)).map Prod.fst := by
  intro hmem
  obtain ⟨key, _, _, heq⟩ := mem_webhookValues.mp hmem
  exact stepVariable_ne stepId field key heq

theorem stepVariable_notMem_triggerValues {stepId field : String} : stepVariable stepId field ∉
    (triggerValues ctx : List (String × EvalValue F)).map Prod.fst := by
  have hnames : ∀ name ∈ ["trigger_text", "trigger_author", "trigger_channel_id",
      "trigger_timestamp", "trigger_emoji", "trigger_message_id"],
      ∃ key, name = "trigger_" ++ key := by
    intro name hmem
    simp only [List.mem_cons, List.not_mem_nil, or_false] at hmem
    rcases hmem with rfl | rfl | rfl | rfl | rfl | rfl
    · exact ⟨"text", by decide⟩
    · exact ⟨"author", by decide⟩
    · exact ⟨"channel_id", by decide⟩
    · exact ⟨"timestamp", by decide⟩
    · exact ⟨"emoji", by decide⟩
    · exact ⟨"message_id", by decide⟩
  intro hmem
  obtain ⟨key, hkey⟩ := hnames _ hmem
  exact stepVariable_ne stepId field key hkey

/-- The strings are always set. Then the reply flag is refused just when the webhook body has set
it. -/
theorem exists_strings (ctx : TriggerContext) : ∃ values : Table String (EvalValue F),
    (∅ : Table String (EvalValue F)).setAll EvalValue.type
      (webhookValues ctx.webhookFields ++ triggerValues ctx) = .ok values ∧
    Table.OfKind EvalValue.type .string values ∧
    (values.lookup "trigger_is_reply" = none ↔ "is_reply" ∉ ctx.webhookFields) ∧
    (∀ a ∈ triggerValues ctx, values.lookup a.1 = some a.2) ∧
    ∀ stepId field, values.lookup (stepVariable stepId field) = none := by
  have hempty : Table.OfKind EvalValue.type .string (∅ : Table String (EvalValue F)) := by
    intro k v hk
    cases hk
  obtain ⟨webhook, hwebhook, hkind⟩ := Table.setAll_ofKind hempty
    (webhookValues_string ctx.webhookFields)
  obtain ⟨values, hvalues, hkind⟩ := Table.setAll_ofKind hkind (triggerValues_string ctx)
  refine ⟨values, ?_, hkind, ?_, ?_, ?_⟩
  · rw [Table.setAll_append, hwebhook]
    exact hvalues
  · rw [Table.lookup_setAll_of_notMem hvalues reply_notMem_triggerValues]
    constructor
    · intro hnone hmem
      have hsome := Table.isSome_lookup_setAll hwebhook (.inr (reply_mem_webhookValues.mpr hmem))
      rw [hnone] at hsome
      cases hsome
    · intro hmem
      have hkept := Table.lookup_setAll_of_notMem hwebhook (mt reply_mem_webhookValues.mp hmem)
      exact hkept
  · intro a ha
    exact Table.lookup_setAll hvalues triggerValues_nodup ha
  · intro stepId field
    rw [Table.lookup_setAll_of_notMem hvalues stepVariable_notMem_triggerValues]
    exact Table.lookup_setAll_of_notMem hwebhook stepVariable_notMem_webhookValues

theorem setValues_newContext {as : List (String × EvalValue F)} {values : Table String (EvalValue F)}
    (h : (∅ : Table String (EvalValue F)).setAll EvalValue.type as = .ok values) :
    setValues newContext as = .ok { newContext with values } := by
  have hempty : (newContext : HashMapContext F).values = ∅ := rfl
  rw [setValues_eq, hempty, h]

/-- A webhook body with a field of its name makes the reply flag fail: it is the one standard
variable that is not a string. -/
theorem buildEvalContext_refused (fmt : NumberFormat F) (ctx : TriggerContext)
    (outputs : StepOutputs F) (h : "is_reply" ∈ ctx.webhookFields) :
    ∃ e, buildEvalContext fmt ctx outputs = .error e := by
  obtain ⟨values, hvalues, hkind, hreply, _, _⟩ := exists_strings (F := F) ctx
  cases hold : values.lookup "trigger_is_reply" with
  | none => exact absurd h (hreply.mp hold)
  | some old =>
    have hset : values.set EvalValue.type "trigger_is_reply" (.boolean ctx.isReply) =
        .error (old, .boolean ctx.isReply) := by
      have htype : old.type ≠ (EvalValue.boolean (F := F) ctx.isReply).type := by
        rw [hkind _ _ hold, EvalValue.type]
        decide
      rw [Table.set, hold]
      exact if_neg htype
    refine ⟨.expectedType old (.boolean ctx.isReply), ?_⟩
    rw [buildEvalContext_eq, setValues_newContext hvalues]
    change (HashMapContext.setValue { newContext with values } _ _ >>= _) = _
    rw [HashMapContext.setValue, hset]
    rfl

/-- Without such a field every variable is set, to what it stands for. -/
theorem buildEvalContext_binds (fmt : NumberFormat F) (ctx : TriggerContext)
    (h : "is_reply" ∉ ctx.webhookFields)
    (houtputs : ∀ stepId output, outputs.lookup stepId = some output → DispatchOutput output) :
    ∃ c, buildEvalContext fmt ctx outputs = .ok c ∧ Binds fmt ctx outputs c := by
  obtain ⟨values, hvalues, _, hreply, htrigger, hsteps⟩ := exists_strings (F := F) ctx
  have hflag : values.set EvalValue.type "trigger_is_reply" (.boolean ctx.isReply) =
      .ok (values.insert "trigger_is_reply" (.boolean ctx.isReply)) :=
    Table.set_new (hreply.mpr h)
  have hnames : ∀ stepId field, stepVariable stepId field ≠ "trigger_is_reply" :=
    fun stepId field => stepVariable_ne stepId field "is_reply"
  have hnew : ∀ a ∈ outputs.entries.flatMap (stepValues fmt),
      (values.insert "trigger_is_reply" (.boolean ctx.isReply)).lookup a.1 = none := by
    intro a ha
    obtain ⟨stepId, members, field, value, _, _, rfl⟩ := mem_stepValues.mp ha
    rw [AList.lookup_insert_ne (hnames stepId field)]
    exact hsteps stepId field
  obtain ⟨final, hfinal⟩ : ∃ final,
      Table.setAll EvalValue.type (values.insert "trigger_is_reply" (.boolean ctx.isReply))
        (outputs.entries.flatMap (stepValues fmt)) = .ok final :=
    Table.setAll_new hnew (stepValues_nodup houtputs)
  have hother : ∀ key, final.lookup ("trigger_" ++ key) =
      (values.insert "trigger_is_reply" (.boolean ctx.isReply)).lookup ("trigger_" ++ key) := by
    intro key
    apply Table.lookup_setAll_of_notMem hfinal
    intro hmem
    obtain ⟨a, ha, heq⟩ := List.mem_map.mp hmem
    obtain ⟨stepId, members, field, value, _, _, rfl⟩ := mem_stepValues.mp ha
    exact stepVariable_ne stepId field key heq
  have hstring : ∀ key value, key ≠ "is_reply" →
      ("trigger_" ++ key, value) ∈ triggerFields ctx →
      final.lookup ("trigger_" ++ key) = some (.string value) := by
    intro key value hne hmem
    rw [hother key, AList.lookup_insert_ne (mt trigger_append_eq_iff.mp hne)]
    exact htrigger _ (List.mem_map_of_mem hmem)
  refine ⟨{ newContext with values := final }, ?_, ?_⟩
  · rw [buildEvalContext_eq, setValues_newContext hvalues]
    change (HashMapContext.setValue { newContext with values } _ _ >>= _) = _
    rw [HashMapContext.setValue, hflag]
    change setValues _ _ = _
    rw [setValues_eq, hfinal]
  · constructor
    · exact hstring "text" ctx.text (by decide) (by simp [triggerFields])
    · exact hstring "author" ctx.author (by decide) (by simp [triggerFields])
    · exact hstring "channel_id" ctx.channelId (by decide) (by simp [triggerFields])
    · exact hstring "timestamp" ctx.timestamp (by decide) (by simp [triggerFields])
    · exact hstring "emoji" ctx.emoji (by decide) (by simp [triggerFields])
    · exact hstring "message_id" ctx.messageId (by decide) (by simp [triggerFields])
    · exact (hother "is_reply").trans (AList.lookup_insert _)
    · intro stepId members field value hlookup hmem
      apply Table.lookup_setAll hfinal (stepValues_nodup houtputs)
      exact mem_stepValues.mpr ⟨stepId, members, field, value, hlookup, hmem, rfl⟩

/-- Two webhook bodies leave the variables alone: with either one the context is built, with the same
values, and no variable stands for two outputs. -/
def Undisturbed (fmt : NumberFormat F) (ctx : TriggerContext) (outputs : StepOutputs F)
    (webhook webhook' : Table String String) : Prop :=
  (∃ c, buildEvalContext fmt { ctx with webhookFields := webhook } outputs = .ok c ∧
    Binds fmt ctx outputs c) ∧
  (∃ c, buildEvalContext fmt { ctx with webhookFields := webhook' } outputs = .ok c ∧
    Binds fmt ctx outputs c) ∧
  ∀ stepId members field value stepId' members' field' value',
    outputs.lookup stepId = some (.object members) → (field, value) ∈ members →
    outputs.lookup stepId' = some (.object members') → (field', value') ∈ members' →
    (stepId, field) ≠ (stepId', field') →
    stepVariable stepId field ≠ stepVariable stepId' field'

theorem binds_webhookFields {webhook : Table String String} {c : HashMapContext F}
    (h : Binds fmt { ctx with webhookFields := webhook } outputs c) : Binds fmt ctx outputs c :=
  ⟨h.text, h.author, h.channelId, h.timestamp, h.emoji, h.messageId, h.isReply, h.steps⟩

theorem dispatchOutput_fields
    (houtputs : ∀ stepId output, outputs.lookup stepId = some output → DispatchOutput output)
    {stepId field : String} {members : List (String × Value F)} {value : Value F}
    (hlookup : outputs.lookup stepId = some (.object members)) (hmem : (field, value) ∈ members) :
    field ∈ dispatchFields := by
  obtain ⟨members', heq, _, hfields⟩ := houtputs stepId _ hlookup
  cases heq
  exact hfields field (List.mem_map_of_mem hmem)

theorem undisturbed_iff {webhook webhook' : Table String String}
    (houtputs : ∀ stepId output, outputs.lookup stepId = some output → DispatchOutput output) :
    Undisturbed fmt ctx outputs webhook webhook' ↔
      "is_reply" ∉ webhook ∧ "is_reply" ∉ webhook' := by
  have hbuilt : ∀ webhook : Table String String,
      (∃ c, buildEvalContext fmt { ctx with webhookFields := webhook } outputs = .ok c ∧
        Binds fmt ctx outputs c) ↔ "is_reply" ∉ webhook := by
    intro webhook
    constructor
    · rintro ⟨c, hc, _⟩ hmem
      obtain ⟨e, he⟩ := buildEvalContext_refused fmt { ctx with webhookFields := webhook } outputs hmem
      rw [he] at hc
      cases hc
    · intro hmem
      obtain ⟨c, hc, hbinds⟩ := buildEvalContext_binds fmt { ctx with webhookFields := webhook } hmem
        houtputs
      exact ⟨c, hc, binds_webhookFields hbinds⟩
  rw [Undisturbed, hbuilt, hbuilt]
  constructor
  · rintro ⟨h, h', _⟩
    exact ⟨h, h'⟩
  · rintro ⟨h, h'⟩
    refine ⟨h, h', ?_⟩
    intro stepId members field value stepId' members' field' value' hlookup hmem hlookup' hmem' hne
      heq
    obtain ⟨hstep, hfield⟩ := stepVariable_inj (dispatchOutput_fields houtputs hlookup hmem)
      (dispatchOutput_fields houtputs hlookup' hmem') heq
    exact hne (Prod.ext hstep hfield)

end Build

/-- The float that an integer becomes, by its text. -/
def floatOfInt (i : Int) : FloatText :=
  ⟨(if i < 0 then ['-'] else []) ++ (Decimal.write i.natAbs ++ ['.', '0']), by
    constructor
    · intro c hc
      rw [List.mem_append, List.mem_append] at hc
      rcases hc with hc | hc | hc
      · split at hc
        · rw [List.mem_singleton.mp hc]
          decide
        · cases hc
      · have hdigit := Decimal.isDigit_of_mem_write hc
        have hnumber : isDigit c = true := by
          rw [Char.isDigit, Bool.and_eq_true, decide_eq_true_eq, decide_eq_true_eq] at hdigit
          rw [isDigit, Bool.and_eq_true, decide_eq_true_eq, decide_eq_true_eq]
          exact hdigit
        rw [isNumberChar, hnumber]
        rfl
      · rcases List.mem_pair.mp hc with rfl | rfl
        · decide
        · decide
    · exact ⟨'.', by simp, .inl rfl⟩⟩

def numberText : NumberFormat FloatText :=
  { floatText with ofU64 := fun n => floatOfInt n.toNat, ofI64 := fun i => floatOfInt i.toInt }

def sentOutput : StepOutputs FloatText :=
  AList.singleton "notify" (.object [("event_id", .string "e1"), ("sent", .bool true)])

theorem undisturbed_iff_sent :
    Undisturbed numberText noTrigger sentOutput (AList.singleton "text" "spoofed")
      (AList.singleton "steps_notify_output_sent" "false") := by
  refine (undisturbed_iff ?_).mpr ?_
  · intro stepId output hlookup
    have hentry := AList.mem_lookup_iff.mp hlookup
    cases List.mem_singleton.mp hentry
    exact ⟨_, rfl, by decide, by decide⟩
  · exact ⟨by decide, by decide⟩

/-- The body `{"is_reply": "x"}` makes every condition fail. -/
theorem undisturbed_spoofed : ¬ Undisturbed numberText noTrigger sentOutput ∅
    (AList.singleton "is_reply" "x") := by
  rintro ⟨_, ⟨c, hc, _⟩, _⟩
  obtain ⟨e, he⟩ := buildEvalContext_refused numberText
    { noTrigger with webhookFields := AList.singleton "is_reply" "x" } sentOutput (by decide)
  rw [he] at hc
  cases hc

end Buzz.Workflow

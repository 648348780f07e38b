import Optionia.Engine.RuleEvaluator
import Optionia.Cloud.RuleEvaluator
/-!
# Documents and rules, and what the two languages read in them

A published document is JSON text. A number keeps the form it is written in,
since that is what `json_decode` goes by: digits alone make an integer where
it fits one, a fraction or an exponent makes a float. To the page and the
cloud every number is a double.
-/

namespace Optionia.Wire

/-- A JSON value. The keys of an object are distinct. -/
inductive Json where
  | null
  | bool (b : Bool)
  | int (n : ℤ)
  /-- A number written with a fraction or an exponent. -/
  | real (q : ℚ)
  | str (s : String)
  | arr (vs : List Json)
  | obj (es : List (String × Json))
  deriving Inhabited

namespace Json

mutual

/-- `json_decode( …, true )`. -/
def decode : Json → Php.Value
  | null => .null
  | bool b => .bool b
  | int n => Php.Value.ofNumber n
  | real q => .float (.ofRat q)
  | str s => .str s
  | arr vs => Php.Value.ofList (decodeList vs)
  | obj es => .arr (decodeEntries es)

/-- The elements of an array, decoded. -/
def decodeList : List Json → List Php.Value
  | [] => []
  | v :: vs => decode v :: decodeList vs

/-- The members of an object, decoded. -/
def decodeEntries : List (String × Json) → List (String × Php.Value)
  | [] => []
  | (k, v) :: es => (k, decode v) :: decodeEntries es

end

mutual

def parse : Json → Js.Value
  | null => .null
  | bool b => .bool b
  | int n => .num (.ofInt n)
  | real q => .num (.ofRat q)
  | str s => .str s
  | arr vs => .arr (parseList vs)
  | obj es => .obj (parseEntries es)

/-- The elements of an array, parsed. -/
def parseList : List Json → List Js.Value
  | [] => []
  | v :: vs => parse v :: parseList vs

/-- The members of an object, parsed. -/
def parseEntries : List (String × Json) → List (String × Js.Value)
  | [] => []
  | (k, v) :: es => (k, parse v) :: parseEntries es

end

theorem decodeList_eq_map (vs : List Json) : decodeList vs = vs.map decode := by
  induction vs with
  | nil => rfl
  | cons v vs ih => rw [decodeList, ih, List.map_cons]

theorem parseList_eq_map (vs : List Json) : parseList vs = vs.map parse := by
  induction vs with
  | nil => rfl
  | cons v vs ih => rw [parseList, ih, List.map_cons]

theorem lookup_decodeEntries (es : List (String × Json)) (k : String) :
    (decodeEntries es).lookup k = (es.lookup k).map decode := by
  induction es with
  | nil => rfl
  | cons p es ih =>
    obtain ⟨k', v⟩ := p
    rw [decodeEntries, List.lookup_cons, List.lookup_cons, ih]
    cases k == k' <;> rfl

theorem lookup_parseEntries (es : List (String × Json)) (k : String) :
    (parseEntries es).lookup k = (es.lookup k).map parse := by
  induction es with
  | nil => rfl
  | cons p es ih =>
    obtain ⟨k', v⟩ := p
    rw [parseEntries, List.lookup_cons, List.lookup_cons, ih]
    cases k == k' <;> rfl

theorem selfSame_parse (v : Json) : v.parse.selfSame = true := by
  cases v with
  | int n => exact Binary64.same_ofRat n
  | real q => exact Binary64.same_ofRat q
  | _ => rfl

def get? : Json → String → Option Json
  | obj es, k => es.lookup k
  | _, _ => none

/-- **A member reads as its own decoding.** -/
theorem field_decode_obj (es : List (String × Json)) (k : String) :
    (decode (obj es)).field k = ((es.lookup k).map decode).getD .null := by
  rw [decode, Php.Value.field, lookup_decodeEntries]

/-- **A member reads as its own parse.** -/
theorem field_parse_obj (es : List (String × Json)) (k : String) :
    (parse (obj es)).field k = ((es.lookup k).map parse).getD .undefined := by
  rw [parse, Js.Value.field, lookup_parseEntries]

end Json

/-! ## Rules and answers on the wire

A rule as the document spells it, in snake case, with the fields an
evaluator reads. The plugin decodes the JSON; the cloud takes the same
fields under its own names. An answer is what a form posts: one string, or a
list of them.
-/

/-- A posted answer. -/
inductive Answer where
  | one (s : String)
  | many (ss : List String)
  deriving DecidableEq

/-- The answer as PHP receives it. -/
def Answer.toPhp : Answer → Php.Value
  | one s => .str s
  | many ss => Php.Value.ofList (ss.map .str)

/-- The answer as JavaScript collects it. -/
def Answer.toJs : Answer → Js.Value
  | one s => .str s
  | many ss => .arr (ss.map .str)

/-- The strings an answer is made of. -/
def Answer.members : Answer → List String
  | one s => [s]
  | many ss => ss

/-- The answers of a request or a page, by option. -/
abbrev Answers := OrderedMap String Answer

/-- The answers as the plugin's evaluator reads them. -/
def toPhp (answers : Answers) : Engine.RuleEvaluator.Answers := answers.mapValues Answer.toPhp

/-- The answers as the page's and the cloud's evaluators read them. -/
def toJs (answers : Answers) : Js.Answers := answers.mapValues Answer.toJs

/-- A condition of a published rule. -/
structure PublishedCondition where
  optionId : String
  operator : String
  /-- `value`, where the condition has one. -/
  value : Option Json

/-- A published rule. -/
structure PublishedRule where
  targetId : String
  action : String
  matchType : String
  conditions : List PublishedCondition
  /-- `action_value`, where the rule has one. -/
  actionValue : Option (List (String × Json))

/-- A member of an object, where it is present. -/
def member (key : String) : Option Json → List (String × Json)
  | some v => [(key, v)]
  | none => []

def PublishedCondition.toJson (c : PublishedCondition) : Json :=
  .obj ([("option_id", .str c.optionId), ("operator", .str c.operator)] ++ member "value" c.value)

def PublishedRule.toJson (r : PublishedRule) : Json :=
  .obj ([("target_id", .str r.targetId), ("action", .str r.action),
    ("match_type", .str r.matchType), ("conditions", .arr (r.conditions.map (·.toJson)))]
      ++ member "action_value" (r.actionValue.map .obj))

/-- `toRule`'s conditions: snake case read as camel case. -/
def PublishedCondition.toCondition (c : PublishedCondition) : Cloud.EvaluableCondition where
  optionId := c.optionId
  operator := c.operator
  value := (c.value.map Json.parse).getD .undefined

/-- `camelPayload`: the amount, where there is one. -/
def camelPayload (raw : List (String × Json)) : Js.Value :=
  .obj (match raw.lookup "amount_minor" with
    | some v => [("amountMinor", v.parse)]
    | none => [])

/-- `toRule`: snake case read as camel case. -/
def PublishedRule.toRule (r : PublishedRule) : Cloud.EvaluableRule where
  targetId := r.targetId
  action := r.action
  matchType := r.matchType
  conditions := r.conditions.map (·.toCondition)
  actionValue := (r.actionValue.map camelPayload).getD .null

/-! ## What the plugin reads in a published rule -/

namespace PublishedCondition

variable (c : PublishedCondition)

@[simp] theorem isArray_decode : c.toJson.decode.isArray = true := rfl

@[simp] theorem optionId_decode : Engine.RuleEvaluator.optionId c.toJson.decode = c.optionId := rfl

@[simp] theorem operator_decode : c.toJson.decode.string "operator" = c.operator := rfl

theorem value_decode :
    c.toJson.decode.field "value" = (c.value.map Json.decode).getD .null := by
  rw [toJson, Json.field_decode_obj]
  cases h : c.value <;> simp [member, List.lookup_cons]

end PublishedCondition

namespace PublishedRule

variable (r : PublishedRule)

@[simp] theorem isArray_decode : r.toJson.decode.isArray = true := rfl

theorem conditions_decode :
    Engine.RuleEvaluator.conditions r.toJson.decode = r.conditions.map (·.toJson.decode) := by
  have hfield : r.toJson.decode.field "conditions" =
      Php.Value.ofList (Json.decodeList (r.conditions.map (·.toJson))) := rfl
  rw [Engine.RuleEvaluator.conditions, hfield, Php.Value.items_ofList, Json.decodeList_eq_map,
    List.map_map]
  rfl

@[simp] theorem matchType_decode : r.toJson.decode.field "match_type" = .str r.matchType := rfl

@[simp] theorem target_decode : (Engine.RuleEvaluator.effect r.toJson.decode).target = r.targetId :=
  rfl

@[simp] theorem action_decode : (Engine.RuleEvaluator.effect r.toJson.decode).action = r.action :=
  rfl

end PublishedRule

end Optionia.Wire

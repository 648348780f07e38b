import Optionia.Engine.Indexes
/-!
# The selection resolver

`SelectionResolver::resolve`: an untrusted map of selections against the
option sets of a product. Rules are evaluated first. Then each selection is
refused, skipped or taken, in the order of the request, and a taken one is
written to every map of the result; then each option that is required and not
taken is refused. Only where nothing was refused is there a result.
-/

namespace Optionia.Engine.SelectionResolver

open Php Rules

/-- The most bytes of text accepted from one request. -/
def maxTextBytes : ℕ := 65536

/-! ## Results -/

/-- An error, of a field or of the whole request. -/
structure Error where
  code : String
  field : Option String
  params : List (String × Value)

/-- What a request resolves to. -/
structure Resolution where
  deltas : OrderedMap String Value
  resolved : OrderedMap String Value
  totalMinor : ℤ
  unpriced : List String
  labels : OrderedMap String Value
  setIds : List String
  optionSets : OrderedMap String String
  weightDeltaGrams : Value
  skuSuffixes : OrderedMap String String

/-- What `resolve` returns; `threw` is an uncaught `TypeError`. -/
inductive Result where
  | ok (resolution : Resolution)
  | errors (errors : List Error)
  | threw

/-! ## Reading an answer -/

/-- What an answer to an option of one answer comes to. -/
inductive Reading where
  | skipped
  | refused (violation : Violation)
  | taken (answer : String)

/-- A hidden input: what the merchant configured, whatever was sent. -/
def readHidden (P : Platform) (option : Value) : Reading :=
  if configured P option = "" then .skipped else .taken (configured P option)

/-- Whether a candidate is a file's token: sixty-four hexadecimal digits. -/
def isToken (candidate : String) : Bool :=
  candidate.toList.length = 64 &&
    candidate.toList.all fun c => Decimal.isDigit c || decide ('a' ≤ c ∧ c ≤ 'f')

def readFile (raw : String) : Reading :=
  if trim raw = "" then .skipped
  else if isToken (trim raw) then .taken (trim raw)
  else .refused ⟨errorUnknownValue, []⟩

def readText (P : Platform) (option : Value) (raw : String) : Reading :=
  let text := cleanText P raw (isMultiline option)
  if text = "" then .skipped
  else match textViolation P option text with
    | some violation => .refused violation
    | none => .taken text

def readDate (P : Platform) (option : Value) (raw : String) (today : Option String) : Reading :=
  if trim raw = "" then .skipped
  else match parseDate P (trim raw) option with
    | none => .refused ⟨errorNotADate, []⟩
    | some date =>
      match dateViolation P option date today with
      | some violation => .refused violation
      | none => .taken date

def readNumber (option : Value) (raw : String) : Reading :=
  if trim raw = "" then .skipped
  else match parseNumber (trim raw) with
    | none => .refused ⟨errorNotANumber, []⟩
    | some number =>
      match numberViolation option number with
      | some violation => .refused violation
      | none => .taken (formatNumber number)

/-- How an option that takes one answer reads it; a choice reads none. -/
def read (P : Platform) (today : Option String) (option : Value) (raw : String) : Option Reading :=
  if isHidden option then some (readHidden P option)
  else if isFile option then some (readFile raw)
  else if isFreeText option then some (readText P option raw)
  else if isDate option then some (readDate P option raw today)
  else if isNumber option then some (readNumber option raw)
  else none

/-! ## What is taken -/

/-- What the loop has taken and refused so far. -/
structure Taken where
  errors : List Error
  deltas : OrderedMap String Value
  chosen : OrderedMap String Value
  labels : OrderedMap String Value
  unpriced : List String
  setIds : List String
  optionSets : OrderedMap String String
  weightGrams : Value
  skuSuffixes : OrderedMap String String
  textBytes : ℕ

def Taken.start : Taken := ⟨[], ∅, ∅, ∅, [], [], ∅, .int 0, ∅, 0⟩

def Taken.refuse (t : Taken) (field : String) (violation : Violation) : Taken :=
  { t with errors := t.errors ++ [⟨violation.code, some field, violation.params⟩] }

/-- What a resolution reads besides the selections. -/
structure Context where
  platform : Platform
  base : ℤ
  today : Option String
  options : OrderedMap String Value
  states : String → TargetState
  ruleHidden : String → Bool
  hiddenValue : String → Bool

/-- The id of the set an option stands in. -/
def setId (option : Value) : String := (option.field "__set_id").castString

/-- The sets chosen from, with one more where it has a name. -/
def addSet (option : Value) (setIds : List String) : List String := collectNamed (setId option) setIds

/-- An answer taken: its label, its set, itself and its price. -/
def Taken.accept (t : Taken) (ctx : Context) (id : String) (option : Value) (answer : String) :
    Taken :=
  let (ruled, unpriced) := setPriceFor option ctx.states id "" t.unpriced
  let (delta, unpriced) :=
    optionDelta (Text.measure ctx.platform) option answer unpriced ruled
  { t with
    labels := t.labels.set id (label option answer)
    setIds := addSet option t.setIds
    optionSets := if setId option = "" then t.optionSets else t.optionSets.set id (setId option)
    chosen := t.chosen.set id (.str answer)
    deltas := t.deltas.set id (.int delta)
    unpriced := unpriced }

/-- A turn of an option that takes one answer. Texts together are limited in
bytes. -/
def Taken.answer (t : Taken) (ctx : Context) (id : String) (option : Value) : Reading → Taken
  | .skipped => t
  | .refused violation => t.refuse id violation
  | .taken answer =>
    if isFreeText option && !isHidden option then
      let t := { t with textBytes := t.textBytes + answer.utf8ByteSize }
      if maxTextBytes < t.textBytes then
        t.refuse id ⟨errorTooMuchText, [("max_bytes", .int maxTextBytes)]⟩
      else t.accept ctx id option answer
    else t.accept ctx id option answer

/-! ## Choices -/

/-- The keys sent for an option: several where it takes many. -/
def sentKeys (option raw : Value) : Option (List Value) :=
  let keys := if takesMany option && raw.isArray then some raw.items
    else if raw.isScalar then some [raw] else none
  keys.filter fun keys => keys.all Value.isScalar

/-- Each key once, where it first stands. -/
def distinct (keys : List String) : List String :=
  keys.foldl (fun kept key => if key ∈ kept then kept else kept ++ [key]) []

/-- The value chosen by a key. -/
def valueAt (option : Value) (key : String) : Value := (indexValues option).getD key .null

/-- The keys in the order the merchant authored them, where there are
several. -/
def authored (option : Value) (keys : List String) : List String :=
  if takesMany option && 1 < keys.length then
    (indexValues option).keys.filter fun key => decide (key ∈ keys)
  else keys

/-- A value that rules hide was chosen. -/
def hitsHidden (ctx : Context) (option : Value) (keys : List String) : Bool :=
  keys.any fun key =>
    let valueId := (valueAt option key).text "id"
    valueId ≠ "" && ctx.hiddenValue valueId

/-- What is wrong with the keys sent, in the order they are checked. -/
def choiceViolation (ctx : Context) (option : Value) (keys : List String) : Option Violation :=
  let known (key : String) : Bool := ((indexValues option).get? key).isSome
  let count : ℤ := keys.length
  if keys.any (!known ·) then some ⟨errorUnknownValue, []⟩
  else match (selectionBound option "min_selections").filter (count < ·),
      (selectionBound option "max_selections").filter (· < count) with
    | some min, _ => some ⟨errorTooFew, [("min", .int min)]⟩
    | none, some max => some ⟨errorTooMany, [("max", .int max)]⟩
    | none, none =>
      if !known ((authored option keys).headD "") then some ⟨errorUnknownValue, []⟩
      else if hitsHidden ctx option (authored option keys) then some ⟨errorHiddenByRule, []⟩
      else none

/-- What the chosen values add so far. -/
structure Added where
  total : Value
  unpriced : List String
  weightGrams : Value

def Added.add (added : Added) (ctx : Context) (id : String) (option value : Value) : Added :=
  let (ruled, unpriced) := setPriceFor option ctx.states id (value.text "id") added.unpriced
  let weightGrams := added.weightGrams.add (weightFor value)
  match ruled with
  | .refused => ⟨added.total, unpriced, weightGrams⟩
  | .price amount => ⟨added.total.add amount, unpriced, weightGrams⟩
  | .silent =>
    let (delta, unpriced) := deltaFor value ctx.base unpriced
    ⟨added.total.add delta, unpriced, weightGrams⟩

/-- Keys as they are stored: several in a list, one alone. -/
def stored (option : Value) (keys : List String) : Value :=
  if takesMany option then .ofList (keys.map .str) else .str (keys.headD "")

def Taken.choose (t : Taken) (ctx : Context) (id : String) (option : Value) (keys : List String) :
    Taken :=
  let values := keys.map (valueAt option)
  let added := values.foldl (fun (added : Added) value => added.add ctx id option value)
    ⟨.int 0, t.unpriced, t.weightGrams⟩
  let suffixes := (values.map skuSuffixFor).filter (· ≠ "")
  let labels := values.map (labelsFor option)
  { t with
    skuSuffixes := if suffixes = [] then t.skuSuffixes
      else t.skuSuffixes.set id (String.join suffixes)
    deltas := t.deltas.set id added.total
    labels := t.labels.set id (if takesMany option then .ofList labels else labels.headD .null)
    setIds := addSet option t.setIds
    chosen := t.chosen.set id (stored option keys)
    unpriced := added.unpriced
    weightGrams := added.weightGrams }

/-! ## The loop -/

/-- A turn of an option with the keys sent for it. -/
def Taken.take (t : Taken) (ctx : Context) (id : String) (option : Value) (keys : List String) :
    Taken :=
  match read ctx.platform ctx.today option (keys.headD "") with
  | some reading => t.answer ctx id option reading
  | none =>
    match choiceViolation ctx option keys with
    | some violation => t.refuse id violation
    | none => t.choose ctx id option (authored option keys)

def Taken.turn (ctx : Context) (t : Taken) (selection : String × Value) : Taken :=
  match ctx.options.get? selection.1 with
  | none => t.refuse selection.1 ⟨errorUnknownOption, []⟩
  | some option =>
    if ctx.ruleHidden selection.1 then t.refuse selection.1 ⟨errorHiddenByRule, []⟩
    else match sentKeys option selection.2 with
      | none => t.refuse selection.1 ⟨errorNotScalar, []⟩
      | some [] => t
      | some keys => t.take ctx selection.1 option (distinct (keys.map Value.castString))

/-! ## What is required -/

/-- Whether an option is required: as rules say, where they say, and as it is
otherwise. -/
def isRequired (states : String → TargetState) (id : String) (option : Value) : Bool :=
  (states id).required.getD (option.field "is_required").truthy

def alreadyReported (errors : List Error) (id : String) : Bool :=
  errors.any fun error => error.field = some id

/-- A key that an array keeps as an integer. -/
def isIntegerKey (key : String) : Bool := toString (stringToInt key) == key

/-- A turn of the required pass. An id that is an integer is no string, which
`already_reported` insists on. -/
def require (ctx : Context) (chosen : OrderedMap String Value) (errors : Option (List Error))
    (p : String × Value) : Option (List Error) :=
  if ctx.ruleHidden p.1 then errors
  else if !isRequired ctx.states p.1 p.2 || (chosen.get? p.1).isSome then errors
  else if isIntegerKey p.1 then none
  else errors.map fun errors =>
    if alreadyReported errors p.1 then errors else errors ++ [⟨errorRequired, some p.1, []⟩]

/-! ## Resolving -/

/-- What a resolution reads, once the rules are evaluated. -/
def context (P : Platform) (optionSets : List Value) (base : ℤ) (today : Option String)
    (states : States) : Context where
  platform := P
  base := base
  today := today
  options := indexOptions optionSets
  states := stateAt states
  ruleHidden id := decide (id ∈ hiddenOptions states (indexContainment optionSets))
  hiddenValue id := decide (id ∈ hiddenValues (indexRules optionSets) states)

/-- The total of what was taken, where there is one. -/
def total (base : ℤ) (deltas : OrderedMap String Value) : Option ℤ :=
  (deltas.values.mapM Value.int?).bind (Pricing.sumDeltas base)

def Taken.resolution (t : Taken) (totalMinor : ℤ) : Resolution where
  deltas := t.deltas
  resolved := t.chosen
  totalMinor := totalMinor
  unpriced := t.unpriced.mergeSort fun a b => decide (a ≤ b)
  labels := t.labels
  setIds := t.setIds
  optionSets := t.optionSets
  weightDeltaGrams := t.weightGrams
  skuSuffixes := t.skuSuffixes

def takeAll (ctx : Context) (selections : OrderedMap String Value) : Taken :=
  selections.entries.foldl (Taken.turn ctx) .start

/-- What remains after the loop: what is required, then the total. -/
def conclude (ctx : Context) (t : Taken) : Result :=
  match ctx.options.entries.foldl (require ctx t.chosen) (some t.errors) with
  | none => .threw
  | some [] =>
    match total ctx.base t.deltas with
    | none => .errors [⟨errorUnpriceable, none, []⟩]
    | some totalMinor => .ok (t.resolution totalMinor)
  | some errors => .errors errors

/-- The rules of the sets, evaluated on a request. -/
def evaluation (P : Platform) (optionSets : List Value) (selections : OrderedMap String Value) :
    Outcome :=
  RuleEvaluator.evaluate (indexRules optionSets)
    (ruleAnswers P (indexOptions optionSets) selections) (indexContainment optionSets)

def resolve (P : Platform) (optionSets : List Value) (selections : OrderedMap String Value)
    (base : ℤ) (today : Option String) : Result :=
  let evaluated := evaluation P optionSets selections
  if evaluated.refused.isSome then .errors [⟨errorRulesUnsettled, none, []⟩]
  else
    let ctx := context P optionSets base today evaluated.states
    conclude ctx (takeAll ctx selections)

end Optionia.Engine.SelectionResolver

import Optionia.Js.Value
import Optionia.Js.Buffer
/-!
# Schemas

What `safeParse` accepts, of the schemas the cloud writes: numbers, texts,
lists, and objects whose members have schemas of their own. A strict object
has no other members. What a parse makes of what it accepts is not read.
-/

namespace Optionia.Js

/-- A schema, as what it accepts. -/
abbrev Schema := Value → Bool

namespace Schema

def null : Schema
  | .null => true
  | _ => false

def nullable (schema : Schema) : Schema
  | .null => true
  | v => schema v

def boolean : Schema
  | .bool _ => true
  | _ => false

/-- `z.number()`, with what is asked of its value; no number is infinite. -/
def numberThat (p : ℚ → Bool) : Schema
  | .num (.finite x) => p x.val
  | _ => false

def number : Schema := numberThat fun _ => true

def positive : Schema := numberThat fun x => decide (0 < x)

/-- `z.number().int()`, with a least and perhaps a greatest value; an integer
is a safe one. -/
def int (least : ℤ) (greatest : Option ℤ) : Schema := fun v =>
  match v.safeInteger? with
  | some n => decide (least ≤ n) && greatest.all fun greatest => decide (n ≤ greatest)
  | none => false

/-- `z.string()`, with what is asked of its characters. -/
def stringThat (p : List Char → Bool) : Schema
  | .str s => p s.toList
  | _ => false

/-- `z.string().min(least).max(greatest)` -/
def string (least greatest : ℕ) : Schema :=
  stringThat fun cs => decide (least ≤ textLength cs) && decide (textLength cs ≤ greatest)

/-- `z.enum(texts)`, and `z.literal` of one. -/
def oneOf (texts : List String) : Schema
  | .str s => texts.contains s
  | _ => false

/-- `z.array(element).min(least).max(greatest)` -/
def array (element : Schema) (least greatest : ℕ) : Schema
  | .arr vs => vs.all element && decide (least ≤ vs.length) && decide (vs.length ≤ greatest)
  | _ => false

/-- A member of an object that has to be there. -/
def required (key : String) (schema : Schema) : String × Schema := (key, schema)

/-- A member that may be missing. -/
def optional (key : String) (schema : Schema) : String × Schema :=
  (key, fun v => match v with
    | .undefined => true
    | v => schema v)

/-- `z.object(shape)` -/
def object (shape : List (String × Schema)) : Schema
  | .obj es => shape.all fun (key, schema) => schema ((es.lookup key).getD .undefined)
  | _ => false

def strict (shape : List (String × Schema)) : Schema := fun v =>
  object shape v &&
    match v with
    | .obj es => es.all fun e => (shape.map Prod.fst).contains e.1
    | _ => false

/-- `schema.superRefine`, with what must hold of a value of the schema. -/
def refine (schema : Schema) (p : Value → Bool) : Schema := fun v => schema v && p v

/-- `z.discriminatedUnion('type', schemas)`: each asks for a type of its own. -/
def union (schemas : List Schema) : Schema := fun v => schemas.any fun schema => schema v

/-! ## What is accepted -/

theorem safeInteger?_of_int {least : ℤ} {greatest : Option ℤ} {v : Value}
    (h : int least greatest v = true) : v.safeInteger? = some (v.safeInteger?.getD 0) := by
  unfold int at h
  cases hv : v.safeInteger? with
  | none =>
    rw [hv] at h
    simp at h
  | some n => rfl

theorem all_of_object {shape : List (String × Schema)} {v : Value}
    (h : object shape v = true) : ∀ m ∈ shape, m.2 (v.field m.1) = true := by
  unfold object at h
  cases v with
  | obj es => exact fun m hm => List.all_eq_true.1 h m hm
  | _ => simp at h

end Schema

end Optionia.Js

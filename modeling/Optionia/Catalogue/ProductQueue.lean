import Mathlib.Logic.Function.Basic
import Optionia.Lib.OrderedMap
import Optionia.Lib.Runs
/-!
# The queue of changed products, and what drains it

`ProductWatcher` follows each change of a product by a push on `ProductQueue`,
which holds one intent per product, the last. `QueueDrainer::drain` reads the
queue, builds a payload from each product as it then stands, posts them as one
batch and forgets each; then it deletes what was removed, one request after
the other, and forgets each that was answered. The shop goes on between any two
of its steps.
-/

namespace Optionia.Catalogue

abbrev ProductId := ℕ

/-- What should happen to a product. -/
inductive Intent where
  | upsert
  | remove
  deriving DecidableEq

/-! ## The queue -/

abbrev ProductQueue := OrderedMap ProductId Intent

namespace ProductQueue

def maxEntries : ℕ := 200

/-- `array_slice`, from the front. -/
def drop (queue : ProductQueue) (dropped : ℕ) : ProductQueue :=
  ⟨queue.entries.drop dropped, queue.nodup.sublist ((List.drop_sublist _ _).map _)⟩

def push (queue : ProductQueue) (id : ProductId) (action : Intent) : ProductQueue :=
  let queue := OrderedMap.set queue id action
  if maxEntries < queue.entries.length then drop queue (queue.entries.length - maxEntries)
  else queue

def forget (queue : ProductQueue) (id : ProductId) : ProductQueue := OrderedMap.erase queue id

def idsOf (queue : ProductQueue) (action : Intent) : List ProductId :=
  (queue.entries.filter fun entry => entry.2 = action).map Prod.fst

end ProductQueue

/-! ## The shop, the run and the cloud -/

/-- A product, as WooCommerce has it. -/
inductive Product (V : Type*) where
  | present (content : V)
  | trashed (content : V)
  | gone
  deriving DecidableEq

variable {V : Type*}

/-- What `ProductWatcher` pushes once a product has become this. -/
def Product.intent : Product V → Intent
  | .present _ => .upsert
  | .trashed _ | .gone => .remove

/-- `CataloguePayload::for_ids`, of one product: `wc_get_product` finds one in
the trash as well. -/
def Product.payload : Product V → Option (Product V)
  | .present content => some (.present content)
  | .trashed content => some (.trashed content)
  | .gone => none

/-- What the cloud was last told of a product. -/
inductive Told (V : Type*) where
  | upsert (payload : Product V)
  | removed
  deriving DecidableEq

/-- What was told reflects a product: one that is there by its content, and one
that is not by its removal. -/
def Told.Reflects : Told V → Product V → Prop
  | .upsert (.present content), .present content' => content = content'
  | .removed, .trashed _ | .removed, .gone => True
  | _, _ => False

/-- Where a run of the drainer is. -/
inductive Phase (V : Type*) where
  | idle
  | building (toBuild : List ProductId) (built : List (ProductId × Option (Product V)))
      (removals : List ProductId)
  | posting (built : List (ProductId × Option (Product V))) (removals : List ProductId)
  | forgetting (built : List (ProductId × Option (Product V))) (removals : List ProductId)
  | deleting (removals : List ProductId)
  | forgettingRemoval (id : ProductId) (removals : List ProductId)

/-- What becomes of a request. -/
inductive Response where
  | ok
  /-- The cloud accepts it, and the answer is lost. -/
  | lost
  | refused
  deriving DecidableEq

/-- The shop, its queue, the run that drains it and the cloud. -/
structure Shop (V : Type*) where
  products : ProductId → Product V
  pending : ProductId → Option Intent
  queue : ProductQueue
  phase : Phase V
  accepted : ProductId → Option (Told V)
  /-- What each product has been since its last event; nothing before the
  first. -/
  since : ProductId → List (Product V)
  /-- Whether there was no event of a product since its payload was built. -/
  fresh : ProductId → Bool

/-- One step of anyone. -/
inductive Action (V : Type*) where
  /-- The shop saves, trashes, restores or deletes a product. -/
  | change (id : ProductId) (product : Product V)
  | event (id : ProductId)
  | read
  | build
  | post (response : Response)
  | forget
  | delete (response : Response)
  | crash

namespace Shop

def maxUpserts : ℕ := 250

def maxRemovals : ℕ := 20

def removing : List ProductId → Phase V
  | [] => .idle
  | id :: removals => .deleting (id :: removals)

/-- What comes after the last payload: nothing is posted where nothing is left
of the products. -/
def afterBuild (built : List (ProductId × Option (Product V))) (removals : List ProductId) :
    Phase V :=
  if built.all fun entry => entry.2.isNone then .forgetting built removals
  else .posting built removals

/-- The cloud accepts an entry of a batch. -/
def accept (accepted : ProductId → Option (Told V)) (entry : ProductId × Option (Product V)) :
    ProductId → Option (Told V) :=
  match entry.2 with
  | some payload => Function.update accepted entry.1 (some (.upsert payload))
  | none => accepted

def acceptAll (accepted : ProductId → Option (Told V))
    (built : List (ProductId × Option (Product V))) : ProductId → Option (Told V) :=
  built.foldl accept accepted

/-- A product changes; the push of the change before comes first. -/
def change (s : Shop V) (id : ProductId) (product : Product V) : Shop V :=
  if s.pending id = none then
    { s with
      products := Function.update s.products id product
      pending := Function.update s.pending id (some product.intent)
      since := Function.update s.since id
        (if s.since id = [] then [] else product :: s.since id) }
  else s

def event (s : Shop V) (id : ProductId) : Shop V :=
  match s.pending id with
  | none => s
  | some action =>
    { s with
      pending := Function.update s.pending id none
      queue := ProductQueue.push s.queue id action
      since := Function.update s.since id [s.products id]
      fresh := Function.update s.fresh id false }

/-- `QueueDrainer::drain`, up to its first payload. -/
def read (s : Shop V) : Shop V :=
  match s.phase with
  | .idle =>
    let upserts := (ProductQueue.idsOf s.queue .upsert).take maxUpserts
    let removals := (ProductQueue.idsOf s.queue .remove).take maxRemovals
    { s with phase := if upserts = [] then removing removals else .building upserts [] removals }
  | _ => s

def build (s : Shop V) : Shop V :=
  match s.phase with
  | .building (id :: toBuild) built removals =>
    let built := built ++ [(id, (s.products id).payload)]
    { s with
      phase := if toBuild = [] then afterBuild built removals else .building toBuild built removals
      fresh := Function.update s.fresh id true }
  | _ => s

def post (s : Shop V) (response : Response) : Shop V :=
  match s.phase with
  | .posting built removals =>
    match response with
    | .ok => { s with accepted := acceptAll s.accepted built, phase := .forgetting built removals }
    | .lost => { s with accepted := acceptAll s.accepted built, phase := removing removals }
    | .refused => { s with phase := removing removals }
  | _ => s

def forget (s : Shop V) : Shop V :=
  match s.phase with
  | .forgetting (entry :: built) removals =>
    { s with
      queue := ProductQueue.forget s.queue entry.1
      phase := if built = [] then removing removals else .forgetting built removals }
  | .forgettingRemoval id removals =>
    { s with queue := ProductQueue.forget s.queue id, phase := removing removals }
  | _ => s

/-- One product is deleted; the first failure ends the run. -/
def delete (s : Shop V) (response : Response) : Shop V :=
  match s.phase with
  | .deleting (id :: removals) =>
    let accepted := Function.update s.accepted id (some .removed)
    match response with
    | .ok => { s with accepted := accepted, phase := .forgettingRemoval id removals }
    | .lost => { s with accepted := accepted, phase := .idle }
    | .refused => { s with phase := .idle }
  | _ => s

def step (s : Shop V) : Action V → Shop V
  | .change id product => s.change id product
  | .event id => s.event id
  | .read => s.read
  | .build => s.build
  | .post response => s.post response
  | .forget => s.forget
  | .delete response => s.delete response
  | .crash => { s with phase := .idle }

end Shop

end Optionia.Catalogue

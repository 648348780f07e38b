import Optionia.Config.ProductIndex
import Optionia.Engine.Pricing
import Optionia.Lib.Writes
/-!
# The configuration cache

`Repository::store`, as the list of writes it makes: WordPress options are
written one by one, so a process that dies leaves a prefix of the list
behind. The document comes before its metadata, and the product index last.
-/

namespace Optionia.Config

open Php

/-- The states of the connection to the cloud. -/
inductive ConnectionState where
  | disconnected
  | connecting
  | connected
  | error
  | revoked
  deriving DecidableEq

/-- `OPTION_CONFIG_META`. -/
structure Meta where
  configVersion : ℤ
  schemaVersion : ℤ
  fetchedAt : ℤ
  etag : Option String
  deriving DecidableEq

/-- The options the plugin keeps in the database, those of the configuration
cache. -/
structure Options where
  config : Option Value
  configMeta : Option Meta
  productIndex : Option ProductIndex
  /-- `OPTION_SCHEMA_REFUSED`: the schema version refused. -/
  schemaRefused : Option ℤ
  unpricedTypes : Option (List String)
  /-- `OPTION_LAST_SYNC`: whether it succeeded, and its outcome. -/
  lastSync : Option (Bool × String)
  connection : ConnectionState

/-- One call of `update_option` or `delete_option`. -/
inductive Write where
  | config (document : Value)
  | configMeta (entry : Meta)
  | productIndex (index : ProductIndex)
  /-- `OPTION_SCHEMA_REFUSED`, deleted where there is none. -/
  | schemaRefused (version : Option ℤ)
  /-- `OPTION_UNPRICED_TYPES`, deleted where there is none. -/
  | unpricedTypes (types : Option (List String))
  | lastSync (ok : Bool) (outcome : String)
  | connection (state : ConnectionState)

def Write.apply : Write → Options → Options
  | config document, o => { o with config := some document }
  | configMeta entry, o => { o with configMeta := some entry }
  | productIndex index, o => { o with productIndex := some index }
  | schemaRefused version, o => { o with schemaRefused := version }
  | unpricedTypes types, o => { o with unpricedTypes := types }
  | lastSync ok outcome, o => { o with lastSync := some (ok, outcome) }
  | connection state, o => { o with connection := state }

namespace Repository

def supportedSchemaVersion : ℤ := 1

/-- `get`: what is stored, unless it is no document. -/
def get (o : Options) : Option Value :=
  o.config.filter fun document => document.isArray && document.truthy

def hasConfig (o : Options) : Bool := (get o).isSome

def etag (o : Options) : Option String := o.configMeta.bind (·.etag)

def configVersion (document : Value) : ℤ := (document.field "config_version").toInt

/-- The schema version a document declares. -/
def schemaVersion (document : Value) : ℤ := (document.field "schema_version").toInt

/-! ## Types a document cannot be charged for -/

def collectUnpriced (price : Value) (priced found : List String) : List String :=
  if !price.isArray || !(price.field "type").isScalar then found
  else
    let type := (price.field "type").castString
    if type = "" ∨ type ∈ priced ∨ type ∈ found then found else found ++ [type]

/-- The types of an option and of its values that are not charged there. -/
def collectOption (found : List String) (option : Value) : List String :=
  if !option.isArray then found
  else
    (option.field "values").castItems.foldl (fun found value =>
        collectUnpriced (value.field "price_config") Engine.valuePricedTypes found)
      (collectUnpriced (option.field "pricing") Engine.optionPricedTypes found)

/-- The types a document uses where they are not charged. -/
def foundUnpriced (document : Value) : List String :=
  (document.field "option_sets").castItems.foldl (fun found set =>
    (set.field "groups").castItems.foldl (fun found group =>
      (group.field "options").castItems.foldl collectOption found) found) []

def recordUnpricedTypes (document : Value) (o : Options) : List Write :=
  match foundUnpriced document with
  | [] => if o.unpricedTypes.isSome then [.unpricedTypes none] else []
  | found => [.unpricedTypes (some (found.mergeSort (· ≤ ·)))]

/-! ## Storing a document -/

/-- Whether a body is taken for a configuration document, and its schema
understood. -/
def accepts (document : Value) : Bool :=
  document.isset "option_sets" && decide (schemaVersion document ≤ supportedSchemaVersion)

def metaOf (document : Value) (etag : Option String) (now : ℤ) : Meta where
  configVersion := configVersion document
  schemaVersion := schemaVersion document
  fetchedAt := now
  etag := etag

/-- The writes made before those of the document: an earlier refusal is
cleared, and types that cannot be charged are recorded. -/
def preliminary (document : Value) (o : Options) : List Write :=
  (if o.schemaRefused.isSome then [.schemaRefused none] else []) ++ recordUnpricedTypes document o

/-- The document, its metadata and its index. -/
def documentWrites (document : Value) (etag : Option String) (now : ℤ) : List Write :=
  [.config document, .configMeta (metaOf document etag now),
    .productIndex (ProductIndex.build document)]

/-- The writes of `store`. -/
def storeWrites (document : Value) (etag : Option String) (now : ℤ) (o : Options) : List Write :=
  if !document.isset "option_sets" then []
  else if supportedSchemaVersion < schemaVersion document then
    [.schemaRefused (some (schemaVersion document))]
  else preliminary document o ++ documentWrites document etag now

end Repository

end Optionia.Config

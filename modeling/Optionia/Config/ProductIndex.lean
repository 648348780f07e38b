import Optionia.Php.Numbers
/-!
# The product index

`ProductIndex::build`: which option sets a document assigns to which
products, built when the document is stored. A set reaches every product, a
taxonomy term, or one product by its id; any other assignment is counted as
skipped.
-/

namespace Optionia.Config

open Php

/-- A set assigned to the products under a taxonomy term. -/
structure TermTarget where
  setId : String
  taxonomy : String
  slug : String
  priority : ℤ
  deriving DecidableEq

/-- The index of a document. -/
structure ProductIndex where
  /-- The sets of each product named, with their priorities. -/
  products : OrderedMap ℤ (OrderedMap String ℤ)
  all : OrderedMap String ℤ
  terms : List TermTarget
  skipped : ℕ
  deriving DecidableEq

namespace ProductIndex

/-- The taxonomy of a target type, where it is one. -/
def taxonomy? (targetType : String) : Option String :=
  if targetType = "category" then some "product_cat"
  else if targetType = "tag" then some "product_tag"
  else none

def empty : ProductIndex := ⟨∅, ∅, [], 0⟩

/-- The index with one assignment more skipped. -/
def skip (index : ProductIndex) : ProductIndex := { index with skipped := index.skipped + 1 }

def priority (assignment : Value) : ℤ := (assignment.field "priority").toInt

/-- A map with a set's priority, unless the set has one already. -/
def claim (sets : OrderedMap String ℤ) (setId : String) (priority : ℤ) : OrderedMap String ℤ :=
  if (sets.get? setId).isSome then sets else sets.set setId priority

/-- The index with a set assigned to a product by its reference. -/
def addProduct (index : ProductIndex) (setId : String) (assignment : Value) : ProductIndex :=
  let ref := assignment.field "target_ref"
  let productId := ref.toInt
  match ref with
  | .str _ | .int _ =>
    if productId ≤ 0 then index.skip
    else
      let add sets := claim sets setId (priority assignment)
      { index with products := index.products.update ∅ productId add }
  | _ => index.skip

/-- The index with a manual assignment of a set. -/
def addManual (index : ProductIndex) (setId : String) (assignment : Value) : ProductIndex :=
  let targetType := assignment.string "target_type"
  match taxonomy? targetType with
  | some taxonomy =>
    let slug := assignment.string "target_ref"
    if slug = "" then index.skip
    else { index with terms := index.terms ++ [⟨setId, taxonomy, slug, priority assignment⟩] }
  | none => if targetType = "product" then addProduct index setId assignment else index.skip

/-- The index with one assignment of a set. -/
def addAssignment (setId : String) (index : ProductIndex) (assignment : Value) : ProductIndex :=
  let mode := assignment.string "mode"
  if !assignment.isArray then index.skip
  else if mode = "all" then { index with all := claim index.all setId (priority assignment) }
  else if mode = "manual" then addManual index setId assignment
  else index.skip

def addSet (index : ProductIndex) (set : Value) : ProductIndex :=
  match set.field "id" with
  | .str setId => (set.field "assignments").items.foldl (addAssignment setId) index
  | _ => index

def build (document : Value) : ProductIndex :=
  (document.field "option_sets").items.foldl addSet empty

end ProductIndex

end Optionia.Config

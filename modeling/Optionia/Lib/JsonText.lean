import Optionia.Lib.Codes
/-!
# Text that spells trees

A tree of words, texts, lists and records, spelled the way JSON spells it
without any white space: texts stand in quotes, in a code that never opens
with one. Such a spelling ends by itself, but for a word: it goes on as long
as its letters do. So a spelling is read back in one way wherever a word's
letters do not follow it (`print_cancel`).
-/

namespace JsonText

/-- A letter of a word: of a number, of `true`, `false` and `null`. -/
def wordChar (c : Char) : Bool := c.isAlphanum || c == '-' || c == '+' || c == '.'

/-- A word. -/
structure Word where
  letters : List Char
  ne_nil : letters ≠ []
  wordChars : ∀ c ∈ letters, wordChar c = true

@[ext] theorem Word.ext {v w : Word} (h : v.letters = w.letters) : v = w := by
  cases v
  cases w
  cases h
  rfl

/-- A tree. -/
inductive Tree where
  | word (w : Word)
  | text (s : List Char)
  | list (ts : List Tree)
  | record (es : List (List Char × Tree))

/-- A code of texts, none of whose words opens with a quote. -/
structure Quoting extends Code Char Char where
  quote : ∀ a t, word a ≠ '"' :: t

variable (q : Quoting)

def quoted (s : List Char) : List Char := '"' :: (q.write s ++ ['"'])

mutual

def print : Tree → List Char
  | .word w => w.letters
  | .text s => quoted q s
  | .list ts => '[' :: printItems true ts
  | .record es => '{' :: printMembers true es

/-- The rest of a list, from its first item or a later one. -/
def printItems : Bool → List Tree → List Char
  | _, [] => [']']
  | first, t :: ts => (if first then [] else [',']) ++ (print t ++ printItems false ts)

def printMembers : Bool → List (List Char × Tree) → List Char
  | _, [] => ['}']
  | first, (k, t) :: es =>
    (if first then [] else [',']) ++ (quoted q k ++ (':' :: (print t ++ printMembers false es)))

end

/-- What does not go on with a letter of a word. -/
def Ended (r : List Char) : Prop := ∀ c ∈ r.head?, wordChar c = false

variable {r s : List Char}

theorem ended_cons {c : Char} (h : wordChar c = false) : Ended (c :: r) := by
  intro d hd
  obtain rfl := Option.some.inj hd
  exact h

/-- **A quoted text is read back**, whatever follows. -/
theorem quoted_cancel {t : List Char} {u : List Char} (h : quoted q s ++ r = quoted q t ++ u) :
    s = t ∧ r = u := by
  have hclose : ∀ (v : List Char) (a : Char) (w : List Char), '"' :: v ≠ q.word a ++ w := by
    intro v a w heq
    cases hword : q.word a with
    | nil => exact q.ne_nil a hword
    | cons c cs =>
      rw [hword, List.cons_append] at heq
      exact q.quote a cs (by rw [hword, (List.cons.inj heq).1])
  unfold quoted at h
  rw [List.cons_append, List.cons_append, List.append_assoc, List.append_assoc] at h
  obtain ⟨hst, hru⟩ := q.write_cancel (hclose _) (hclose _) (List.cons.inj h).2
  exact ⟨hst, (List.cons.inj hru).2⟩

/-- **A word is read back**, where it has ended. -/
theorem word_cancel {v w : Word} (hr : Ended r) (hs : Ended s)
    (h : v.letters ++ r = w.letters ++ s) : v = w ∧ r = s := by
  have htaken : ∀ (w : Word) {r : List Char}, Ended r →
      (w.letters ++ r).takeWhile wordChar = w.letters := by
    intro w r hr
    rw [List.takeWhile_append_of_pos w.wordChars]
    cases r with
    | nil => exact List.append_nil _
    | cons c r => rw [List.takeWhile_cons_of_neg (by rw [hr c rfl]; decide), List.append_nil]
  have hletters : v.letters = w.letters := by rw [← htaken v hr, h, htaken w hs]
  rw [hletters] at h
  exact ⟨Word.ext hletters, List.append_cancel_left h⟩

def opening : Tree → Char
  | .word w => w.letters.headD ' '
  | .text _ => '"'
  | .list _ => '['
  | .record _ => '{'

theorem wordChar_opening (w : Word) : wordChar (opening (.word w)) = true := by
  obtain ⟨letters, hne, hword⟩ := w
  cases letters with
  | nil => exact absurd rfl hne
  | cons c cs => exact hword c List.mem_cons_self

theorem print_eq_cons (t : Tree) : ∃ rest, print q t = opening t :: rest := by
  cases t with
  | word w =>
    obtain ⟨letters, hne, hword⟩ := w
    cases letters with
    | nil => exact absurd rfl hne
    | cons c cs => exact ⟨cs, by rw [print]; rfl⟩
  | text s => exact ⟨_, by rw [print, quoted]; rfl⟩
  | list ts => exact ⟨_, by rw [print]; rfl⟩
  | record es => exact ⟨_, by rw [print]; rfl⟩

theorem opening_eq {t u : Tree} (h : print q t ++ r = print q u ++ s) : opening t = opening u := by
  obtain ⟨rest, ht⟩ := print_eq_cons q t
  obtain ⟨rest', hu⟩ := print_eq_cons q u
  rw [ht, hu, List.cons_append, List.cons_append] at h
  exact (List.cons.inj h).1

/-- No tree opens with what no word opens with, but for a quote and the two
brackets. -/
theorem opening_ne {t : Tree} {c : Char} (hword : wordChar c = false) (hquote : c ≠ '"')
    (hlist : c ≠ '[') (hrecord : c ≠ '{') : opening t ≠ c := by
  intro h
  cases t with
  | word w =>
    rw [← h, wordChar_opening w] at hword
    exact Bool.false_ne_true hword.symm
  | text s => exact hquote h.symm
  | list ts => exact hlist h.symm
  | record es => exact hrecord h.symm

theorem printItems_cons_ne (first : Bool) (t : Tree) (ts : List Tree) :
    printItems q first (t :: ts) ++ r ≠ printItems q first [] ++ s := by
  intro h
  rw [printItems, printItems] at h
  cases first with
  | true =>
    obtain ⟨rest, ht⟩ := print_eq_cons q t
    rw [if_pos rfl, ht] at h
    exact opening_ne (by decide) (by decide) (by decide) (by decide) (List.cons.inj h).1
  | false => exact absurd (List.cons.inj h).1 (by decide)

theorem printMembers_cons_ne (first : Bool) (e : List Char × Tree) (es : List (List Char × Tree)) :
    printMembers q first (e :: es) ++ r ≠ printMembers q first [] ++ s := by
  intro h
  rw [printMembers, printMembers] at h
  cases first with
  | true => exact absurd (List.cons.inj h).1 (by decide)
  | false => exact absurd (List.cons.inj h).1 (by decide)

theorem ended_printItems (ts : List Tree) (r : List Char) :
    Ended (printItems q false ts ++ r) := by
  cases ts with
  | nil =>
    rw [printItems]
    exact ended_cons (by decide)
  | cons t ts =>
    rw [printItems]
    exact ended_cons (by decide)

theorem ended_printMembers (es : List (List Char × Tree)) (r : List Char) :
    Ended (printMembers q false es ++ r) := by
  cases es with
  | nil =>
    rw [printMembers]
    exact ended_cons (by decide)
  | cons e es =>
    rw [printMembers]
    exact ended_cons (by decide)

theorem opening_word_ne (w : Word) {c : Char} (hc : wordChar c = false) : opening (.word w) ≠ c :=
  fun h => Bool.false_ne_true (hc.symm.trans (h ▸ wordChar_opening w))

mutual

/-- **A tree is read back**, where its spelling has ended. -/
theorem print_cancel : ∀ (t u : Tree) {r s : List Char}, Ended r → Ended s →
    print q t ++ r = print q u ++ s → t = u ∧ r = s
  | .word v, u, r, s, hr, hs, h => by
    have hopen := opening_eq q h
    cases u with
    | word w =>
      rw [print, print] at h
      obtain ⟨rfl, hrest⟩ := word_cancel hr hs h
      exact ⟨rfl, hrest⟩
    | text => exact absurd hopen (opening_word_ne v (c := '"') (by decide))
    | list => exact absurd hopen (opening_word_ne v (c := '[') (by decide))
    | record => exact absurd hopen (opening_word_ne v (c := '{') (by decide))
  | .text a, u, r, s, hr, hs, h => by
    have hopen := opening_eq q h
    cases u with
    | word w => exact absurd hopen.symm (opening_word_ne w (c := '"') (by decide))
    | text b =>
      rw [print, print] at h
      obtain ⟨rfl, hrest⟩ := quoted_cancel q h
      exact ⟨rfl, hrest⟩
    | list => exact absurd (show '"' = '[' from hopen) (by decide)
    | record => exact absurd (show '"' = '{' from hopen) (by decide)
  | .list ts, u, r, s, hr, hs, h => by
    have hopen := opening_eq q h
    cases u with
    | word w => exact absurd hopen.symm (opening_word_ne w (c := '[') (by decide))
    | text => exact absurd (show '[' = '"' from hopen) (by decide)
    | list us =>
      rw [print, print, List.cons_append, List.cons_append] at h
      obtain ⟨rfl, hrest⟩ := printItems_cancel true ts us (List.cons.inj h).2
      exact ⟨rfl, hrest⟩
    | record => exact absurd (show '[' = '{' from hopen) (by decide)
  | .record es, u, r, s, hr, hs, h => by
    have hopen := opening_eq q h
    cases u with
    | word w => exact absurd hopen.symm (opening_word_ne w (c := '{') (by decide))
    | text => exact absurd (show '{' = '"' from hopen) (by decide)
    | list => exact absurd (show '{' = '[' from hopen) (by decide)
    | record fs =>
      rw [print, print, List.cons_append, List.cons_append] at h
      obtain ⟨rfl, hrest⟩ := printMembers_cancel true es fs (List.cons.inj h).2
      exact ⟨rfl, hrest⟩

/-- A list is, whatever follows. -/
theorem printItems_cancel : ∀ (first : Bool) (ts us : List Tree) {r s : List Char},
    printItems q first ts ++ r = printItems q first us ++ s → ts = us ∧ r = s
  | first, [], us, r, s, h => by
    cases us with
    | nil =>
      rw [printItems] at h
      exact ⟨rfl, (List.cons.inj h).2⟩
    | cons u us => exact absurd h.symm (printItems_cons_ne q first u us)
  | first, t :: ts, us, r, s, h => by
    cases us with
    | nil => exact absurd h (printItems_cons_ne q first t ts)
    | cons u us =>
      rw [printItems, printItems] at h
      simp only [List.append_assoc] at h
      have hbody := List.append_cancel_left h
      obtain ⟨rfl, hrest⟩ := print_cancel t u (ended_printItems q ts r) (ended_printItems q us s) hbody
      obtain ⟨rfl, hfollow⟩ := printItems_cancel false ts us hrest
      exact ⟨rfl, hfollow⟩

/-- So is a record. -/
theorem printMembers_cancel : ∀ (first : Bool) (es fs : List (List Char × Tree))
    {r s : List Char}, printMembers q first es ++ r = printMembers q first fs ++ s →
      es = fs ∧ r = s
  | first, [], fs, r, s, h => by
    cases fs with
    | nil =>
      rw [printMembers] at h
      exact ⟨rfl, (List.cons.inj h).2⟩
    | cons f fs => exact absurd h.symm (printMembers_cons_ne q first f fs)
  | first, (k, t) :: es, fs, r, s, h => by
    cases fs with
    | nil => exact absurd h (printMembers_cons_ne q first (k, t) es)
    | cons f fs =>
      obtain ⟨l, u⟩ := f
      rw [printMembers, printMembers] at h
      simp only [List.append_assoc, List.cons_append] at h
      obtain ⟨rfl, hvalue⟩ := quoted_cancel q (List.append_cancel_left h)
      obtain ⟨rfl, hrest⟩ := print_cancel t u (ended_printMembers q es r)
        (ended_printMembers q fs s) (List.cons.inj hvalue).2
      obtain ⟨rfl, hfollow⟩ := printMembers_cancel false es fs hrest
      exact ⟨rfl, hfollow⟩

end

/-! ## Spelling by commas -/

theorem intercalate_cons_eq (c : Char) (a : List Char) (l : List (List Char)) :
    [c].intercalate (a :: l) = a ++ l.flatMap fun b => c :: b := by
  induction l generalizing a with
  | nil => rw [List.intercalate_singleton, List.flatMap_nil, List.append_nil]
  | cons b l ih =>
    rw [List.intercalate_cons_cons, ih b, List.flatMap_cons, List.append_assoc]
    rfl

/-- **A list is its items, with commas between them.** -/
theorem printItems_eq (ts : List Tree) :
    printItems q true ts = [','].intercalate (ts.map (print q)) ++ [']'] := by
  have hrest : ∀ ts : List Tree, printItems q false ts =
      ((ts.map (print q)).flatMap fun part => ',' :: part) ++ [']'] := by
    intro ts
    induction ts with
    | nil => rfl
    | cons t ts ih =>
      rw [printItems, ih, List.map_cons, List.flatMap_cons, List.append_assoc]
      rfl
  cases ts with
  | nil => rfl
  | cons t ts =>
    rw [printItems, hrest, List.map_cons, intercalate_cons_eq, List.append_assoc]
    rfl

/-- **A record is its members, with commas between them.** -/
theorem printMembers_eq (es : List (List Char × Tree)) :
    printMembers q true es =
      [','].intercalate (es.map fun p => quoted q p.1 ++ ':' :: print q p.2) ++ ['}'] := by
  have hrest : ∀ es : List (List Char × Tree), printMembers q false es =
      ((es.map fun p => quoted q p.1 ++ ':' :: print q p.2).flatMap fun part => ',' :: part)
        ++ ['}'] := by
    intro es
    induction es with
    | nil => rfl
    | cons p es ih =>
      obtain ⟨k, t⟩ := p
      rw [printMembers, ih, List.map_cons, List.flatMap_cons]
      simp only [List.cons_append, List.append_assoc]
      rfl
  cases es with
  | nil => rfl
  | cons p es =>
    obtain ⟨k, t⟩ := p
    rw [printMembers, hrest, List.map_cons, intercalate_cons_eq, List.append_assoc,
      List.append_assoc]
    rfl

end JsonText

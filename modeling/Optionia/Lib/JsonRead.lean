import Optionia.Lib.JsonText
/-!
# Reading trees

The reader of the texts that `print` spells, with the white space that JSON
allows between their parts; how a text ends at its closing quote is the
caller's. A spelled tree is read back, whatever follows that no word goes on
with (`readTree_print`), and enough fuel for it is one more than its letters.
-/

namespace JsonText

/-! ## The reader -/

/-- White space between the parts of a text. -/
def space (c : Char) : Bool := c == ' ' || c == '\t' || c == '\n' || c == '\r'

/-- A text without the white space it opens with. -/
def skip (cs : List Char) : List Char := cs.dropWhile space

def after (mark : Char) (cs : List Char) : Option (List Char) :=
  match skip cs with
  | c :: rest => if c = mark then some rest else none
  | [] => none

/-- The word a text opens with. -/
def readWord (cs : List Char) : Option (Word × List Char) :=
  if h : cs.takeWhile wordChar = [] then none
  else some (⟨cs.takeWhile wordChar, h, List.all_eq_true.1 List.all_takeWhile⟩,
    cs.dropWhile wordChar)

variable (unquote : List Char → Option (List Char × List Char))

mutual

/-- The tree a text opens with, and what follows it. -/
def readTree : ℕ → List Char → Option (Tree × List Char)
  | 0, _ => none
  | fuel + 1, cs =>
    match skip cs with
    | [] => none
    | c :: rest =>
      if c = '"' then (unquote rest).map fun p => (.text p.1, p.2)
      else if c = '[' then (readItems fuel true rest).map fun p => (.list p.1, p.2)
      else if c = '{' then (readMembers fuel true rest).map fun p => (.record p.1, p.2)
      else (readWord (c :: rest)).map fun p => (.word p.1, p.2)

/-- The rest of a list, from its first item or a later one. -/
def readItems : ℕ → Bool → List Char → Option (List Tree × List Char)
  | 0, _, _ => none
  | fuel + 1, first, cs =>
    match after ']' cs with
    | some rest => some ([], rest)
    | none =>
      (if first then some cs else after ',' cs).bind fun rest =>
      (readTree fuel rest).bind fun p =>
      (readItems fuel false p.2).map fun q => (p.1 :: q.1, q.2)

def readMembers : ℕ → Bool → List Char → Option (List (List Char × Tree) × List Char)
  | 0, _, _ => none
  | fuel + 1, first, cs =>
    match after '}' cs with
    | some rest => some ([], rest)
    | none =>
      (if first then some cs else after ',' cs).bind fun rest =>
      (after '"' rest).bind fun rest =>
      (unquote rest).bind fun name =>
      (after ':' name.2).bind fun rest =>
      (readTree fuel rest).bind fun p =>
      (readMembers fuel false p.2).map fun q => ((name.1, p.1) :: q.1, q.2)

end

/-! ## Reading back -/

theorem after_cons {c mark : Char} (rest : List Char) (hc : space c = false) :
    after mark (c :: rest) = if c = mark then some rest else none := by
  unfold after skip
  rw [List.dropWhile_cons_of_neg (by simp [hc])]

theorem space_of_wordChar {c : Char} (h : wordChar c = true) : space c = false := by
  by_contra hspace
  rw [Bool.not_eq_false] at hspace
  unfold space at hspace
  simp only [Bool.or_eq_true, beq_iff_eq] at hspace
  rcases hspace with ((rfl | rfl) | rfl) | rfl <;> exact absurd h (by decide)

theorem space_opening (t : Tree) :
    space (opening t) = false ∧ opening t ≠ ']' ∧ opening t ≠ '}' := by
  cases t with
  | word w =>
    have hword := wordChar_opening w
    refine ⟨space_of_wordChar hword, ?_, ?_⟩
    · exact opening_word_ne w (by decide)
    · exact opening_word_ne w (by decide)
  | text s => exact (by decide : space '"' = false ∧ '"' ≠ ']' ∧ '"' ≠ '}')
  | list ts => exact (by decide : space '[' = false ∧ '[' ≠ ']' ∧ '[' ≠ '}')
  | record es => exact (by decide : space '{' = false ∧ '{' ≠ ']' ∧ '{' ≠ '}')

theorem readWord_letters (w : Word) {r : List Char} (hr : Ended r) :
    readWord (w.letters ++ r) = some (w, r) := by
  have htake : (w.letters ++ r).takeWhile wordChar = w.letters := by
    rw [List.takeWhile_append_of_pos w.wordChars]
    cases r with
    | nil => rw [List.takeWhile_nil, List.append_nil]
    | cons c r => rw [List.takeWhile_cons_of_neg (by simp [hr c rfl]), List.append_nil]
  have hdrop : (w.letters ++ r).dropWhile wordChar = r := by
    rw [List.dropWhile_append_of_pos w.wordChars]
    cases r with
    | nil => rfl
    | cons c r => exact List.dropWhile_cons_of_neg (by simp [hr c rfl])
  unfold readWord
  rw [dif_neg (by rw [htake]; exact w.ne_nil), hdrop]
  exact congrArg some (Prod.ext (Word.ext htake) rfl)

variable (q : Quoting) {unquote}

theorem length_print_pos (t : Tree) : 0 < (print q t).length := by
  obtain ⟨rest, hrest⟩ := print_eq_cons q t
  rw [hrest]
  exact Nat.succ_pos _

theorem after_print {mark : Char} (t : Tree) (r : List Char) (h : opening t ≠ mark) :
    after mark (print q t ++ r) = none := by
  obtain ⟨rest, hrest⟩ := print_eq_cons q t
  rw [hrest, List.cons_append, after_cons _ (space_opening t).1, if_neg h]

theorem after_self {mark : Char} (r : List Char) (h : space mark = false) :
    after mark (mark :: r) = some r := by
  rw [after_cons r h, if_pos rfl]

theorem after_quoted (s r : List Char) :
    after '"' (quoted q s ++ r) = some (q.write s ++ '"' :: r) := by
  unfold quoted
  rw [List.cons_append, List.append_assoc, List.singleton_append]
  exact after_self _ (by decide)

mutual

/-- **A spelled tree is read back**, whatever follows that no word goes on
with. -/
theorem readTree_print (h : ∀ s r, unquote (q.write s ++ '"' :: r) = some (s, r)) :
    ∀ (t : Tree) (fuel : ℕ) (r : List Char), (print q t).length < fuel → Ended r →
      readTree unquote fuel (print q t ++ r) = some (t, r)
  | _, 0, _, hfuel, _ => absurd hfuel (Nat.not_lt_zero _)
  | .word w, fuel + 1, r, _, hr => by
    obtain ⟨rest, hrest⟩ := print_eq_cons q (.word w)
    have hword := readWord_letters w hr
    rw [print] at hrest
    rw [hrest, List.cons_append] at hword
    rw [print, hrest, List.cons_append, readTree, skip,
      List.dropWhile_cons_of_neg (by simp [(space_opening (.word w)).1])]
    dsimp only
    rw [if_neg (opening_word_ne w (by decide)), if_neg (opening_word_ne w (by decide)),
      if_neg (opening_word_ne w (by decide)), hword]
    rfl
  | .text s, fuel + 1, r, _, _ => by
    rw [print, quoted, List.cons_append, List.append_assoc, List.singleton_append, readTree, skip,
      List.dropWhile_cons_of_neg (by decide)]
    dsimp only
    rw [if_pos rfl, h]
    rfl
  | .list ts, fuel + 1, r, hfuel, _ => by
    rw [print, List.length_cons] at hfuel
    rw [print, List.cons_append, readTree, skip, List.dropWhile_cons_of_neg (by decide)]
    dsimp only
    rw [if_neg (by decide), if_pos rfl, readItems_print h ts fuel true r (by omega)]
    rfl
  | .record es, fuel + 1, r, hfuel, _ => by
    rw [print, List.length_cons] at hfuel
    rw [print, List.cons_append, readTree, skip, List.dropWhile_cons_of_neg (by decide)]
    dsimp only
    rw [if_neg (by decide), if_neg (by decide), if_pos rfl,
      readMembers_print h es fuel true r (by omega)]
    rfl

/-- The rest of a list is. -/
theorem readItems_print (h : ∀ s r, unquote (q.write s ++ '"' :: r) = some (s, r)) :
    ∀ (ts : List Tree) (fuel : ℕ) (first : Bool) (r : List Char),
      (printItems q first ts).length < fuel →
        readItems unquote fuel first (printItems q first ts ++ r) = some (ts, r)
  | _, 0, _, _, hfuel => absurd hfuel (Nat.not_lt_zero _)
  | [], fuel + 1, first, r, _ => by
    rw [printItems, List.singleton_append, readItems, after_self r (by decide)]
  | t :: ts, fuel + 1, first, r, hfuel => by
    have hended := ended_printItems q ts r
    have hmore : 0 < (printItems q false ts).length := by
      cases ts with
      | nil => rw [printItems]; exact Nat.succ_pos _
      | cons t ts => rw [printItems]; exact Nat.succ_pos _
    have hpos := length_print_pos q t
    rw [printItems, List.length_append, List.length_append] at hfuel
    have htree := readTree_print h t fuel (printItems q false ts ++ r) (by omega) hended
    have hitems := readItems_print h ts fuel false r (by omega)
    rw [printItems, List.append_assoc, List.append_assoc, readItems]
    cases first with
    | true =>
      rw [if_pos rfl, List.nil_append, after_print q t _ (space_opening t).2.1]
      dsimp only
      rw [if_pos rfl, Option.bind_some, htree, Option.bind_some, hitems]
      rfl
    | false =>
      rw [if_neg Bool.false_ne_true, List.singleton_append, after_cons _ (by decide),
        if_neg (by decide)]
      dsimp only
      rw [if_neg Bool.false_ne_true, after_self _ (by decide), Option.bind_some, htree,
        Option.bind_some, hitems]
      rfl

/-- The rest of a record is. -/
theorem readMembers_print (h : ∀ s r, unquote (q.write s ++ '"' :: r) = some (s, r)) :
    ∀ (es : List (List Char × Tree)) (fuel : ℕ) (first : Bool) (r : List Char),
      (printMembers q first es).length < fuel →
        readMembers unquote fuel first (printMembers q first es ++ r) = some (es, r)
  | _, 0, _, _, hfuel => absurd hfuel (Nat.not_lt_zero _)
  | [], fuel + 1, first, r, _ => by
    rw [printMembers, List.singleton_append, readMembers, after_self r (by decide)]
  | (k, t) :: es, fuel + 1, first, r, hfuel => by
    have hended := ended_printMembers q es r
    rw [printMembers, List.length_append, List.length_append, List.length_cons,
      List.length_append] at hfuel
    have htree := readTree_print h t fuel (printMembers q false es ++ r) (by omega) hended
    have hmembers := readMembers_print h es fuel false r (by omega)
    have hname : (after '"' (quoted q k ++ (':' :: (print q t ++ (printMembers q false es ++ r))))).bind
        (fun rest => (unquote rest).bind fun name => (after ':' name.2).bind fun rest =>
          (readTree unquote fuel rest).bind fun p =>
          (readMembers unquote fuel false p.2).map fun m => ((name.1, p.1) :: m.1, m.2)) =
        some ((k, t) :: es, r) := by
      rw [after_quoted, Option.bind_some, h, Option.bind_some, after_self _ (by decide),
        Option.bind_some, htree, Option.bind_some, hmembers]
      rfl
    rw [printMembers, List.append_assoc, List.append_assoc, List.cons_append, List.append_assoc,
      readMembers]
    cases first with
    | true =>
      have hopen : after '}' (quoted q k ++ (':' :: (print q t ++ (printMembers q false es ++ r)))) =
          none := by
        unfold quoted
        rw [List.cons_append, after_cons _ (by decide), if_neg (by decide)]
      rw [if_pos rfl, List.nil_append, hopen]
      dsimp only
      rw [if_pos rfl, Option.bind_some]
      exact hname
    | false =>
      rw [if_neg Bool.false_ne_true, List.singleton_append, after_cons _ (by decide),
        if_neg (by decide)]
      dsimp only
      rw [if_neg Bool.false_ne_true, after_self _ (by decide), Option.bind_some]
      exact hname

end

end JsonText

/-
A string that is written reads back.

# Four forms, one contract

Each form is written by one function and read by another. The contract
between the two is the same throughout: in front of any text that does not
go on with a mark, the reader gives back the string and that text
(`readBasic_escapeText`, `readLiteral_append`,
`readBasicLines_escapeText`, `readLiteralLines_append`). What the forms
need of a string is what the writer has tested before it takes one, so
`readString_writeChars` has no condition.

# Marks at the end

Between tripled marks a string may end in marks of its own, up to two, and
the closing ones are then the LAST three of up to five. The readers look
for them at every character. Both inductions therefore go through marks
with a disjunction: in front of a mark of the string the reader either sees
no end yet, or it sees the end and takes the rest of the string with it.
-/
import AdditiveDetail.Toml.Text

namespace AdditiveDetail.Toml

variable {s rest : List Char} {c mark : Char} {run : Nat} {lines : Bool}

-- =================================================================== escapes

theorem withChar_some : withChar c (some (s, rest)) = some (c :: s, rest) :=
  rfl

theorem isPrintable_of_not_needsEscape (h : needsEscape c = false)
    (hn : c ≠ '\n') : isPrintable c := by
  unfold needsEscape at h
  unfold isPrintable
  by_cases ht : c = '\t'
  · simp [ht]
  · simpa [ht, hn] using h

/-- The four digits of a control character are its number. -/
theorem scalar?_fourDigits (h : isControl c) :
    scalar? (fourDigits c.toNat) = some c := by
  have digits : ∀ n < 128, scalar? (fourDigits n) = some (Char.ofNat n) := by
    decide +kernel
  have hc : c.toNat < 128 := by
    unfold isControl at h
    simp only [Bool.or_eq_true, decide_eq_true_eq] at h
    omega
  rw [digits _ hc, Char.ofNat_toNat]

/-- An escape sequence of a character: a backslash, then something that
does not end the line and reads as the character. -/
structure Escapes (c : Char) (written : List Char) : Prop where
  exists_eq : ∃ e es, written = '\\' :: e :: es ∧
    (isBlank e = false ∧ e ≠ '\n' ∧ e ≠ '\r') ∧
    ∀ rest, readEscape (e :: es ++ rest) = some (c, rest)

/-- A letter behind a backslash. -/
theorem Escapes.letter {e : Char} (h : escaped? e = some c)
    (hr : ∀ rest, readEscape (e :: rest) = (escaped? e).map (·, rest)) :
    Escapes c ['\\', e] := by
  refine ⟨e, [], rfl, ?_, fun rest => ?_⟩
  · refine ⟨Bool.eq_false_iff.2 fun hb => ?_, ?_, ?_⟩
    · simp only [isBlank, Bool.or_eq_true, decide_eq_true_eq] at hb
      rcases hb with rfl | rfl <;> cases h
    · rintro rfl
      cases h
    · rintro rfl
      cases h
  · rw [List.cons_append, hr, h]
    rfl

/-- A character that stands for itself wherever an escape may stand. -/
structure Plain (c : Char) : Prop where
  printable : isPrintable c
  ne_backslash : c ≠ '\\'
  ne_newline : c ≠ '\n'
  ne_return : c ≠ '\r'

/-- What is written for a character. -/
theorem escape_cases (lines : Bool) (c : Char) :
    (escape lines c = [c] ∧ Plain c) ∨
      (lines ∧ c = '\n' ∧ escape lines c = ['\n']) ∨
      Escapes c (escape lines c) := by
  unfold escape
  split
  · next h => exact h ▸ .inr (.inr (.letter rfl fun _ => rfl))
  split
  · next h => exact h ▸ .inr (.inr (.letter rfl fun _ => rfl))
  split
  · next h =>
      subst h
      cases lines with
      | true => exact .inr (.inl ⟨rfl, rfl, rfl⟩)
      | false => exact .inr (.inr (.letter rfl fun _ => rfl))
  split
  · next h => exact h ▸ .inr (.inr (.letter rfl fun _ => rfl))
  split
  · next h => exact h ▸ .inr (.inr (.letter rfl fun _ => rfl))
  split
  · next h =>
      subst h
      exact .inr (.inr (.letter rfl fun _ => rfl))
  split
  · next h =>
      refine .inr (.inr ⟨'u', fourDigits c.toNat, rfl, by decide,
        fun rest => ?_⟩)
      exact congrArg (Option.map (·, rest)) (scalar?_fourDigits h)
  · next hb ht hn hf hr hs hc =>
      exact .inl ⟨rfl, by simp [isPrintable, hc], hs, hn, hr⟩

/-- What is written for a character that is escaped, or that is no mark,
does not start with a mark, nor with the end of a line that is not the
character. -/
theorem exists_escapeText_cons (lines : Bool) {free run : Nat} {c : Char}
    (h : c ≠ '"' ∨ free ≤ run) (s : List Char) :
    ∃ d ds, escapeText lines free run (c :: s) = d :: ds ∧
      d ≠ '"' ∧ d ≠ '\r' ∧ (d = '\n' → c = '\n') := by
  rw [escapeText]
  split
  · next hc =>
      rw [if_neg (Nat.not_lt.2 (h.resolve_left (not_not_intro hc)))]
      exact ⟨_, _, rfl, by decide, by decide,
        fun h => absurd h (by decide)⟩
  · next hc =>
      rcases escape_cases lines c with ⟨he, hp⟩ | ⟨-, rfl, he⟩ | he
      · exact ⟨_, _, by rw [he]; rfl, hc, hp.ne_return, id⟩
      · exact ⟨_, _, by rw [he]; rfl, by decide, by decide, fun _ => rfl⟩
      · obtain ⟨e, es, he, -⟩ := he.exists_eq
        rw [he]
        exact ⟨_, _, rfl, by decide, by decide, fun h => absurd h (by decide)⟩

-- ================================================================== one line

theorem readBasic_plain (h : Plain c) (hq : c ≠ '"') :
    readBasic (c :: s) = withChar c (readBasic s) := by
  rw [readBasic]
  · rw [if_pos h.printable]
  · exact hq
  · exact h.ne_backslash

theorem readBasic_escapes {written : List Char} (h : Escapes c written) :
    readBasic (written ++ s) = withChar c (readBasic s) := by
  obtain ⟨e, es, rfl, -, hr⟩ := h.exists_eq
  rw [List.cons_append, readBasic]
  split
  · next c' s' h' =>
      rw [hr, Option.some.injEq, Prod.mk.injEq] at h'
      rw [h'.1, h'.2]
  · next h' =>
      rw [hr] at h'
      cases h'

theorem readBasic_escapeText (run : Nat) (s rest : List Char) :
    readBasic (escapeText false 0 run s ++ '"' :: rest) = some (s, rest) := by
  induction s generalizing run with
  | nil => rw [escapeText, List.nil_append, readBasic]
  | cons c s ih =>
      rw [escapeText]
      split
      · next h =>
          subst h
          rw [if_neg (Nat.not_lt_zero run)]
          have : Escapes '"' ['\\', '"'] := .letter rfl fun _ => rfl
          change readBasic (['\\', '"'] ++ (_ ++ _)) = _
          rw [readBasic_escapes this, ih, withChar_some]
      · next h =>
          rw [List.append_assoc]
          rcases escape_cases false c with ⟨he, hc⟩ | ⟨hl, -⟩ | he
          · rw [he, List.singleton_append, readBasic_plain hc h, ih,
              withChar_some]
          · cases hl
          · rw [readBasic_escapes he, ih, withChar_some]

theorem readLiteral_append
    (h : ∀ c ∈ s, isPrintable c ∧ c ≠ '\'') (rest : List Char) :
    readLiteral (s ++ '\'' :: rest) = some (s, rest) := by
  induction s with
  | nil => rw [List.nil_append, readLiteral]
  | cons c s ih =>
      obtain ⟨⟨hp, hc⟩, hs⟩ := List.forall_mem_cons.1 h
      rw [List.cons_append, readLiteral, if_pos hp, ih hs, withChar_some]
      exact hc

-- ============================================================== closing marks

theorem closing?_of_ne (h : c ≠ mark) : closing? mark (c :: s) = none := by
  unfold closing?
  split
  · next h' =>
      cases h'
      rw [if_neg fun h' => h h'.1]
  · rfl

theorem closing?_one (h : c ≠ mark) :
    closing? mark (mark :: c :: s) = none := by
  unfold closing?
  split
  · next h' =>
      cases h'
      rw [if_neg fun h' => h h'.2.1]
  · rfl

theorem closing?_two (h : c ≠ mark) :
    closing? mark (mark :: mark :: c :: s) = none :=
  if_neg fun h' => h h'.2.2

/-- The end of a string that ends in `n` marks of its own. -/
theorem closing?_end (h : c ≠ mark) {n : Nat} (hn : n ≤ 2) :
    closing? mark (List.replicate n mark ++ mark :: mark :: mark :: c :: s)
      = some (List.replicate n mark, c :: s) := by
  have : n = 0 ∨ n = 1 ∨ n = 2 := by omega
  rcases this with rfl | rfl | rfl
  · cases s <;> simp [closing?, h]
  · simp [closing?, h]
  · simp [closing?]

-- ================================================================= many lines

theorem readBasicLines_closing {found : List Char × List Char}
    (h : closing? '"' s = some found) : readBasicLines s = some found := by
  rw [readBasicLines.eq_def, h]

theorem readBasicLines_plain (hc : Plain c)
    (hq : closing? '"' (c :: s) = none) :
    readBasicLines (c :: s) = withChar c (readBasicLines s) := by
  rw [readBasicLines.eq_def, hq]
  simp only
  split
  · next h => cases h
  · next h => exact absurd (List.cons.inj h).1 hc.ne_return
  · next h => exact absurd (List.cons.inj h).1 hc.ne_newline
  · next h => exact absurd (List.cons.inj h).1 hc.ne_backslash
  · next h =>
      cases h
      rw [if_pos hc.printable]

theorem readBasicLines_mark (h : closing? '"' ('"' :: s) = none) :
    readBasicLines ('"' :: s) = withChar '"' (readBasicLines s) :=
  readBasicLines_plain ⟨by decide, by decide, by decide, by decide⟩ h

theorem readBasicLines_newline :
    readBasicLines ('\n' :: s) = withChar '\n' (readBasicLines s) := by
  have : '\n' ≠ '"' := by decide
  simp only [readBasicLines.eq_def ('\n' :: s), closing?_of_ne this]

theorem readBasicLines_escapes {written : List Char}
    (h : Escapes c written) :
    readBasicLines (written ++ s) = withChar c (readBasicLines s) := by
  obtain ⟨e, es, rfl, ⟨hb, hn, hr⟩, hread⟩ := h.exists_eq
  have hline : endsLine (e :: es ++ s) = false := by
    unfold endsLine
    rw [List.cons_append, List.dropWhile_cons, hb, if_neg (by decide)]
    split
    · next h => exact absurd (List.cons.inj h).1 hn
    · next h => exact absurd (List.cons.inj h).1 hr
    · rfl
  rw [List.cons_append, readBasicLines.eq_def, closing?_of_ne (by decide)]
  simp only [hline, Bool.false_eq_true, if_false]
  split
  · next h' =>
      rw [hread, Option.some.injEq, Prod.mk.injEq] at h'
      rw [h'.1, h'.2]
  · next h' =>
      rw [hread] at h'
      cases h'

/-- In front of a mark of the string, the reader sees no end yet or sees
it. -/
theorem closing?_escapeText (hd : c ≠ '"') (hrun : run < 2)
    (s rest : List Char) :
    closing? '"' ('"' :: (escapeText true 2 (run + 1) s
        ++ '"' :: '"' :: '"' :: c :: rest)) = none ∨
      closing? '"' ('"' :: (escapeText true 2 (run + 1) s
        ++ '"' :: '"' :: '"' :: c :: rest)) = some ('"' :: s, c :: rest) := by
  cases s with
  | nil => exact .inr (closing?_end (n := 1) hd (by decide))
  | cons a s =>
      by_cases ha : a = '"' ∧ run + 1 < 2
      · rw [escapeText, if_pos ha.1, if_pos ha.2, ha.1]
        cases s with
        | nil => exact .inr (closing?_end (n := 2) hd (by decide))
        | cons b s =>
            obtain ⟨d, ds, h, hd, -⟩ := exists_escapeText_cons true (c := b)
              (.inr (show 2 ≤ run + 1 + 1 by omega)) s
            rw [h]
            exact .inl (closing?_two hd)
      · have ha : a ≠ '"' ∨ 2 ≤ run + 1 := by
          rcases Decidable.not_and_iff_not_or_not.1 ha with h | h
          · exact .inl h
          · exact .inr (Nat.not_lt.1 h)
        obtain ⟨d, ds, h, hd, -⟩ := exists_escapeText_cons true ha s
        rw [h]
        exact .inl (closing?_one hd)

theorem readBasicLines_escapeText (hd : c ≠ '"') (hrun : run ≤ 2) :
    readBasicLines (escapeText true 2 run s ++ '"' :: '"' :: '"' :: c :: rest)
      = some (s, c :: rest) := by
  induction s generalizing run with
  | nil => exact readBasicLines_closing (closing?_end (n := 0) hd (by decide))
  | cons a s ih =>
      rw [escapeText]
      split
      · next ha =>
          subst ha
          split
          · next hlt =>
              rcases closing?_escapeText hd hlt s rest with h | h
              · rw [List.cons_append, readBasicLines_mark h, ih hlt,
                  withChar_some]
              · exact readBasicLines_closing h
          · have : Escapes '"' ['\\', '"'] := .letter rfl fun _ => rfl
            change readBasicLines (['\\', '"'] ++ (_ ++ _)) = _
            rw [readBasicLines_escapes this, ih (Nat.zero_le 2),
              withChar_some]
      · next ha =>
          rw [List.append_assoc]
          rcases escape_cases true a with ⟨he, hp⟩ | ⟨-, rfl, he⟩ | he
          · rw [he, List.singleton_append,
              readBasicLines_plain hp (closing?_of_ne ha),
              ih (Nat.zero_le 2), withChar_some]
          · rw [he, List.singleton_append, readBasicLines_newline,
              ih (Nat.zero_le 2), withChar_some]
          · rw [readBasicLines_escapes he, ih (Nat.zero_le 2),
              withChar_some]

-- ====================================================================== runs

theorem le_longestRun (mark : Char) (s : List Char) (run : Nat) :
    run ≤ longestRun mark run s := by
  induction s generalizing run with
  | nil => exact Nat.le_refl run
  | cons c s ih =>
      rw [longestRun]
      split
      · exact Nat.le_trans (Nat.le_succ run) (ih (run + 1))
      · exact Nat.le_max_left _ _

/-- A run that is bounded leaves the rest bounded, whatever its first
character. -/
theorem longestRun_cons {n : Nat} (h : longestRun mark run (c :: s) ≤ n) :
    (c = mark ∧ run + 1 ≤ n ∧ longestRun mark (run + 1) s ≤ n) ∨
      (c ≠ mark ∧ longestRun mark 0 s ≤ n) := by
  rw [longestRun] at h
  split at h
  · next hc => exact .inl ⟨hc, Nat.le_trans (le_longestRun ..) h, h⟩
  · next hc => exact .inr ⟨hc, Nat.le_trans (Nat.le_max_right _ _) h⟩

theorem ne_of_longestRun_eq_zero (h : longestRun mark 0 s = 0) :
    ∀ c ∈ s, c ≠ mark := by
  induction s with
  | nil => simp
  | cons c s ih =>
      rcases longestRun_cons (Nat.le_of_eq h) with ⟨-, h, -⟩ | ⟨hc, h⟩
      · exact absurd h (Nat.not_succ_le_zero 0)
      · exact List.forall_mem_cons.2 ⟨hc, ih (Nat.le_zero.1 h)⟩

theorem readLiteralLines_closing {found : List Char × List Char}
    (h : closing? '\'' s = some found) : readLiteralLines s = some found := by
  rw [readLiteralLines.eq_def, h]

/-- A character that needs no escape stands for itself. -/
theorem readLiteralLines_cons (hc : needsEscape c = false)
    (h : closing? '\'' (c :: s) = none) :
    readLiteralLines (c :: s) = withChar c (readLiteralLines s) := by
  rw [readLiteralLines.eq_def, h]
  simp only
  split
  · next h => cases h
  · next h =>
      obtain rfl := (List.cons.inj h).1
      exact absurd hc (by decide)
  · next h => rw [(List.cons.inj h).1, (List.cons.inj h).2]
  · next hn h =>
      cases h
      rw [if_pos (isPrintable_of_not_needsEscape hc hn)]

/-- In front of a mark of the string, the reader sees no end yet or sees
it. -/
theorem closing?_mark (hd : c ≠ mark)
    (h : longestRun mark (run + 1) s ≤ 2) (rest : List Char) :
    closing? mark (mark :: (s ++ mark :: mark :: mark :: c :: rest)) = none ∨
      closing? mark (mark :: (s ++ mark :: mark :: mark :: c :: rest))
        = some (mark :: s, c :: rest) := by
  cases s with
  | nil => exact .inr (closing?_end (n := 1) hd (by decide))
  | cons a s =>
      rcases longestRun_cons h with ⟨rfl, -, h⟩ | ⟨ha, -⟩
      · cases s with
        | nil => exact .inr (closing?_end (n := 2) hd (by decide))
        | cons b s =>
            rcases longestRun_cons h with ⟨-, h, -⟩ | ⟨hb, -⟩
            · omega
            · exact .inl (closing?_two hb)
      · exact .inl (closing?_one ha)

theorem readLiteralLines_append (hd : c ≠ '\'')
    (hs : ∀ a ∈ s, needsEscape a = false)
    (h : longestRun '\'' run s ≤ 2) :
    readLiteralLines (s ++ '\'' :: '\'' :: '\'' :: c :: rest)
      = some (s, c :: rest) := by
  induction s generalizing run with
  | nil =>
      exact readLiteralLines_closing (closing?_end (n := 0) hd (by decide))
  | cons a s ih =>
      obtain ⟨ha, htail⟩ := List.forall_mem_cons.1 hs
      rw [List.cons_append]
      rcases longestRun_cons h with ⟨rfl, -, h⟩ | ⟨hne, h⟩
      · rcases closing?_mark hd h rest with h' | h'
        · rw [readLiteralLines_cons ha h', ih htail h, withChar_some]
        · exact readLiteralLines_closing h'
      · rw [readLiteralLines_cons ha (closing?_of_ne hne), ih htail h,
          withChar_some]

-- =============================================================== the contract

/-- The end of a line in front of a string of many lines is no part of it,
and none is taken from the string. -/
theorem skipFirstEnd_firstEnd {s written : List Char}
    (h : ∀ rest, written ≠ '\r' :: '\n' :: rest)
    (hn : ∀ rest, written = '\n' :: rest → '\n' ∈ s) :
    skipFirstEnd (firstEnd s ++ written) = written := by
  unfold firstEnd
  split
  · rfl
  · next hs =>
      rw [List.nil_append]
      unfold skipFirstEnd
      split
      · exact absurd rfl (h _)
      · exact absurd (hn _ rfl) (by simpa using hs)
      · rfl

/-- One mark that no two more follow opens a string on one line. -/
theorem readString_basic (h : ∀ t, s ≠ '"' :: '"' :: t) :
    readString ('"' :: s) = readBasic s := by
  unfold readString
  split
  · next h' => exact absurd (List.cons.inj h').2 (h _)
  · next h' => cases h'
  · next h' => rw [(List.cons.inj h').2]
  · next h' => cases h'
  · next h' _ => exact absurd rfl (h' s)

theorem readString_literal (h : ∀ t, s ≠ '\'' :: '\'' :: t) :
    readString ('\'' :: s) = readLiteral s := by
  unfold readString
  split
  · next h' => cases h'
  · next h' => exact absurd (List.cons.inj h').2 (h _)
  · next h' => cases h'
  · next h' => rw [(List.cons.inj h').2]
  · next h' => exact absurd rfl (h' s)

theorem readString_writeBasic (hd : c ≠ '"') :
    readString (writeBasic s ++ c :: rest) = some (s, c :: rest) := by
  have hread := readBasic_escapeText 0 s (c :: rest)
  unfold writeBasic
  rw [List.cons_append, List.cons_append, List.append_assoc,
    List.singleton_append, readString_basic, hread]
  intro t h
  cases s with
  | nil => exact hd (List.cons.inj (List.cons.inj h).2).1
  | cons a s =>
      obtain ⟨d, ds, h', hd, -⟩ := exists_escapeText_cons false (c := a)
        (.inr (Nat.le_refl 0)) s
      rw [h'] at h
      exact hd (List.cons.inj h).1

theorem readString_writeLiteral (hd : c ≠ '\'')
    (hs : ∀ a ∈ s, isPrintable a ∧ a ≠ '\'') :
    readString (writeLiteral s ++ c :: rest) = some (s, c :: rest) := by
  unfold writeLiteral
  rw [List.cons_append, List.cons_append, List.append_assoc,
    List.singleton_append, readString_literal,
    readLiteral_append hs (c :: rest)]
  intro t h
  cases s with
  | nil => exact hd (List.cons.inj (List.cons.inj h).2).1
  | cons a s => exact (hs a List.mem_cons_self).2 (List.cons.inj h).1

theorem readString_writeBasicLines (hd : c ≠ '"') :
    readString (writeBasicLines s ++ c :: rest) = some (s, c :: rest) := by
  -- the first character between the marks is the end of a line only if the
  -- string starts with it
  have hfirst : ∃ d ds, escapeText true 2 0 s ++ '"' :: '"' :: '"' :: c :: rest
      = d :: ds ∧ d ≠ '\r' ∧ (d = '\n' → '\n' ∈ s) := by
    cases s with
    | nil => exact ⟨_, _, rfl, by decide, fun h => absurd h (by decide)⟩
    | cons a s =>
        by_cases ha : a = '"'
        · subst ha
          exact ⟨_, _, rfl, by decide, fun h => absurd h (by decide)⟩
        · obtain ⟨d, ds, h, -, hr, hn⟩ := exists_escapeText_cons true
            (.inl ha : _ ∨ 2 ≤ 0) s
          exact ⟨d, _, by rw [h]; rfl, hr, fun h => by simp [hn h]⟩
  obtain ⟨d, ds, hfirst, hr, hn⟩ := hfirst
  unfold writeBasicLines
  simp only [List.append_assoc, List.cons_append, List.nil_append]
  rw [readString, skipFirstEnd_firstEnd,
    readBasicLines_escapeText hd (Nat.zero_le 2)]
  · intro t h
    exact hr (List.cons.inj (hfirst.symm.trans h)).1
  · intro t h
    exact hn (List.cons.inj (hfirst.symm.trans h)).1

theorem readString_writeLiteralLines (hd : c ≠ '\'')
    (hs : ∀ a ∈ s, needsEscape a = false) (h : longestRun '\'' 0 s ≤ 2) :
    readString (writeLiteralLines s ++ c :: rest) = some (s, c :: rest) := by
  unfold writeLiteralLines
  simp only [List.append_assoc, List.cons_append, List.nil_append]
  rw [readString, skipFirstEnd_firstEnd, readLiteralLines_append hd hs h]
  · intro t h
    cases s with
    | nil => exact absurd (List.cons.inj h).1 (by decide)
    | cons a s =>
        have := hs a List.mem_cons_self
        rw [(List.cons.inj h).1] at this
        exact absurd this (by decide)
  · intro t h
    cases s with
    | nil => exact absurd (List.cons.inj h).1 (by decide)
    | cons a s => exact (List.cons.inj h).1 ▸ List.mem_cons_self

/-- What is written for a string starts with a mark. -/
theorem exists_writeChars_eq (s : List Char) :
    ∃ written, writeChars s = '"' :: written ∨
      writeChars s = '\'' :: written := by
  unfold writeChars
  simp only
  split
  · exact ⟨_, .inl rfl⟩
  split
  · exact ⟨_, .inr rfl⟩
  split
  · exact ⟨_, .inl rfl⟩
  split
  · exact ⟨_, .inr rfl⟩
  split
  · exact ⟨_, .inl rfl⟩
  · exact ⟨_, .inl rfl⟩

/-- A string reads back from what is written for it, in front of anything
that does not go on with a mark. -/
theorem readString_writeChars (hb : c ≠ '"') (hl : c ≠ '\'') :
    readString (writeChars s ++ c :: rest) = some (s, c :: rest) := by
  have plain (h : (!s.any needsEscape) = true) :
      ∀ a ∈ s, needsEscape a = false := by
    simpa using h
  unfold writeChars
  simp only
  split
  · exact readString_writeBasic hb
  split
  · next h =>
      simp only [Bool.and_eq_true, decide_eq_true_eq, Bool.not_eq_true',
        List.contains_eq_mem, decide_eq_false_iff_not] at h
      obtain ⟨⟨hc, hq⟩, hn⟩ := h
      refine readString_writeLiteral hl fun a ha => ⟨?_, ?_⟩
      · exact isPrintable_of_not_needsEscape (plain (by simpa using hc) a ha)
          fun h => hn (h ▸ ha)
      · exact ne_of_longestRun_eq_zero hq a ha
  split
  · exact readString_writeBasicLines hb
  split
  · next h =>
      simp only [Bool.and_eq_true, decide_eq_true_eq] at h
      exact readString_writeLiteralLines hl (plain h.1) h.2
  split
  · exact readString_writeBasicLines hb
  · exact readString_writeBasic hb

end AdditiveDetail.Toml

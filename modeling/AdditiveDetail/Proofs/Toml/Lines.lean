/-
Lines of a plain document, read one by one.

A line gives a `Leaf` to a bare key; a header stands on a line of its own
behind a blank one. This is what a writer of settings produces, and
`readsTo_lines` and `readsTo_headerLine` say what the reader of documents
makes of it.

# Reading without a bound

The reader of lines counts down a bound that it never reaches.
`ReadsTo` says what is read from some text under ANY bound greater than
its length; a line takes one character at least, so the step lemmas for a
line, a header and the end of the document need no arithmetic beyond that.

# Where a value ends

A leaf is read up to the end of its line and no further. For strings that
is the contract of their own reader, for words it is the first character
that ends one, so a leaf is told by its first character: a mark, or a
letter or digit (`Leaf.readValue_string`, `Leaf.readValue_word`).
-/
import AdditiveDetail.Proofs.Toml.Scalars
import AdditiveDetail.Proofs.Toml.Strings
import AdditiveDetail.RunConfig

namespace AdditiveDetail.Toml

-- one power on naturals, whatever else is imported
attribute [local instance(high)] instPowNat

open RunConfig (keyLine headerLine booleanText)

variable {c : Char} {cs rest : List Char} {key : String}

-- ==================================================================== leaves

/-- A value that a line of a plain document may hold. -/
inductive Leaf where
  | string (s : String)
  | boolean (b : Bool)
  | natural (n : Nat)

namespace Leaf

def text : Leaf → String
  | string s => writeString s
  | boolean b => booleanText b
  | natural n => toString n

def value : Leaf → Value
  | string s => .string s
  | boolean b => .boolean b
  | natural n => .integer n

/-- Numbers of 128 bits can be held. -/
def IsHeld : Leaf → Prop
  | natural n => n < 2 ^ (128 : Nat)
  | _ => True

theorem readValue_string (s : List Char) (depth bound : Nat) :
    readValue depth (bound + 1) (writeChars s ++ '\n' :: rest)
      = some (.string (String.ofList s), '\n' :: rest) := by
  have hread : readString (writeChars s ++ '\n' :: rest)
      = some (s, '\n' :: rest) :=
    readString_writeChars (by decide) (by decide)
  obtain ⟨cs, h | h⟩ := exists_writeChars_eq s
  · rw [h, List.cons_append] at hread ⊢
    rw [readValue, hread]
    rfl
  · rw [h, List.cons_append] at hread ⊢
    rw [readValue, hread]
    rfl

/-- A value that starts with a letter or digit is a word. -/
theorem readValue_word (hc : c.isAlphanum) (hcs : (c :: cs).all isWordChar)
    {v : Value} (hv : scalarValue? (c :: cs) = some v) (depth bound : Nat) :
    readValue depth (bound + 1) (c :: cs ++ '\n' :: rest)
      = some (v, '\n' :: rest) := by
  have hne (a : Char) (ha : a.isAlphanum = false) : c ≠ a := by
    rintro rfl
    rw [hc] at ha
    cases ha
  have hword : takeWord (c :: cs ++ '\n' :: rest) = (c :: cs, '\n' :: rest) :=
    takeWord_append (List.all_eq_true.1 hcs) (by decide) (by decide)
  rw [List.cons_append] at hword ⊢
  rw [readValue, hword]
  · simp only [hv, Option.map_some]
  · exact fun _ h => hne '[' rfl (List.cons.inj h).1
  · exact fun _ h => hne '\x7b' rfl (List.cons.inj h).1
  · exact fun _ h => hne '"' rfl (List.cons.inj h).1
  · exact fun _ h => hne '\'' rfl (List.cons.inj h).1

/-- A leaf that can be held reads back from its text. -/
theorem readValue_text {leaf : Leaf} (h : leaf.IsHeld) (depth bound : Nat) :
    readValue depth (bound + 1) (leaf.text.toList ++ '\n' :: rest)
      = some (leaf.value, '\n' :: rest) := by
  cases leaf with
  | string s =>
      simpa [text, value, writeString]
        using readValue_string s.toList depth bound
  | boolean b =>
      cases b with
      | true => exact readValue_word rfl (by decide) rfl depth bound
      | false => exact readValue_word rfl (by decide) rfl depth bound
  | natural n =>
      obtain ⟨c, cs, hw, hdigits⟩ := exists_digits n
      have hvalue := scalarValue?_natural h
      simp only [text, value]
      rw [hw] at hvalue ⊢
      exact readValue_word (by simp [Char.isAlphanum, hdigits c])
        (List.all_eq_true.2 fun a ha => isWordChar_of_isDigit (hdigits a ha))
        hvalue depth bound

/-- The text of a leaf does not start with a blank. -/
theorem exists_text_eq (leaf : Leaf) :
    ∃ c cs, leaf.text.toList = c :: cs ∧ isBlank c = false := by
  cases leaf with
  | string s =>
      obtain ⟨cs, h | h⟩ := exists_writeChars_eq s.toList
      · exact ⟨'"', cs, by simp [text, writeString, h], by decide⟩
      · exact ⟨'\'', cs, by simp [text, writeString, h], by decide⟩
  | boolean b =>
      cases b with
      | true => exact ⟨'t', "rue".toList, rfl, by decide⟩
      | false => exact ⟨'f', "alse".toList, rfl, by decide⟩
  | natural n =>
      obtain ⟨c, cs, hw, hdigits⟩ := exists_digits n
      refine ⟨c, cs, hw, Bool.eq_false_iff.2 fun hb => ?_⟩
      have hc := hdigits c List.mem_cons_self
      simp only [isBlank, Bool.or_eq_true, decide_eq_true_eq] at hb
      rcases hb with rfl | rfl <;> cases hc

end Leaf

-- ====================================================================== keys

/-- A key that needs no marks. -/
def IsBare (key : String) : Prop :=
  key.toList ≠ [] ∧ key.toList.all isKeyChar

instance (key : String) : Decidable (IsBare key) :=
  inferInstanceAs (Decidable (_ ∧ _))

theorem IsBare.forall_mem (h : IsBare key) : ∀ c ∈ key.toList, isKeyChar c :=
  List.all_eq_true.1 h.2

/-- No character that starts something else than a key is a character of
one. -/
theorem IsBare.exists_eq (h : IsBare key) :
    ∃ c cs, key.toList = c :: cs ∧ isBlank c = false ∧
      c ∉ "[]#\n\r\"\'\ufeff".toList := by
  obtain ⟨c, cs, hk⟩ := List.exists_cons_of_ne_nil h.1
  have hc : isKeyChar c := h.forall_mem c (by simp [hk])
  refine ⟨c, cs, hk, Bool.eq_false_iff.2 fun hb => ?_, fun hm => ?_⟩
  · simp only [isBlank, Bool.or_eq_true, decide_eq_true_eq] at hb
    rcases hb with rfl | rfl <;> cases hc
  · have hnone : "[]#\n\r\"\'\ufeff".toList.all (! isKeyChar ·) := by decide
    simpa [hc] using List.all_eq_true.1 hnone c hm

/-- A bare key ends at the first character that is none of a key. -/
theorem readKey_bare (h : IsBare key) (hc : isKeyChar c = false)
    (hpoint : ∀ t, skipBlanks (c :: rest) ≠ '.' :: t) :
    readKey (key.toList ++ c :: rest) = some ([key], c :: rest) := by
  have hpart : readKeyPart (key.toList ++ c :: rest)
      = some (key, c :: rest) := by
    obtain ⟨d, ds, hk, -, hd⟩ := h.exists_eq
    unfold readKeyPart
    split
    · next h' =>
        rw [hk] at h'
        rw [(List.cons.inj h').1] at hd
        exact absurd (by decide) hd
    · next h' =>
        rw [hk] at h'
        rw [(List.cons.inj h').1] at hd
        exact absurd (by decide) hd
    · simp only [List.takeWhile_append_of_pos h.forall_mem,
        List.dropWhile_append_of_pos h.forall_mem]
      simp [hc, h.1, String.ofList_toList]
  unfold readKey maxDepth
  rw [readKeyParts, hpart]
  simp only [Option.bind_eq_bind, Option.bind_some]

theorem IsBare.skipBlanks_append (h : IsBare key) (rest : List Char) :
    skipBlanks (key.toList ++ rest) = key.toList ++ rest := by
  obtain ⟨c, cs, hk, hc, -⟩ := h.exists_eq
  rw [hk]
  exact List.dropWhile_cons_of_neg (by simp [hc])

-- ===================================================================== lines

theorem toList_keyLine (key value : String) :
    (keyLine key value).toList ++ rest
      = key.toList ++ ' ' :: '=' :: ' ' :: (value.toList ++ '\n' :: rest) := by
  simp [keyLine]

theorem toList_headerLine (key : String) :
    (headerLine key).toList ++ rest
      = '\n' :: '[' :: (key.toList ++ ']' :: '\n' :: rest) := by
  simp [headerLine]

theorem readField_keyLine {leaf : Leaf} (hk : IsBare key) (hl : leaf.IsHeld)
    (bound : Nat) :
    readField (bound + 1) ((keyLine key leaf.text).toList ++ rest)
      = some ({ path := [key], value := leaf.value }, '\n' :: rest) := by
  obtain ⟨c, cs, htext, hc⟩ := leaf.exists_text_eq
  have hvalue : skipBlanks (' ' :: (leaf.text.toList ++ '\n' :: rest))
      = leaf.text.toList ++ '\n' :: rest := by
    rw [htext]
    rw [skipBlanks, List.dropWhile_cons_of_pos (by decide), List.cons_append,
      List.dropWhile_cons_of_neg (by simp [hc])]
  rw [toList_keyLine, readField,
    readKey_bare hk (by decide) (by simp [skipBlanks, isBlank])]
  change (do
    let x ← readValue maxDepth (bound + 1)
      (skipBlanks (' ' :: (leaf.text.toList ++ '\n' :: rest)))
    some (({ path := [key], value := x.1 } : Field), x.2)) = _
  rw [hvalue, Leaf.readValue_text hl]
  rfl

theorem readHeader_bare (hk : IsBare key) :
    readHeader (key.toList ++ ']' :: rest) = some (.table [key], rest) := by
  have hkey : readKey (key.toList ++ ']' :: rest)
      = some ([key], ']' :: rest) :=
    readKey_bare hk (by decide) (by simp [skipBlanks, isBlank])
  have hskip := hk.skipBlanks_append (']' :: rest)
  obtain ⟨c, cs, heq, -, hc⟩ := hk.exists_eq
  have hc : c ≠ '[' := by
    rintro rfl
    exact hc (by decide)
  rw [heq, List.cons_append] at hkey hskip ⊢
  unfold readHeader
  -- one bracket only, as a key does not start with another
  split
  next h =>
    split at h
    · next h' => exact absurd (List.cons.inj h').1 hc
    · cases h
      rw [hskip, hkey]
      rfl

/-- Keys with their leaves, in the order of their lines. -/
abbrev Lines := List (String × Leaf)

namespace Lines

def text (lines : Lines) : String :=
  String.join (lines.map fun l => keyLine l.1 l.2.text)

/-- The fields that are read from lines, the latest first. -/
def fields (lines : Lines) : List Field :=
  lines.reverse.map fun l => { path := [l.1], value := l.2.value }

variable {l : String × Leaf} {lines : Lines}

theorem text_cons :
    text (l :: lines) = keyLine l.1 l.2.text ++ text lines := by
  simp [text]

theorem fields_cons :
    fields (l :: lines)
      = fields lines ++ [{ path := [l.1], value := l.2.value }] := by
  simp [fields]

/-- Lines that can be written as they are, no key twice. -/
structure Proper (lines : Lines) : Prop where
  bare : ∀ l ∈ lines, IsBare l.1
  held : ∀ l ∈ lines, l.2.IsHeld
  distinct : (lines.map Prod.fst).Nodup

theorem Proper.nil : Proper [] where
  bare _ h := nomatch h
  held _ h := nomatch h
  distinct := List.nodup_nil

theorem Proper.cons (hb : IsBare key) {leaf : Leaf} (hl : leaf.IsHeld)
    (hnew : key ∉ lines.map Prod.fst) (h : lines.Proper) :
    Proper ((key, leaf) :: lines) where
  bare := List.forall_mem_cons.2 ⟨hb, h.bare⟩
  held := List.forall_mem_cons.2 ⟨hl, h.held⟩
  distinct := List.nodup_cons.2 ⟨hnew, h.distinct⟩

/-- Some of the lines can be written if all of them can. -/
theorem Proper.sublist {some all : Lines} (h : all.Proper)
    (hs : List.Sublist some all) : some.Proper where
  bare l hl := h.bare l (hs.subset hl)
  held l hl := h.held l (hs.subset hl)
  distinct := h.distinct.sublist (hs.map Prod.fst)

end Lines

-- =================================================================== reading

/-- What is read from text that follows the fields of a section, whatever
bound is counted down. -/
def ReadsTo (t : Entries) (present : Section) (s : List Char)
    (u : Entries) : Prop :=
  ∀ bound, s.length < bound → readLines bound t present s = some u

variable {t t' u : Entries} {present : Section}

theorem readsTo_nil (h : t.addSection present = some u) :
    ReadsTo t present [] u := by
  intro bound hbound
  obtain ⟨bound, rfl⟩ := Nat.exists_eq_add_of_lt hbound
  exact h

theorem readsTo_keyLine {leaf : Leaf} (hk : IsBare key) (hl : leaf.IsHeld)
    (h : ReadsTo t { present with
      fields := { path := [key], value := leaf.value } :: present.fields }
      rest u) :
    ReadsTo t present ((keyLine key leaf.text).toList ++ rest) u := by
  intro bound hbound
  have hlength : rest.length + 1
      < ((keyLine key leaf.text).toList ++ rest).length := by
    rw [toList_keyLine]
    simp only [List.length_append, List.length_cons]
    omega
  obtain ⟨bound, rfl⟩ : ∃ b, bound = b + 2 := ⟨bound - 2, by omega⟩
  have hskip := hk.skipBlanks_append
    (' ' :: '=' :: ' ' :: (leaf.text.toList ++ '\n' :: rest))
  rw [← toList_keyLine] at hskip
  have hfirst {c cs} (hs : (keyLine key leaf.text).toList ++ rest = c :: cs) :
      c ∉ "[]#\n\r\"\'\ufeff".toList := by
    obtain ⟨d, ds, heq, -, hd⟩ := hk.exists_eq
    rw [toList_keyLine, heq] at hs
    exact (List.cons.inj hs).1 ▸ hd
  rw [readLines]
  split
  · next hs =>
      rw [hskip.symm.trans hs] at hlength
      exact absurd hlength (Nat.not_lt_zero _)
  · next hs => exact absurd (by decide) (hfirst (hskip.symm.trans hs))
  · next c cs _ hs =>
      rw [hskip] at hs
      have hc := hfirst hs
      rw [if_neg, ← hs, show 2 * (bound + 1) = 2 * bound + 1 + 1 by omega,
        readField_keyLine hk hl]
      · exact h (bound + 1) (by omega)
      · rintro (rfl | rfl | rfl) <;> exact hc (by decide)

theorem readsTo_headerLine (hk : IsBare key)
    (ht : t.addSection present = some t')
    (h : ReadsTo t' { header := .table [key], fields := [] } rest u) :
    ReadsTo t present ((headerLine key).toList ++ rest) u := by
  intro bound hbound
  rw [toList_headerLine] at hbound ⊢
  simp only [List.length_cons, List.length_append] at hbound
  obtain ⟨bound, rfl⟩ : ∃ b, bound = b + 2 := ⟨bound - 2, by omega⟩
  -- the blank line, then the header itself
  change readLines (bound + 1) t present
    ('[' :: (key.toList ++ ']' :: '\n' :: rest)) = some u
  change (do
    let x ← readHeader (key.toList ++ ']' :: '\n' :: rest)
    let t ← t.addSection present
    readLines bound t { header := x.1, fields := [] }
      (← finishLine x.2)) = some u
  rw [readHeader_bare hk, ht]
  exact h bound (by omega)

/-- The lines of a section are its fields. -/
theorem readsTo_lines {lines : Lines} (hb : ∀ l ∈ lines, IsBare l.1)
    (hl : ∀ l ∈ lines, l.2.IsHeld)
    (h : ReadsTo t { present with fields := lines.fields ++ present.fields }
      rest u) :
    ReadsTo t present (lines.text.toList ++ rest) u := by
  induction lines generalizing present with
  | nil => exact h
  | cons l lines ih =>
      obtain ⟨hkey, hb⟩ := List.forall_mem_cons.1 hb
      obtain ⟨hleaf, hl⟩ := List.forall_mem_cons.1 hl
      rw [Lines.text_cons, String.toList_append, List.append_assoc]
      refine readsTo_keyLine hkey hleaf (ih hb hl ?_)
      rwa [Lines.fields_cons, List.append_assoc] at h

end AdditiveDetail.Toml

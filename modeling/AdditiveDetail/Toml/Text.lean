/-
The strings of TOML, read and written. There are four forms: between
quotation marks, where a backslash escapes, and between apostrophes,
where nothing does, each on one line or, with the mark tripled, on many.

# Which form is written

The plainest form that needs no escape is taken: quotation marks, then
apostrophes, then either of them tripled. Text that has control
characters, or that none of these can hold, is escaped. A tab is escaped
wherever escapes are read, but never the reason for a form.
-/

namespace AdditiveDetail

namespace Toml

-- ================================================================ characters

/-- A control character: none of these stands for itself in a document,
save the tab and the ends of lines. -/
def isControl (c : Char) : Bool := c.toNat < 0x20 || c.toNat = 0x7F

/-- A character that may stand in a string or a comment. -/
def isPrintable (c : Char) : Bool := c = '\t' || !isControl c

def isBlank (c : Char) : Bool := c = ' ' || c = '\t'

/-- The value of a hexadecimal digit of either case. -/
def hexValue? (c : Char) : Option Nat :=
  if '0' ≤ c ∧ c ≤ '9' then some (c.toNat - '0'.toNat)
  else if 'a' ≤ c ∧ c ≤ 'f' then some (c.toNat - 'a'.toNat + 10)
  else if 'A' ≤ c ∧ c ≤ 'F' then some (c.toNat - 'A'.toNat + 10)
  else none

/-- The character with the number that these hexadecimal digits give. A
number that belongs to no character is refused. -/
def scalar? (digits : List Char) : Option Char := do
  let n ← digits.foldlM (fun n c => do return 16 * n + (← hexValue? c)) 0
  if n.isValidChar then some (Char.ofNat n) else none

/-- The character that one letter behind a backslash means. -/
def escaped? : Char → Option Char
  | 'b' => some '\x08'
  | 't' => some '\t'
  | 'n' => some '\n'
  | 'f' => some '\x0c'
  | 'r' => some '\r'
  | 'e' => some '\x1b'
  | '"' => some '"'
  | '\\' => some '\\'
  | _ => none

/-- Read what stands behind a backslash. -/
def readEscape : List Char → Option (Char × List Char)
  | 'x' :: a :: b :: rest => (scalar? [a, b]).map (·, rest)
  | 'u' :: a :: b :: c :: d :: rest => (scalar? [a, b, c, d]).map (·, rest)
  | 'U' :: a :: b :: c :: d :: e :: f :: g :: h :: rest =>
      (scalar? [a, b, c, d, e, f, g, h]).map (·, rest)
  | c :: rest => (escaped? c).map (·, rest)
  | [] => none

/-- An escape takes at least one character. -/
theorem readEscape_length {s rest : List Char} {c : Char}
    (h : readEscape s = some (c, rest)) : rest.length < s.length := by
  unfold readEscape at h
  split at h <;> simp only [Option.map_eq_some_iff, Prod.mk.injEq,
    reduceCtorEq] at h <;> obtain ⟨_, _, _, rfl⟩ := h <;>
    simp only [List.length_cons] <;> omega

-- =================================================================== reading

/-- Put a character before the string that has been read. -/
def withChar (c : Char) (r : Option (List Char × List Char)) :
    Option (List Char × List Char) :=
  r.map fun (s, rest) => (c :: s, rest)

/-- Read a string up to its closing quotation mark. -/
def readBasic (s : List Char) : Option (List Char × List Char) :=
  match s with
  | [] => none
  | '"' :: rest => some ([], rest)
  | '\\' :: rest =>
      match _h : readEscape rest with
      | some (c, rest') => withChar c (readBasic rest')
      | none => none
  | c :: rest => if isPrintable c then withChar c (readBasic rest) else none
termination_by s.length
decreasing_by
  · have := readEscape_length _h
    simp only [List.length_cons]
    omega
  · simp

/-- Read a string up to its closing apostrophe. -/
def readLiteral : List Char → Option (List Char × List Char)
  | [] => none
  | '\'' :: rest => some ([], rest)
  | c :: rest => if isPrintable c then withChar c (readLiteral rest) else none

/-- The end of a string between tripled marks, if this is it. Up to two
marks before the closing ones belong to the string. -/
def closing? (mark : Char) : List Char → Option (List Char × List Char)
  | a :: b :: c :: rest =>
      if a = mark ∧ b = mark ∧ c = mark then
        match rest with
        | d :: e :: rest' =>
            if d = mark ∧ e = mark then some ([mark, mark], rest')
            else if d = mark then some ([mark], e :: rest')
            else some ([], rest)
        | [d] => if d = mark then some ([mark], []) else some ([], rest)
        | [] => some ([], [])
      else none
  | _ => none

/-- Whether a line ends here, behind nothing but blanks. -/
def endsLine (s : List Char) : Bool :=
  match s.dropWhile isBlank with
  | '\n' :: _ => true
  | '\r' :: '\n' :: _ => true
  | _ => false

/-- What is left when blanks and ends of lines are skipped. -/
def skipLines : List Char → List Char
  | '\r' :: '\n' :: rest => skipLines rest
  | c :: rest =>
      if isBlank c || c = '\n' then skipLines rest else c :: rest
  | [] => []

theorem skipLines_length (s : List Char) :
    (skipLines s).length ≤ s.length := by
  fun_induction skipLines s with
  | case1 rest ih => simp only [List.length_cons]; omega
  | case2 c rest _ _ ih => simp only [List.length_cons]; omega
  | case3 c rest _ _ => exact Nat.le_refl _
  | case4 => exact Nat.le_refl _

/-- Read a string of many lines up to its closing quotation marks. A
backslash at the end of a line joins the text of the next line to it. -/
def readBasicLines (s : List Char) : Option (List Char × List Char) :=
  match closing? '"' s with
  | some found => some found
  | none =>
      match s with
      | [] => none
      | '\r' :: '\n' :: rest =>
          withChar '\r' (withChar '\n' (readBasicLines rest))
      | '\n' :: rest => withChar '\n' (readBasicLines rest)
      | '\\' :: rest =>
          if endsLine rest then readBasicLines (skipLines rest)
          else
            match _h : readEscape rest with
            | some (c, rest') => withChar c (readBasicLines rest')
            | none => none
      | c :: rest =>
          if isPrintable c then withChar c (readBasicLines rest) else none
termination_by s.length
decreasing_by
  · simp only [List.length_cons]; omega
  · simp
  · have := skipLines_length rest
    simp only [List.length_cons]
    omega
  · have := readEscape_length _h
    simp only [List.length_cons]
    omega
  · simp

/-- Read a string of many lines up to its closing apostrophes. -/
def readLiteralLines (s : List Char) : Option (List Char × List Char) :=
  match closing? '\'' s with
  | some found => some found
  | none =>
      match s with
      | [] => none
      | '\r' :: '\n' :: rest =>
          withChar '\r' (withChar '\n' (readLiteralLines rest))
      | '\n' :: rest => withChar '\n' (readLiteralLines rest)
      | c :: rest =>
          if isPrintable c then withChar c (readLiteralLines rest) else none
termination_by s.length

/-- The end of a line right behind opening marks is not part of a
string. -/
def skipFirstEnd : List Char → List Char
  | '\r' :: '\n' :: rest => rest
  | '\n' :: rest => rest
  | s => s

/-- Read a string of any form. -/
def readString : List Char → Option (List Char × List Char)
  | '"' :: '"' :: '"' :: rest => readBasicLines (skipFirstEnd rest)
  | '\'' :: '\'' :: '\'' :: rest => readLiteralLines (skipFirstEnd rest)
  | '"' :: rest => readBasic rest
  | '\'' :: rest => readLiteral rest
  | _ => none

-- =================================================================== writing

/-- The longest run of a character, given the length of the run that the
text before it ends in. -/
def longestRun (mark : Char) (current : Nat) : List Char → Nat
  | [] => current
  | c :: rest =>
      if c = mark then longestRun mark (current + 1) rest
      else max current (longestRun mark 0 rest)

/-- Control characters that only an escape can write. -/
def needsEscape (c : Char) : Bool := isControl c && c ≠ '\t' && c ≠ '\n'

/-- The four hexadecimal digits of a number below `2 ^ 16`. -/
def fourDigits (n : Nat) : List Char :=
  [n / 4096 % 16, n / 256 % 16, n / 16 % 16, n % 16].map fun d =>
    (Nat.digitChar d).toUpper

/-- A character as it is written between quotation marks, where lines may
or may not end. -/
def escape (lines : Bool) (c : Char) : List Char :=
  if c = '\x08' then ['\\', 'b']
  else if c = '\t' then ['\\', 't']
  else if c = '\n' then if lines then ['\n'] else ['\\', 'n']
  else if c = '\x0c' then ['\\', 'f']
  else if c = '\r' then ['\\', 'r']
  else if c = '\\' then ['\\', '\\']
  else if isControl c then '\\' :: 'u' :: fourDigits c.toNat
  else [c]

/-- Text between quotation marks. Up to `free` marks in a row stand for
themselves; `run` of them have just been written. -/
def escapeText (lines : Bool) (free : Nat) (run : Nat) :
    List Char → List Char
  | [] => []
  | c :: rest =>
      if c = '"' then
        if run < free then '"' :: escapeText lines free (run + 1) rest
        else '\\' :: '"' :: escapeText lines free 0 rest
      else escape lines c ++ escapeText lines free 0 rest

def writeBasic (s : List Char) : List Char :=
  '"' :: escapeText false 0 0 s ++ ['"']

def writeLiteral (s : List Char) : List Char :=
  '\'' :: s ++ ['\'']

/-- Text of many lines starts on a line of its own. -/
def firstEnd (s : List Char) : List Char :=
  if s.contains '\n' then ['\n'] else []

def writeBasicLines (s : List Char) : List Char :=
  ['"', '"', '"'] ++ firstEnd s ++ escapeText true 2 0 s
    ++ ['"', '"', '"']

def writeLiteralLines (s : List Char) : List Char :=
  ['\'', '\'', '\''] ++ firstEnd s ++ s ++ ['\'', '\'', '\'']

/-- Write a string in the plainest form that holds it. -/
def writeChars (s : List Char) : List Char :=
  let control := s.any needsEscape
  let lines := s.contains '\n'
  let backslash := s.contains '\\'
  let quotes := longestRun '"' 0 s
  let apostrophes := longestRun '\'' 0 s
  if !control && !backslash && quotes = 0 && !lines then writeBasic s
  else if !control && apostrophes = 0 && !lines then writeLiteral s
  else if !control && !backslash && quotes ≤ 2 then writeBasicLines s
  else if !control && apostrophes ≤ 2 then writeLiteralLines s
  else if lines then writeBasicLines s
  else writeBasic s

/-- A string as a value. -/
def writeString (s : String) : String :=
  String.ofList (writeChars s.toList)

end Toml

end AdditiveDetail

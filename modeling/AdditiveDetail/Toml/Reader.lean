/-
Reading a TOML document. A document is a list of lines; a line holds a
key with its value, the header of a section, or neither, and may end in a
comment. Values in brackets and in braces may run over many lines.

The readers take a bound on how often they call one another. Of two
calls in a row at least one takes a character, so a bound of twice the
length of the text is never reached. Brackets and braces may be nested to
a depth of eighty, and a key has at most eighty parts.
-/
import AdditiveDetail.Toml.Scalar

namespace AdditiveDetail

namespace Toml

-- ==================================================== blanks, lines, comments

def skipBlanks (s : List Char) : List Char := s.dropWhile isBlank

/-- Take a comment off, if one stands here. It ends in front of the first
character that is not printable. -/
def skipComment : List Char → List Char
  | '#' :: rest => rest.dropWhile isPrintable
  | s => s

/-- Take the end of a line off. The end of the document ends a line. -/
def endLine : List Char → Option (List Char)
  | [] => some []
  | '\n' :: rest => some rest
  | '\r' :: '\n' :: rest => some rest
  | _ => none

/-- Take off what may stand at the end of a line. -/
def finishLine (s : List Char) : Option (List Char) :=
  endLine (skipComment (skipBlanks s))

/-- Skip blanks, comments and ends of lines, given whether this is the
inside of a comment. -/
def skipFrom (comment : Bool) : List Char → List Char
  | [] => []
  | '\n' :: rest => skipFrom false rest
  | '\r' :: '\n' :: rest => skipFrom false rest
  | c :: rest =>
      if isBlank c || (comment && isPrintable c) then skipFrom comment rest
      else if c = '#' then skipFrom true rest
      else c :: rest

/-- Skip blanks, comments and ends of lines. -/
def skipFiller (s : List Char) : List Char := skipFrom false s

/-- How deep tables and arrays may be nested, be it by brackets and braces
or by the parts of one key. -/
def maxDepth : Nat := 80

-- ====================================================================== keys

/-- A character of a key without marks. -/
def isKeyChar (c : Char) : Bool := c.isAlphanum || c = '_' || c = '-'

/-- Read one part of a key. -/
def readKeyPart (s : List Char) : Option (String × List Char) :=
  match s with
  | '"' :: rest => (readBasic rest).map fun (k, r) => (String.ofList k, r)
  | '\'' :: rest => (readLiteral rest).map fun (k, r) => (String.ofList k, r)
  | _ =>
      let word := s.takeWhile isKeyChar
      if word.isEmpty then none
      else some (String.ofList word, s.dropWhile isKeyChar)

/-- Read up to so many parts of a key, with points between them. -/
def readKeyParts :
    (depth : Nat) → List Char → Option (List String × List Char)
  | 0, _ => none
  | depth + 1, s => do
      let (part, rest) ← readKeyPart s
      match skipBlanks rest with
      | '.' :: rest' =>
          let (parts, rest'') ← readKeyParts depth (skipBlanks rest')
          some (part :: parts, rest'')
      | _ => some ([part], rest)

/-- Read a key. -/
def readKey (s : List Char) : Option (List String × List Char) :=
  readKeyParts maxDepth s

-- ==================================================================== values

mutual

/-- Read a value. -/
def readValue (depth : Nat) :
    (bound : Nat) → List Char → Option (Value × List Char)
  | 0, _ => none
  | bound + 1, s =>
      match s with
      | '[' :: rest =>
          if depth = 0 then none
          else
            (readElements (depth - 1) bound rest).map fun (xs, r) =>
              (.array xs, r)
      | '\x7b' :: rest =>
          if depth = 0 then none
          else
            (readFields (depth - 1) bound .empty rest).map fun (t, r) =>
              (.table .inline t, r)
      | '"' :: _ =>
          (readString s).map fun (x, r) => (.string (String.ofList x), r)
      | '\'' :: _ =>
          (readString s).map fun (x, r) => (.string (String.ofList x), r)
      | _ =>
          let (word, rest) := takeWord s
          (scalarValue? word).map (·, rest)

/-- Read the elements of an array, up to its closing bracket. -/
def readElements (depth : Nat) :
    (bound : Nat) → List Char → Option (List Value × List Char)
  | 0, _ => none
  | bound + 1, s => do
      match skipFiller s with
      | ']' :: rest => some ([], rest)
      | s =>
          let (x, rest) ← readValue depth bound s
          match skipFiller rest with
          | ']' :: rest => some ([x], rest)
          | ',' :: rest =>
              let (xs, rest) ← readElements depth bound rest
              some (x :: xs, rest)
          | _ => none

/-- Read the fields of a table in braces, up to its closing brace. Lines
may end on either side of the equals sign. -/
def readFields (depth : Nat) :
    (bound : Nat) → Entries → List Char → Option (Entries × List Char)
  | 0, _, _ => none
  | bound + 1, t, s => do
      match skipFiller s with
      | '\x7d' :: rest => some (t, rest)
      | s =>
          let (key, rest) ← readKey s
          match skipFiller rest with
          | '=' :: rest =>
              let (x, rest) ← readValue depth bound (skipFiller rest)
              let t ← t.assign x key
              match skipFiller rest with
              | '\x7d' :: rest => some (t, rest)
              | ',' :: rest => readFields depth bound t rest
              | _ => none
          | _ => none

end

-- ================================================================= documents

/-- Read a header, whose first bracket has been taken off. -/
def readHeader (s : List Char) : Option (Header × List Char) := do
  let (double, s) := match s with
    | '[' :: rest => (true, rest)
    | s => (false, s)
  let (key, rest) ← readKey (skipBlanks s)
  match double, skipBlanks rest with
  | false, ']' :: rest => some (.table key, rest)
  | true, ']' :: ']' :: rest => some (.element key, rest)
  | _, _ => none

/-- Read a key with its value. -/
def readField (bound : Nat) (s : List Char) : Option (Field × List Char) := do
  let (path, rest) ← readKey s
  match skipBlanks rest with
  | '=' :: rest =>
      let (value, rest) ← readValue maxDepth bound (skipBlanks rest)
      some ({ path, value }, rest)
  | _ => none

/-- Read the lines of a document: those of the present section up to the
next header, and then the sections behind it. Each goes into the table
when it ends. -/
def readLines : (bound : Nat) → Entries → Section → List Char →
    Option Entries
  | 0, _, _, _ => none
  | bound + 1, t, present, s =>
      match skipBlanks s with
      | [] => t.addSection present
      | '[' :: rest => do
          let (header, rest) ← readHeader rest
          let t ← t.addSection present
          readLines bound t { header, fields := [] } (← finishLine rest)
      | c :: rest =>
          if c = '#' ∨ c = '\n' ∨ c = '\r' then do
            readLines bound t present (← finishLine (c :: rest))
          else do
            let (field, rest) ← readField (2 * bound) (c :: rest)
            readLines bound t
              { present with fields := field :: present.fields }
              (← finishLine rest)

/-- A byte order mark in front of a document is not part of it. -/
def dropMark : List Char → List Char
  | '\ufeff' :: rest => rest
  | s => s

/-- The table that a document holds. -/
def read? (text : String) : Option Entries :=
  let s := dropMark text.toList
  readLines (s.length + 1) .empty { header := .top, fields := [] } s

end Toml

end AdditiveDetail

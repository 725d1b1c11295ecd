/-
Values of a TOML document, and the tables that a document builds.

# How a table came about

Whether a table may be reopened or extended depends on how it was
written: a header makes the tables on the way to its own implicitly, a
dotted key makes its tables too, and a table in braces is closed for
good. Each table carries its `Origin`, and the two ways to grow a table
(`assign`, `addSection`) consult it. Both fail on a key that is taken.

# Sections

A document is a sequence of sections: a header, and the fields under it.
A section goes into the document as a whole. Its header leads to one
table, and all its fields go there, so the way to that table is gone
once, however many fields there are.
-/
import AdditiveDetail.Binary.Basic
import AdditiveDetail.Dictionary

namespace AdditiveDetail

namespace Toml

/-- How a table was written. -/
inductive Origin where
  /-- On the way to the table of a header. -/
  | implicit
  /-- By a dotted key. -/
  | dotted
  /-- By a header of its own. -/
  | explicit
  /-- In braces. -/
  | inline
  deriving DecidableEq

inductive Value where
  | string (text : String)
  | integer (i : Int)
  | float (x : Binary64)
  | boolean (b : Bool)
  /-- A date, a time of day, or both. -/
  | moment
  /-- Written like a number, but no number that can be held: too great, or
  without digits of its base. It may stand where nobody reads it. -/
  | unreadable
  /-- Elements in brackets. -/
  | array (elements : List Value)
  | table (origin : Origin) (entries : Dictionary Value)
  /-- The tables of double bracket headers: the last one, which may still
  grow, and those before it, the latest first. -/
  | tables (latest : Dictionary Value) (earlier : List Value)

/-- The keys of a table with their values. -/
abbrev Entries := Dictionary Value

/-- The elements of a value that has elements, in their order. -/
def Value.elements? : Value → Option (List Value)
  | .array elements => some elements
  | .tables latest earlier => some (.table .explicit latest :: earlier).reverse
  | _ => none

mutual

/-- Whether a value can be read to its last part. -/
def Value.isReadable : Value → Bool
  | .unreadable => false
  | .array elements => elementsReadable elements
  | .table _ entries => entriesReadable entries
  | .tables latest earlier =>
      entriesReadable latest && elementsReadable earlier
  | .string _ | .integer _ | .float _ | .boolean _ | .moment => true

/-- Whether all elements of an array can be read. -/
def elementsReadable : List Value → Bool
  | [] => true
  | v :: rest => v.isReadable && elementsReadable rest

/-- Whether all values of a table can be read. -/
def entriesReadable : Dictionary Value → Bool
  | .empty => true
  | .node _ left _ v right =>
      entriesReadable left && v.isReadable && entriesReadable right

end

/-- A key with its value; a dotted key has many parts. -/
structure Field where
  path : List String
  value : Value

/-- Where the fields of a section go. -/
inductive Header where
  /-- The document itself, in front of all headers. -/
  | top
  /-- A table, by a header in single brackets. -/
  | table (path : List String)
  /-- A new table of an array, by a header in double brackets. -/
  | element (path : List String)

/-- A header with the fields under it. -/
structure Section where
  header : Header
  /-- The latest first. -/
  fields : List Field

namespace Entries

/-- Give a value to a key, or to the last part of a dotted key. A dotted
key passes through tables that are not written out, which count as made
by a dotted key from then on, and through the last table of an array. The
table that it puts its value into must not have been written out. -/
def assign (v : Value) : (path : List String) → Entries → Option Entries
  | [], _ => none
  | [key], t => t.update key fun
      | none => some v
      | some _ => none
  | key :: path, t => t.update key fun
      | none => (assign v path .empty).map (.table .dotted)
      | some (.table .dotted sub) => (assign v path sub).map (.table .dotted)
      | some (.table .implicit sub) =>
          (assign v path sub).map (.table .dotted)
      | some (.tables latest earlier) =>
          if path.length = 1 then none
          else (assign v path latest).map (.tables · earlier)
      | some _ => none

/-- Give their values to the keys of fields, of which the latest comes
first. -/
def assignAll (fields : List Field) (t : Entries) : Option Entries :=
  fields.foldrM (fun field t => assign field.value field.path t) t

/-- Change what a header names, by what `last` does to the last of its
keys. The latest table stands for an array of tables on the way. -/
def underHeader (last : Option Value → Option Value) :
    (path : List String) → Entries → Option Entries
  | [], _ => none
  | [key], t => t.update key last
  | key :: path, t => t.update key fun
      | none => (underHeader last path .empty).map (.table .implicit)
      | some (.table .inline _) => none
      | some (.table o sub) => (underHeader last path sub).map (.table o)
      | some (.tables latest earlier) =>
          (underHeader last path latest).map (.tables · earlier)
      | some _ => none

/-- Put the fields of a section where its header says. A table is opened
by one header only, an array of tables gets one table more. -/
def addSection (s : Section) (t : Entries) : Option Entries :=
  match s.header with
  | .top => assignAll s.fields t
  | .table path => t.underHeader (fun
      | none => (assignAll s.fields .empty).map (.table .explicit)
      | some (.table .implicit sub) =>
          (assignAll s.fields sub).map (.table .explicit)
      | some _ => none) path
  | .element path => t.underHeader (fun
      | none => (assignAll s.fields .empty).map (.tables · [])
      | some (.tables latest earlier) =>
          (assignAll s.fields .empty).map
            (.tables · (.table .explicit latest :: earlier))
      | some _ => none) path

end Entries

end Toml

end AdditiveDetail

/-
A directory of files as a value, and what a path leads to in it. There
are no directories inside. Of those above nothing is known but what has
been made there, by its path from here. It is one place among others in
which a script can be run, small enough to be written down.

# Which error comes first

A path that cannot be one at all is refused before it is followed. Then
its names are gone through in their order, and the first that cannot be
gone through decides. Of the last name, which alone may be a file, it is
asked how long it is before whether it is there.
-/
import AdditiveDetail.Error
import AdditiveDetail.Path
import AdditiveDetail.Video.RawVideo

namespace AdditiveDetail

namespace CommandLine

/-- Files by their names, those above by their paths from here. -/
structure Directory where
  files : List (String × Bytes)

/-- What a path leads to. -/
inductive Target where
  /-- This directory, or one above it. -/
  | directory
  /-- A name, behind the path of the directory in which it stands. -/
  | entry (place name : String)

namespace Directory

-- ===================================================================== paths

/-- Bytes of the longest name. -/
def maxName : Nat := 255

/-- Bytes of the longest path. -/
def maxPath : Nat := 4095

def nameFits (name : String) : Bool := name.utf8ByteSize ≤ maxName

def file? (d : Directory) (path : String) : Option Bytes :=
  d.files.lookup path

/-- The path of the directory above a place. Nothing is above the root. -/
def above (place : String) : String :=
  if place = "/" then place else place ++ "../"

/-- Go through names, from a place on. -/
def follow (d : Directory) :
    (place : String) → List String → Except IoError Target
  | _, [] => .ok .directory
  | place, name :: rest =>
      if name = "." then d.follow place rest
      else if name = ".." then d.follow (above place) rest
      else if rest.isEmpty then .ok (.entry place name)
      else if !nameFits name then .error .nameTooLong
      else if (d.file? (place ++ name)).isSome then .error .notDirectory
      else .error .notFound

/-- What a path leads to. A slash in front leads to the root. -/
def target (d : Directory) (path : String) : Except IoError Target :=
  if path.contains '\x00' then .error .nulInName
  else if path.isEmpty then .error .notFound
  else if maxPath < path.utf8ByteSize then .error .nameTooLong
  else
    d.follow (if Path.isAbsolute path then "/" else "") (Path.names path)

-- ===================================================================== files

/-- The contents of the file that a path leads to. -/
def read (d : Directory) (path : String) : Except IoError Bytes := do
  match ← d.target path with
  | .directory => .error .isDirectory
  | .entry place name =>
      if !nameFits name then .error .nameTooLong
      else
        match d.file? (place ++ name) with
        | none => .error .notFound
        | some bytes =>
            if Path.endsInSlash path then .error .notDirectory else .ok bytes

/-- The file that may be written under a path, whether there or not. -/
def writable (d : Directory) (path : String) : Except IoError String := do
  match ← d.target path with
  | .directory => .error .isDirectory
  | .entry place name =>
      if Path.endsInSlash path then .error .isDirectory
      else if !nameFits name then .error .nameTooLong
      else .ok (place ++ name)

/-- Replace a file, or add one. -/
def write (d : Directory) (name : String) (bytes : Bytes) : Directory where
  files := (name, bytes) :: d.files.filter fun f => f.1 ≠ name

/-- Make an empty file, in place of any that there is. -/
def create (d : Directory) (path : String) : Except IoError Directory := do
  return d.write (← d.writable path) #[]

def append (d : Directory) (path text : String) :
    Except IoError Directory := do
  let bytes ← d.read path
  return d.write (← d.writable path) (bytes ++ text.toUTF8.data)

end Directory

end CommandLine

end AdditiveDetail

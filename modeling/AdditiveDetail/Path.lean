/-
Paths as text: names with slashes between them. One path can be written
in many ways: slashes may be doubled or stand at the end, and a name that
is a point leads nowhere. Only a point in front tells two relative paths
apart.
-/

namespace AdditiveDetail

namespace Path

/-- The names of a path, in their order. -/
def names (path : String) : List String :=
  (path.splitOn "/").filter (· ≠ "")

/-- Whether a path starts at the root. -/
def isAbsolute (path : String) : Bool := path.startsWith "/"

/-- Whether a path asks for a directory by the slash at its end. -/
def endsInSlash (path : String) : Bool := path.endsWith "/"

/-- The names of a path that lead somewhere, and a point in front. -/
def steps (path : String) : List String :=
  match isAbsolute path, names path with
  | false, "." :: rest => "." :: rest.filter (· ≠ ".")
  | _, all => all.filter (· ≠ ".")

/-- Whether two texts are the same path. -/
def same (p q : String) : Bool :=
  isAbsolute p = isAbsolute q && steps p = steps q

end Path

end AdditiveDetail

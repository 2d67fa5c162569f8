/-
# `HartMonitor.Directory` — files by path

A directory is given by the files under it, each with its location: the names to go
through, the file's own name last.  A path is walked part by part, and every part
needs a directory to start from:

    part        leads
    (nothing)   nowhere else
    .           nowhere else
    ..          one up, inside the directory
    a name      one down

So `a/../b` needs a directory `a`, and `b/` reaches no file.  A path that begins with
a slash does not start in the directory; of what lies there, only the null device is
known, an empty file.
-/
import HartMonitor.Word

namespace HartMonitor

/-- The files under a directory, by location. -/
structure Directory where
  files : List (List String × List Byte)
deriving DecidableEq, Repr

namespace Directory

/-! ## Paths -/

/-- The runs of characters before, between and behind the slashes of a text. -/
def betweenSlashes : List Char → List (List Char)
  | [] => [[]]
  | c :: rest =>
    match c, betweenSlashes rest with
    | '/', runs => [] :: runs
    | _, [] => [[c]]
    | _, first :: more => (c :: first) :: more

def parts (path : String) : List String :=
  (betweenSlashes path.toList).map String.ofList

def stays (part : String) : Bool :=
  part == "" || part == "."

def maxPathBytes : Nat := 4095

/-! ## Walking -/

/-- A directory with some files, each given by its path from there. -/
def ofFiles (files : List (String × List Byte)) : Directory :=
  ⟨files.map fun (path, bytes) => ((parts path).filter (!stays ·), bytes)⟩

def file? (d : Directory) (location : List String) : Option (List Byte) :=
  d.files.lookup location

/-- Whether there is a directory at a location: something lies under it, or it is the whole. -/
def isDirectory (d : Directory) (location : List String) : Bool :=
  location.isEmpty
    || d.files.any fun (other, _) => location.isPrefixOf other && location.length < other.length

/-- Where a part of a path leads from a location; `none` if there is no directory to start from, or
if it leads out of the whole. -/
def advance? (d : Directory) (location : List String) (part : String) : Option (List String) :=
  if !d.isDirectory location then none
  else if stays part then some location
  else if part = ".." then
    if location.isEmpty then none else some location.dropLast
  else some (location ++ [part])

/-- Where some parts lead one after the other from a location. -/
def walk? (d : Directory) (location : List String) : List String → Option (List String)
  | [] => some location
  | part :: rest => (d.advance? location part).bind fun next => d.walk? next rest

/-- The contents of the file that a path reaches from the whole. -/
def find? (d : Directory) (path : String) : Option (List Byte) :=
  (d.walk? [] (parts path)).bind d.file?

/-- What lies outside: the null device. -/
def outside : Directory :=
  ofFiles [("/dev/null", [])]

/-- The contents of the file at a path, if it can be read. -/
def read? (d : Directory) (path : String) : Option (List Byte) :=
  if maxPathBytes < path.utf8ByteSize then none
  else if path.toList.head? = some '/' then outside.find? path
  else d.find? path

end Directory

end HartMonitor

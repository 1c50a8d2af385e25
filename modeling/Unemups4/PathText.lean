import Mathlib

/-! Paths as texts: what joining, taking the parent and taking the stem of a file name do to them.
Parts are separated by slashes; empty parts and dots are passed over. -/
namespace Unemups4.PathText

def parts (path : String) : List (List Char) := path.toList.splitOn '/'

def ofParts (parts : List (List Char)) : String := String.ofList (['/'].intercalate parts)

def isAbsolute (path : String) : Bool := path.toList.head? = some '/'

/-- An absolute path replaces what it is joined to. -/
def join (base path : String) : String :=
  if isAbsolute path then path
  else if base.toList = [] then path
  else if base.toList.getLast? = some '/' then base ++ path
  else base ++ "/" ++ path

def isBlank (part : List Char) : Bool := part = [] ∨ part = ['.']

/-- The parts without blank ones at the end; a first part stays. -/
def trimRight : List (List Char) → List (List Char)
  | [] => []
  | part :: rest => part :: (rest.reverse.dropWhile isBlank).reverse

/-- The last part that is not blank, and what stands before it. -/
def splitLast (path : String) : Option (List (List Char) × List Char) :=
  match (trimRight (parts path)).reverse with
  | [] => none
  | last :: before => if last = [] then none else some (before.reverse,last)

def parent (path : String) : Option String :=
  (splitLast path).map fun split =>
    match trimRight split.1 with
    | [[]] => "/"
    | before => ofParts before

def fileName (path : String) : Option (List Char) :=
  (splitLast path).bind fun split => if split.2 = ['.','.'] ∨ split.2 = ['.'] then none else some split.2

/-- The name without its last extension; a dot at its start opens none. -/
def fileStem (path : String) : Option String :=
  (fileName path).map fun name =>
    let before := ((name.reverse.dropWhile (· ≠ '.')).drop 1).reverse
    String.ofList (if before = [] then name else before)

example : parent "/app0/sce_module/libc.prx" = some "/app0/sce_module" := by decide +kernel
example : parent "eboot.bin" = some "" := by decide +kernel
example : fileStem "/app0/a.b.prx" = some "a.b" := by decide +kernel

end Unemups4.PathText

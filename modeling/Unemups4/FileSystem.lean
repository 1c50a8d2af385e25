import Unemups4.HostTree

/-! The guest's file system: guest paths are looked up in the mounts, which put directories of the
host under guest prefixes. A path is collapsed as text, and the host path that it gives is checked
to lie in the mount's directory. -/
namespace Unemups4.Files
open HostTree

/-- A host path: where it is taken from, the root or the working directory, and its parts. -/
structure HostPath where
  start : Location
  parts : List String
  deriving DecidableEq, Repr

def HostPath.extend (path : HostPath) (components : List String) : HostPath :=
  ⟨path.start,path.parts ++ components⟩

def HostPath.ofLocation (loc : Location) : HostPath := ⟨[],loc⟩

/-- The number of links that the host follows. -/
def maxLinks : ℕ := 40

section Host

variable (tree : Tree)

def reach (path : HostPath) : Reached :=
  if tree.entry path.start = some .dir then walk tree.entry maxLinks path.start path.parts else .failed

def canonicalize (path : HostPath) : Option Location :=
  match reach tree path with
  | .found loc => some loc
  | _ => none

def pathExists (path : HostPath) : Bool := (canonicalize tree path).isSome

def readDir (path : HostPath) : Option (List String) :=
  (canonicalize tree path).bind fun loc =>
    if tree.entry loc = some .dir then some (tree.names loc) else none

/-- The deepest ancestor that exists and the names after it; the parts are given from the last. -/
def deepest (start : Location) : List String → Option (Location × List String)
  | [] => (canonicalize tree ⟨start,[]⟩).map fun loc => (loc,[])
  | part :: before =>
      match canonicalize tree ⟨start,(part :: before).reverse⟩ with
      | some loc => some (loc,[])
      | none =>
          if IsName part then (deepest start before).map fun (loc,rest) => (loc,rest ++ [part])
          else none

def canonicalizeExistingPrefix (path : HostPath) : Option Location :=
  (deepest tree path.start path.parts.reverse).map fun (loc,rest) => loc ++ rest

def contain (hostPath hostRoot : HostPath) : Option Location :=
  (canonicalize tree hostRoot).bind fun root =>
    (canonicalizeExistingPrefix tree hostPath).bind fun canon =>
      if root <+: canon then some canon else none

def eqIgnoreAsciiCase (a b : String) : Bool :=
  a.toList.map Char.toLower = b.toList.map Char.toLower

/-- One part at a time, an exact match first. -/
def resolveCaseInsensitive : HostPath → List String → Option HostPath
  | current,[] => some current
  | current,comp :: comps =>
      if pathExists tree (current.extend [comp]) then
        resolveCaseInsensitive (current.extend [comp]) comps
      else
        match readDir tree current with
        | none => none
        | some names =>
            match ((names.filter (eqIgnoreAsciiCase comp)).insertionSort (· ≤ ·)).head? with
            | none => none
            | some hit => resolveCaseInsensitive (current.extend [hit]) comps

end Host

structure Mount where
  guest : String
  root : HostPath
  deriving DecidableEq, Repr

def stripPrefix (guestPath mountPrefix : String) : Option (List Char) :=
  if mountPrefix.toList <+: guestPath.toList then some (guestPath.toList.drop mountPrefix.length)
  else none

def mountPrefixMatches (guestPath mountPrefix : String) : Bool :=
  match stripPrefix guestPath mountPrefix with
  | none => false
  | some rest => rest = [] ∨ rest.head? = some '/' ∨ mountPrefix.toList.getLast? = some '/'

/-- `..` may not climb above the start. -/
def pushComponent (out : List String) (comp : List Char) : Option (List String) :=
  if comp = [] ∨ comp = ['.'] then some out
  else if comp = ['.','.'] then if out = [] then none else some out.dropLast
  else some (out ++ [String.ofList comp])

def normalizeRelative (relative : List Char) : Option (List String) :=
  (relative.splitOn '/').foldlM pushComponent []

/-- The parts of a guest path below a mount. -/
def Mount.components (m : Mount) (guestPath : String) : Option (List String) :=
  if mountPrefixMatches guestPath m.guest then
    normalizeRelative ((guestPath.toList.drop m.guest.length).dropWhile (· = '/'))
  else none

/-- What a mount has for a guest path: a host path, the location that it is contained at, and
whether that exists. -/
structure Offer where
  path : HostPath
  location : Location
  there : Bool
  deriving DecidableEq, Repr

/-- The exact path, or else an existing one that differs in case. -/
def Mount.offer (tree : Tree) (m : Mount) (guestPath : String) : Option Offer :=
  match m.components guestPath with
  | none => none
  | some components =>
      match contain tree (m.root.extend components) m.root with
      | none => none
      | some contained =>
          if pathExists tree (.ofLocation contained) then
            some ⟨m.root.extend components,contained,true⟩
          else
            match resolveCaseInsensitive tree m.root components with
            | none => some ⟨m.root.extend components,contained,false⟩
            | some ci =>
                match contain tree ci m.root with
                | none => some ⟨m.root.extend components,contained,false⟩
                | some containedCi =>
                    if pathExists tree (.ofLocation containedCi) then some ⟨ci,containedCi,true⟩
                    else some ⟨m.root.extend components,contained,false⟩

/-- The mounts in order: the first that has the file, or else the first that could take it. -/
def translateFrom (tree : Tree) (guestPath : String) : (createFallback : Option Location) →
    List Mount → Option Location
  | createFallback,[] => createFallback
  | createFallback,m :: ms =>
      match m.offer tree guestPath with
      | none => translateFrom tree guestPath createFallback ms
      | some offer =>
          if offer.there then some offer.location
          else translateFrom tree guestPath (createFallback.or (some offer.location)) ms

def translate (tree : Tree) (mounts : List Mount) (guestPath : String) : Option Location :=
  translateFrom tree guestPath none mounts

def trimDotSlash : List Char → List Char
  | '.' :: '/' :: rest => trimDotSlash rest
  | path => path

/-- A relative guest path is taken from `/app0`. -/
def anchored (path : String) : String :=
  "/app0/" ++ String.ofList ((trimDotSlash path.toList).dropWhile (· = '/'))

def isRelative (path : String) : Bool := path.toList.head? ≠ some '/'

def resolve (tree : Tree) (mounts : List Mount) (path : String) : Option Location :=
  match translate tree mounts path with
  | some host => some host
  | none => if isRelative path then translate tree mounts (anchored path) else none

/-- The mounts are kept by the length of their prefixes, the longest first. -/
def mount (mounts : List Mount) (guestPath : String) (hostPath : HostPath) : List Mount :=
  (mounts ++ [(⟨guestPath,hostPath⟩ : Mount)]).insertionSort fun a b =>
    b.guest.utf8ByteSize ≤ a.guest.utf8ByteSize

def unmount (mounts : List Mount) (guestPath : String) : List Mount :=
  mounts.filter fun m => m.guest ≠ guestPath

end Unemups4.Files

import Unemups4.FileSystem

/-! Save slots: a directory below the title's savedata directory is mounted at the lowest free
mount point, or again at the one it has. -/
namespace Unemups4.Files
open HostTree

namespace HostPath

def isBlank (part : String) : Bool := part = "" ∨ part = "."

def parent (path : HostPath) : Option HostPath :=
  match path.parts.reverse.dropWhile isBlank with
  | [] => none
  | _ :: before => some ⟨path.start,before.reverse⟩

def isAbsolute (text : String) : Bool := text.toList.head? = some '/'

def partsOf (text : String) : List String := (text.toList.splitOn '/').map String.ofList

/-- An absolute text replaces the path. -/
def join (path : HostPath) (text : String) : HostPath :=
  if isAbsolute text then ⟨[],partsOf text⟩ else path.extend (partsOf text)

end HostPath

section Make

def isDir (tree : Tree) (path : HostPath) : Bool :=
  match canonicalize tree path with
  | some loc => tree.entry loc = some .dir
  | none => false

/-- The last name is not followed when it is a link; slashes at the end are passed over. -/
def mkdir (tree : Tree) (path : HostPath) : Option Tree :=
  match path.parts.reverse.dropWhile (· = "") with
  | [] => none
  | name :: before =>
      (canonicalize tree ⟨path.start,before.reverse⟩).bind fun cur =>
        if tree.Free cur name then some (tree.insertDir cur name) else none

/-- What was made stays when the rest fails. `fuel` is more than the number of parts. -/
def createDirAll : (fuel : ℕ) → Tree → HostPath → Tree × Bool
  | 0,tree,_ => (tree,false)
  | fuel+1,tree,path =>
      match mkdir tree path with
      | some tree => (tree,true)
      | none =>
          if isDir tree path then (tree,true)
          else
            match path.parent with
            | none => (tree,false)
            | some above =>
                match createDirAll fuel tree above with
                | (tree,false) => (tree,false)
                | (tree,true) =>
                    match mkdir tree path with
                    | some tree => (tree,true)
                    | none => (tree,isDir tree path)

end Make

/-- A live mount point and the directory name it has; `root` is kept for the proofs, the savedata
directory at the time. -/
structure Slot where
  point : String
  name : String
  root : HostPath
  deriving DecidableEq, Repr

def Slot.dir (slot : Slot) : HostPath := slot.root.join slot.name

structure SaveState where
  tree : Tree
  mounts : List Mount
  slots : List Slot

def mountPoint (idx : ℕ) : String := "/savedata" ++ Nat.repr idx

def firstFree (slots : List Slot) : (fuel idx : ℕ) → String
  | 0,idx => mountPoint idx
  | fuel+1,idx =>
      if mountPoint idx ∈ slots.map Slot.point then firstFree slots fuel (idx+1) else mountPoint idx

/-- A directory that is mounted keeps its mount point. -/
def allocSavedataMountPoint (slots : List Slot) (dirName : String) : String :=
  match slots.find? fun slot => slot.name = dirName with
  | some slot => slot.point
  | none => firstFree slots slots.length 0

namespace SaveState

/-- The directory beside the title's executable. -/
def savedataRoot (s : SaveState) : Option HostPath :=
  (resolve s.tree s.mounts "/app0/eboot.bin").bind fun loc =>
    if loc = [] then none else some (.ofLocation (loc.dropLast ++ ["savedata"]))

def defaultBlocks : ℕ := 4096

/-- The mount point, whether the directory is new, and the blocks. -/
def savedataMount (s : SaveState) (dirName : String) (requestedBlocks : ℕ) :
    SaveState × Except ℕ (String × ℕ × ℕ) :=
  match s.savedataRoot with
  | none => (s,.error 0x16)
  | some root =>
      let hostDir := root.join dirName
      let existed := isDir s.tree hostDir
      match if existed then (s.tree,true) else createDirAll (hostDir.parts.length+1) s.tree hostDir with
      | (tree,false) => ({ s with tree := tree },.error 0x5)
      | (tree,true) =>
          let point := allocSavedataMountPoint s.slots dirName
          ({ tree := tree
             mounts := mount s.mounts point hostDir
             slots := ⟨point,dirName,root⟩ :: s.slots.filter fun slot => slot.point ≠ point },
            .ok (point,if existed then 0 else 1,
              if requestedBlocks = 0 then defaultBlocks else requestedBlocks))

def savedataUmount (s : SaveState) (point : String) : SaveState × Except ℕ Unit :=
  if point ∈ s.slots.map Slot.point then
    ({ s with
      mounts := unmount s.mounts point
      slots := s.slots.filter fun slot => slot.point ≠ point },.ok ())
  else (s,.error 0x13)

end SaveState

end Unemups4.Files

import Unemups4.LoadImage
import Unemups4.PathText

/-! Loading an executable or a module with the modules that it needs: the graph of needed modules is
walked depth first, what it yields is mapped and then relocated, and the executable or the module
itself is linked last. -/
namespace Unemups4.Loader
open Memory PathText

/-- What opening and parsing a host file yields. -/
inductive FileContent where
  | unreadable
  | malformed
  | image (image : ExecutableImage)
  deriving DecidableEq

/-- The host during the loads: its files, the file that a path names, and the host path that a guest
path resolves to. -/
structure Host where
  files : List FileContent
  file : String → Option ℕ
  hostPath : String → Option String

namespace Host

variable (host : Host)

def pathExists (path : String) : Bool := (host.file path).isSome

def read (path : String) : FileContent :=
  ((host.file path).bind fun i => host.files[i]?).getD .unreadable

end Host

def moduleFileAliases (lib : String) : List String :=
  if lib = "libSceLibcInternal" then ["libc"] else []

def moduleFileCandidates (gameDir lib : String) : List String :=
  (lib :: moduleFileAliases lib).flatMap fun stem =>
    [join gameDir (stem ++ ".prx"),join (join gameDir "sce_module") (stem ++ ".prx")]

def findModuleFile (host : Host) (gameDir lib : String) : Option String :=
  (moduleFileCandidates gameDir lib).find? host.pathExists

/-- A module to load: the name it was needed under, its path, the directory in which the modules
that it needs are looked for, and its image. -/
structure Collected where
  lib : String
  path : String
  dir : String
  image : ExecutableImage
  deriving DecidableEq

def Collected.source (c : Collected) : String × String × ExecutableImage := (c.path,c.dir,c.image)

/-- The state of a walk. `loaded` holds names and paths. -/
structure Walk where
  loaded : List String
  out : List Collected
  deriving DecidableEq

/-- The walk from a needed name. What a call enters in `loading` it takes out again, so the set goes
down the calls only. The path of a file that was found is never empty. -/
def collectModuleGraph (host : Host) (gameDir : String) (known : List String) :
    (fuel : ℕ) → (loading : List String) → Walk → (lib : String) → Option Walk
  | 0, _, _, _ => none
  | fuel+1, loading, w, lib =>
      if lib ∈ w.loaded ∨ lib ∈ loading then some w
      else
        match findModuleFile host gameDir lib with
        | none => some { w with loaded := lib :: w.loaded }
        | some path =>
            if path ∈ loading ∨ path ∈ w.loaded ∨ path ∈ known then
              some { w with loaded := lib :: w.loaded }
            else
              match host.read path with
              | .image image =>
                  (image.neededModules.foldlM
                    (collectModuleGraph host gameDir known fuel (path :: lib :: loading)) w).map
                    fun w => ⟨lib :: path :: w.loaded,w.out ++ [⟨lib,path,gameDir,image⟩]⟩
              | _ => some { w with loaded := lib :: path :: w.loaded }

/-- The names that the host's modules need. -/
def Host.names (host : Host) : List String :=
  host.files.flatMap fun content =>
    match content with
    | .image image => image.neededModules
    | _ => []

/-- The modules that an image needs, leaves first. -/
def collectNeeded (host : Host) (gameDir : String) (known seeded : List String)
    (image : ExecutableImage) : List Collected :=
  ((image.neededModules.foldlM
    (collectModuleGraph host gameDir known (host.names.length+1) []) ⟨seeded,[]⟩).map Walk.out).getD []

/-- A module that was mapped, and where it came from. -/
structure MappedModule where
  handle : ℕ
  path : String
  dir : String
  image : ExecutableImage
  deriving DecidableEq

def MappedModule.source (m : MappedModule) : String × String × ExecutableImage :=
  (m.path,m.dir,m.image)

/-- A module whose start address was put in a list, and the address. -/
structure Started where
  mapped : MappedModule
  entry : ℕ
  deriving DecidableEq

/-- What the loads have done so far, kept for the proofs: the dependencies that were mapped, the
executables and targets that were, and the modules whose starts are in the boot list and in each
list that was returned. -/
structure History where
  mapped : List MappedModule
  linked : List MappedModule
  boot : List Started
  handed : List (List Started)
  deriving DecidableEq

structure Process where
  load : LoadState
  moduleInits : List ℕ
  loadedByPath : List (String × ℕ)
  loadedModulePaths : List (String × ℕ)
  history : History

namespace Process

def mapCollected (s : Process × List MappedModule) (c : Collected) : Process × List MappedModule :=
  let (p,mapped) := s
  match mapImage p.load c.image c.lib with
  | (load,.error _) => ({ p with load := load },mapped)
  | (load,.ok handle) =>
      let m : MappedModule := ⟨handle,c.path,c.dir,c.image⟩
      ({ p with
        load := load
        loadedModulePaths := (c.path,handle) ::
          p.loadedModulePaths.filter fun entry => entry.1 ≠ c.path
        history := { p.history with mapped := p.history.mapped ++ [m] } },mapped ++ [m])

/-- A failed relocation is only logged. -/
def relocateMapped (order : MapOrder) (p : Process) (m : MappedModule) : Process :=
  let load := (relocateImage order p.load m.image m.handle).1
  match load.manager.getModule m.handle with
  | none => { p with load := load }
  | some module =>
      { p with
        load := load
        moduleInits := p.moduleInits ++ [module.entryPoint]
        history := { p.history with boot := p.history.boot ++ [⟨m,module.entryPoint⟩] } }

def loadModuleSet (order : MapOrder) (p : Process) (set : List Collected) : Process :=
  let (p,mapped) := set.foldl mapCollected (p,[])
  mapped.foldl (relocateMapped order) p

/-- The executable or the target of a load is mapped and relocated in one step. -/
def link (order : MapOrder) (p : Process) (path dir : String) (image : ExecutableImage)
    (name : String) : Process × Except LoaderError ℕ :=
  let (load,result) := loadImage order p.load image name
  let linked := match (mapImage p.load image name).2 with
    | .ok handle => ⟨handle,path,dir,image⟩ :: p.history.linked
    | .error _ => p.history.linked
  ({ p with load := load, history := { p.history with linked := linked } },result)

inductive ExecError where
  | io
  | malformed
  | loader (e : LoaderError)
  | pthreadMap (e : MapError)
  | pthreadZero
  deriving DecidableEq

def pthreadSize : ℕ := 0x4000

/-- The main thread's control block, when there are modules to start. -/
def mapPthread (p : Process) : Process × Except ExecError Unit :=
  if p.moduleInits = [] then (p,.ok ())
  else
    match p.load.memory.map 0 pthreadSize ⟨true,true,false⟩ (some "main_pthread") with
    | (memory,.error e) => ({ p with load := { p.load with memory := memory } },.error (.pthreadMap e))
    | (memory,.ok pthread) =>
        match zeroMemory memory pthread pthreadSize with
        | (memory,.error _) => ({ p with load := { p.load with memory := memory } },.error .pthreadZero)
        | (memory,.ok ()) => ({ p with load := { p.load with memory := memory } },.ok ())

def knownPaths (p : Process) : List String := p.loadedModulePaths.map Prod.fst

def gameDirOf (filename : String) : String := (parent filename).getD "."

def loadExecutable (host : Host) (order : MapOrder) (p : Process) (filename : String) :
    Process × Except ExecError ℕ :=
  match host.read filename with
  | .unreadable => (p,.error .io)
  | .malformed => (p,.error .malformed)
  | .image image =>
      let set := collectNeeded host (gameDirOf filename) p.knownPaths [] image
      match link order (loadModuleSet order p set) filename (gameDirOf filename) image "eboot.bin" with
      | (p,.error e) => (p,.error (.loader e))
      | (p,.ok handle) =>
          match mapPthread p with
          | (p,.error e) => (p,.error e)
          | (p,.ok ()) => (p,.ok (((p.load.manager.getModule handle).map Module.entryPoint).getD 0))

/-- The directory that a target's modules live in: its own, or the one above `sce_module`. -/
def targetDir (hostPath : String) : String :=
  let dir := (parent hostPath).getD "."
  if fileName dir = some "sce_module".toList then (parent dir).getD dir else dir

def libName (guestPath : String) : String := (fileStem guestPath).getD "module"

/-- Neither cache knows the guest path: what is left is the host path of the target. -/
def findCached (host : Host) (p : Process) (guestPath : String) : Except ℕ (ℕ ⊕ String) :=
  match p.loadedByPath.lookup guestPath with
  | some handle => .ok (.inl handle)
  | none =>
      match p.load.manager.getByName (libName guestPath) with
      | some m => .ok (.inl m.id)
      | none =>
          match host.hostPath guestPath with
          | none => .error 2
          | some path =>
              match p.loadedModulePaths.lookup path with
              | some handle => .ok (.inl handle)
              | none => .ok (.inr path)

def cache (p : Process) (guestPath : String) (handle : ℕ) : Process :=
  { p with loadedByPath :=
      (guestPath,handle) :: p.loadedByPath.filter fun entry => entry.1 ≠ guestPath }

/-- A list of starts is returned. -/
def handOut (p : Process) (starts : List Started) : Process :=
  { p with history := { p.history with handed := p.history.handed ++ [starts] } }

/-- The modules that a target needs. Its own name counts as seen. -/
def targetSet (host : Host) (p : Process) (guestPath path : String) (image : ExecutableImage) :
    List Collected :=
  collectNeeded host (targetDir path) p.knownPaths [libName guestPath] image

/-- The starts of the modules that were just loaded leave the boot list. -/
def splitInits (p : Process) (before : ℕ) : Process × List Started :=
  ({ p with
    moduleInits := p.moduleInits.take before
    history := { p.history with boot := p.history.boot.take before } },p.history.boot.drop before)

def loadTarget (host : Host) (order : MapOrder) (p : Process) (guestPath path : String)
    (image : ExecutableImage) : Process × Except ℕ (ℕ × List ℕ) :=
  let before := p.moduleInits.length
  let loaded := loadModuleSet order p (targetSet host p guestPath path image)
  let starts := loaded.moduleInits.drop before
  let (split,handed) := loaded.splitInits before
  match link order split path (targetDir path) image (libName guestPath) with
  | (p,.error _) => (p,.error 22)
  | (p,.ok handle) =>
      let target := (p.load.manager.getModule handle).map Module.entryPoint
      let own := (target.filter (· ≠ 0)).toList
      let handed := handed ++ own.map fun entry => ⟨⟨handle,path,targetDir path,image⟩,entry⟩
      ((p.handOut handed).cache guestPath handle,.ok (handle,starts ++ own))

def loadStartModule (host : Host) (order : MapOrder) (p : Process) (guestPath : String) :
    Process × Except ℕ (ℕ × List ℕ) :=
  match findCached host p guestPath with
  | .error e => (p,.error e)
  | .ok (.inl handle) => ((p.handOut []).cache guestPath handle,.ok (handle,[]))
  | .ok (.inr path) =>
      match host.read path with
      | .unreadable => (p,.error 2)
      | .malformed => (p,.error 22)
      | .image image => loadTarget host order p guestPath path image

end Process

end Unemups4.Loader

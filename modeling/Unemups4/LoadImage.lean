import Unemups4.VmaTable

/-! The dynamic linker: an image is mapped at a base of the module allocator and registered, and
its relocations are applied in a second step. Registered modules are listed in the order of their
registration; the map that holds them is traversed in an order of its own. -/
namespace Unemups4.Loader
open Memory

structure LoadableSegment where
  offset : ℕ
  data : List UInt8
  protection : MemoryProtection
  bssSize : ℕ
  deriving DecidableEq, Repr

inductive RelocationKind where
  | none | absolute64 | pc32 | got32 | plt32 | copy | globDat | jumpSlot | relative | gotPcRel
  | absolute32 | absolute32S | absolute16 | pc16 | absolute8 | pc8
  | dtpMod64 | dtpOff64 | tpOff64 | tlsGd | tlsLd | dtpOff32 | gotTpOff | tpOff32
  | pc64 | gotOff64 | gotPc32 | size32 | size64 | gotPc32TlsDesc | tlsDescCall | tlsDesc
  | iRelative | unknown (raw : ℕ)
  deriving DecidableEq, Repr

/-- `symbolValue` is that of a symbol that the module itself defines. -/
structure Relocation where
  offset : ℕ
  kind : RelocationKind
  addend : ℤ
  symbolName : Option String
  symbolValue : Option ℕ
  deriving DecidableEq, Repr

structure ExecutableImage where
  memorySize : ℕ
  segments : List LoadableSegment
  entryPoint : ℕ
  exports : List (String × ℕ)
  neededModules : List String
  relocations : List Relocation
  deriving DecidableEq, Repr

structure Module where
  id : ℕ
  name : String
  baseAddr : ℕ
  memorySize : ℕ
  entryPoint : ℕ
  exports : List (String × ℕ)
  isHle : Bool
  deriving DecidableEq, Repr

inductive LoaderError where
  | memory (e : MapError)
  | writeBytes (addr : ℕ)
  | segmentOffset (offset base : ℕ)
  | segmentSpan (vaddr data bss : ℕ)
  | unregistered (handle : ℕ)
  | segfault (target : ℕ)
  | stubsMissing
  | stubsExhausted
  deriving DecidableEq, Repr

structure ModuleAllocator where
  currentAddr : ℕ
  align : ℕ
  deriving DecidableEq, Repr

/-- The address handed out, and the allocator after it. -/
def ModuleAllocator.allocate (a : ModuleAllocator) (size : ℕ) : ℕ × ModuleAllocator :=
  (a.currentAddr,{ a with
    currentAddr := wrap (a.currentAddr+andNot (wrap (size+a.align-1)) (a.align-1)) })

structure ModuleManager where
  modules : List Module
  nameMap : List (String × ℕ)
  allocator : ModuleAllocator
  nextId : ℕ
  deriving DecidableEq, Repr

namespace ModuleManager

def new : ModuleManager := ⟨[],[],⟨0x400000,0x4000⟩,1⟩

variable (manager : ModuleManager)

def getModule (handle : ℕ) : Option Module := manager.modules.find? fun m => m.id = handle

def registerModule (m : Module) : ModuleManager :=
  { manager with
    modules := manager.modules.filter (fun m' => m'.id ≠ m.id) ++ [m]
    nameMap := (m.name,m.id) :: manager.nameMap.filter fun entry => entry.1 ≠ m.name }

def getByName (name : String) : Option Module := (manager.nameMap.lookup name).bind manager.getModule

end ModuleManager

/-- An order in which a hash map is traversed. -/
structure MapOrder where
  iter : List Module → List Module
  perm : ∀ modules, (iter modules).Perm modules

/-- The order of registration is one. -/
def MapOrder.inserted : MapOrder := ⟨id,fun _ => .refl _⟩

def resolveSymbol (order : MapOrder) (modules : List Module) (symbolName : String) : Option ℕ :=
  (order.iter modules).findSome? fun m => m.exports.lookup symbolName

def lazyStubsSize : ℕ := 0x10000
def lazyStubSize : ℕ := 32

/-- What a relocation of a module was written with; `stub` tells a missing-symbol stub. -/
structure Fixup where
  handle : ℕ
  relocation : Relocation
  value : ℕ
  stub : Bool
  deriving DecidableEq, Repr

/-- `missing` counts the names of missing symbols that were registered. `fixups` is kept for the
proofs: it records the slots that were written, the latest first. -/
structure LinkerState where
  stubsBase : ℕ
  stubsCursor : ℕ
  missing : ℕ
  fixups : List Fixup
  deriving DecidableEq, Repr

def page : ℕ := 0x1000

/-- Where the run of free pages from an address on ends. -/
def freeRun (m : VmMemoryManager) (stop : ℕ) : (fuel addr : ℕ) → ℕ
  | 0, addr => addr
  | fuel+1, addr =>
      if addr < stop ∧ m.isMemoryFree addr page then freeRun m stop fuel (addr+page) else addr

/-- `fuel` is the number of pages that are left. -/
def mapFreePages (stop : ℕ) (prot : MemoryProtection) (name : String) :
    (fuel : ℕ) → VmMemoryManager → (addr : ℕ) → VmMemoryManager × Except LoaderError Unit
  | 0, m, _ => (m,.ok ())
  | fuel+1, m, addr =>
      if addr < stop then
        if m.isMemoryFree addr page then
          let runEnd := freeRun m stop (fuel+1) addr
          match m.map addr (runEnd-addr) prot (some name) with
          | (m,.error e) => (m,.error (.memory e))
          | (m,.ok _) => mapFreePages stop prot name fuel m runEnd
        else mapFreePages stop prot name fuel m (addr+page)
      else (m,.ok ())

def segmentSpan (vaddr dataLen bssSize : ℕ) : Option (ℕ × ℕ) :=
  if vaddr+dataLen+bssSize+0xFFF < 2^64 then
    some (andNot vaddr 0xFFF,andNot (vaddr+dataLen+bssSize+0xFFF) 0xFFF)
  else none

def writeBytes (m : VmMemoryManager) (addr : ℕ) (data : List UInt8) :
    VmMemoryManager × Except LoaderError Unit :=
  if m.vm.accepts addr data.length then ({ m with stores := .write addr data :: m.stores },.ok ())
  else (m,.error (.writeBytes addr))

def zeroMemory (m : VmMemoryManager) (addr size : ℕ) : VmMemoryManager × Except LoaderError Unit :=
  if m.vm.accepts addr size then ({ m with stores := .zero addr size :: m.stores },.ok ())
  else (m,.error (.writeBytes addr))

/-- A segment's data and bss go to the whole of its range, whichever pages of it were mapped. -/
def fillSegment (m : VmMemoryManager) (vaddr : ℕ) (seg : LoadableSegment) :
    VmMemoryManager × Except LoaderError Unit :=
  match if seg.data = [] then (m,.ok ()) else writeBytes m vaddr seg.data with
  | (m,.error e) => (m,.error e)
  | (m,.ok ()) =>
      if 0 < seg.bssSize then zeroMemory m (vaddr+seg.data.length) seg.bssSize else (m,.ok ())

def mapSegment (base : ℕ) (name : String) (m : VmMemoryManager) (seg : LoadableSegment) :
    VmMemoryManager × Except LoaderError Unit :=
  let vaddr := base+seg.offset
  if 2^64 ≤ vaddr then (m,.error (.segmentOffset seg.offset base))
  else
    match segmentSpan vaddr seg.data.length seg.bssSize with
    | none => (m,.error (.segmentSpan vaddr seg.data.length seg.bssSize))
    | some (start,stop) =>
        match mapFreePages stop { seg.protection with write := true } name ((stop-start)/page) m start with
        | (m,.error e) => (m,.error e)
        | (m,.ok ()) => fillSegment m vaddr seg

def mapSegments (base : ℕ) (name : String) :
    VmMemoryManager → List LoadableSegment → VmMemoryManager × Except LoaderError Unit
  | m,[] => (m,.ok ())
  | m,seg :: segs =>
      match mapSegment base name m seg with
      | (m,.error e) => (m,.error e)
      | (m,.ok ()) => mapSegments base name m segs

structure LoadState where
  manager : ModuleManager
  memory : VmMemoryManager
  linker : LinkerState

/-- The base that the next image is given, and the manager after it was taken. -/
def takeBase (manager : ModuleManager) (image : ExecutableImage) : ℕ × ModuleManager :=
  let manager := { manager with nextId := manager.nextId+1 }
  if 0 < image.memorySize then
    let (base,allocator) := manager.allocator.allocate image.memorySize
    (base,{ manager with allocator := allocator })
  else (0,manager)

def imageModule (handle base : ℕ) (image : ExecutableImage) (name : String) : Module :=
  ⟨handle,name,base,image.memorySize,wrap (base+image.entryPoint),
    image.exports.map fun entry => (entry.1,wrap (base+entry.2)),false⟩

def mapImage (st : LoadState) (image : ExecutableImage) (name : String) :
    LoadState × Except LoaderError ℕ :=
  let handle := st.manager.nextId
  let (base,manager) := takeBase st.manager image
  match mapSegments base name st.memory image.segments with
  | (memory,.error e) => ({ st with manager := manager, memory := memory },.error e)
  | (memory,.ok ()) =>
      ({ st with
        manager := manager.registerModule (imageModule handle base image name)
        memory := memory },.ok handle)

/-- A 64-bit sum with a signed addend. -/
def addSigned (n : ℕ) (addend : ℤ) : ℕ := (((n : ℤ)+addend) % 2^64).toNat

/-- What a relocation puts in its slot: nothing, a word, or a stub for a missing symbol. -/
inductive Binding where
  | skip
  | word (value : ℕ)
  | stub (addend : ℤ)
  deriving DecidableEq, Repr

def binding (resolve : String → Option ℕ) (base handle : ℕ) (r : Relocation) : Binding :=
  match r.kind with
  | .relative => .word (addSigned base r.addend)
  | .absolute64 =>
      match r.symbolValue with
      | some v => .word (addSigned (wrap (base+v)) r.addend)
      | none =>
          match r.symbolName with
          | none => .word (addSigned 0 r.addend)
          | some name =>
              match resolve name with
              | some addr => .word (addSigned addr r.addend)
              | none => .stub r.addend
  | .jumpSlot | .globDat =>
      match r.symbolName with
      | none => .skip
      | some name =>
          match resolve name with
          | some addr => .word addr
          | none => .stub 0
  | .dtpMod64 | .dtpOff64 => .word handle
  | .tpOff64 => .word (addSigned 0 r.addend)
  | _ => .skip

def wordBytes (value : ℕ) : List UInt8 := (List.range 8).map fun i => UInt8.ofNat (value/2^(8*i))

/-- A word is stored when its address lies in the arena. -/
def writeWord (m : VmMemoryManager) (target value : ℕ) : VmMemoryManager × Except LoaderError Unit :=
  if guestBase ≤ target ∧ target < m.vm.span then
    ({ m with stores := .write target (wordBytes value) :: m.stores },.ok ())
  else (m,.error (.segfault target))

/-- MOV R10, RCX; MOV EAX, magic; SYSCALL; RET. -/
def stubCode (magic : ℕ) : List UInt8 :=
  [0x49,0x89,0xCA,0xB8] ++ (wordBytes magic).take 4 ++ [0x0F,0x05,0xC3]

def allocMissingStub (m : VmMemoryManager) (linker : LinkerState) :
    VmMemoryManager × LinkerState × Except LoaderError ℕ :=
  if linker.stubsBase = 0 then (m,linker,.error .stubsMissing)
  else if lazyStubsSize < linker.stubsCursor+lazyStubSize then (m,linker,.error .stubsExhausted)
  else
    let addr := linker.stubsBase+linker.stubsCursor
    let magic := 0xC0000000 ||| linker.missing
    let linker := { linker with
      stubsCursor := linker.stubsCursor+lazyStubSize, missing := linker.missing+1 }
    match writeBytes m addr (stubCode magic) with
    | (m,.error e) => (m,linker,.error e)
    | (m,.ok ()) => (m,linker,.ok addr)

/-- The slot of a relocation is written. -/
def writeSlot (base handle : ℕ) (m : VmMemoryManager) (linker : LinkerState) (r : Relocation)
    (value : ℕ) (stub : Bool) : VmMemoryManager × LinkerState × Except LoaderError Unit :=
  match writeWord m (wrap (base+r.offset)) value with
  | (m,.error e) => (m,linker,.error e)
  | (m,.ok ()) => (m,{ linker with fixups := ⟨handle,r,value,stub⟩ :: linker.fixups },.ok ())

def applyRelocation (resolve : String → Option ℕ) (base handle : ℕ) (m : VmMemoryManager)
    (linker : LinkerState) (r : Relocation) :
    VmMemoryManager × LinkerState × Except LoaderError Unit :=
  match binding resolve base handle r with
  | .skip => (m,linker,.ok ())
  | .word value => writeSlot base handle m linker r value false
  | .stub addend =>
      match allocMissingStub m linker with
      | (m,linker,.error e) => (m,linker,.error e)
      | (m,linker,.ok addr) => writeSlot base handle m linker r (addSigned addr addend) true

def applyRelocations (resolve : String → Option ℕ) (base handle : ℕ) :
    VmMemoryManager → LinkerState → List Relocation →
      VmMemoryManager × LinkerState × Except LoaderError Unit
  | m,linker,[] => (m,linker,.ok ())
  | m,linker,r :: rs =>
      match applyRelocation resolve base handle m linker r with
      | (m,linker,.error e) => (m,linker,.error e)
      | (m,linker,.ok ()) => applyRelocations resolve base handle m linker rs

/-- The spans of the segments are given the protection of the image. -/
def protectSegment (base : ℕ) (m : VmMemoryManager) (seg : LoadableSegment) : VmMemoryManager :=
  if 2^64 ≤ base+seg.offset then m
  else
    match segmentSpan (base+seg.offset) seg.data.length seg.bssSize with
    | none => m
    | some (start,stop) =>
        if seg.protection = ⟨true,true,false⟩ then m else m.protect start (stop-start) seg.protection

def relocateImage (order : MapOrder) (st : LoadState) (image : ExecutableImage) (handle : ℕ) :
    LoadState × Except LoaderError Unit :=
  match st.manager.getModule handle with
  | none => (st,.error (.unregistered handle))
  | some m =>
      match applyRelocations (resolveSymbol order st.manager.modules) m.baseAddr handle st.memory
        st.linker image.relocations with
      | (memory,linker,.error e) => ({ st with memory := memory, linker := linker },.error e)
      | (memory,linker,.ok ()) =>
          ({ st with
            memory := image.segments.foldl (protectSegment m.baseAddr) memory
            linker := linker },.ok ())

def loadImage (order : MapOrder) (st : LoadState) (image : ExecutableImage) (name : String) :
    LoadState × Except LoaderError ℕ :=
  match mapImage st image name with
  | (st,.error e) => (st,.error e)
  | (st,.ok handle) =>
      match relocateImage order st image handle with
      | (st,.error e) => (st,.error e)
      | (st,.ok ()) => (st,.ok handle)

/-- The region for the stubs of missing symbols. -/
def initStubs (st : LoadState) : LoadState × Except MapError Unit :=
  match st.memory.map 0 lazyStubsSize ⟨true,true,true⟩ (some "Lazy_Stubs") with
  | (memory,.error e) => ({ st with memory := memory },.error e)
  | (memory,.ok addr) =>
      ({ st with memory := memory, linker := { st.linker with stubsBase := addr } },.ok ())

end Unemups4.Loader

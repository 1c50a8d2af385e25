import Unemups4.MapSums
import Unemups4.LoadFrame

/-! The sums that linking makes over the fields of an image, all of which a file can choose: when a base
is taken, the segments are mapped, the module is registered and the relocations are applied. Those that
the code checks or caps are not listed. -/
namespace Unemups4.Loader
open Memory
open Transition (Reach)
open Words

structure ParsedSegment where
  offset : UInt64
  data : List UInt8
  protection : MemoryProtection
  bssSize : UInt64

structure ParsedRelocation where
  offset : UInt64
  kind : RelocationKind
  addend : Int64
  symbolName : Option String
  symbolValue : Option UInt64

/-- What is parsed from a file: its fields are words. -/
structure ParsedImage where
  segments : List ParsedSegment
  entry : UInt64
  exports : List (String × UInt64)
  neededModules : List String
  relocations : List ParsedRelocation

def saturatingAdd (a b : ℕ) : ℕ := min (a+b) (2^64-1)

def ParsedSegment.spanEnd (s : ParsedSegment) : ℕ :=
  saturatingAdd (saturatingAdd s.offset.toNat s.data.length) s.bssSize.toNat

def ParsedSegment.loadable (s : ParsedSegment) : LoadableSegment :=
  ⟨s.offset.toNat,s.data,s.protection,s.bssSize.toNat⟩

def ParsedRelocation.relocation (r : ParsedRelocation) : Relocation :=
  ⟨r.offset.toNat,r.kind,r.addend.toInt,r.symbolName,r.symbolValue.map UInt64.toNat⟩

namespace ParsedImage

variable (image : ParsedImage)

/-- The highest end of a segment. -/
def memorySize : ℕ := (image.segments.map ParsedSegment.spanEnd).foldl max 0

/-- What the linker sees of it. -/
def executable : ExecutableImage :=
  ⟨image.memorySize,image.segments.map ParsedSegment.loadable,image.entry.toNat,
    image.exports.map fun entry => (entry.1,entry.2.toNat),image.neededModules,
    image.relocations.map ParsedRelocation.relocation⟩

end ParsedImage

/-- The size is rounded up to the alignment. -/
def ModuleAllocator.allocateSums (a : ModuleAllocator) (size : ℕ) : List Op :=
  [.add size a.align,.sub (wrap (size+a.align)) 1,.sub a.align 1,
    .add a.currentAddr (andNot (wrap (size+a.align-1)) (a.align-1))]

section Sums

/-- The pages of a run are looked at one by one. -/
def freeRunSums (m : VmMemoryManager) (stop : ℕ) : (fuel addr : ℕ) → List Op
  | 0, _ => []
  | fuel+1, addr =>
      if addr < stop then
        .add addr page ::
          if m.isMemoryFree addr page then .add addr page :: freeRunSums m stop fuel (addr+page) else []
      else []

def mapFreePagesSums (stop : ℕ) (prot : MemoryProtection) (name : String) :
    (fuel : ℕ) → VmMemoryManager → (addr : ℕ) → List Op
  | 0, _, _ => []
  | fuel+1, m, addr =>
      if addr < stop then
        .add addr page ::
          if m.isMemoryFree addr page then
            let runEnd := freeRun m stop (fuel+1) addr
            freeRunSums m stop (fuel+1) addr++.sub runEnd addr :: m.mapAlignedSums addr (runEnd-addr) 0++
              match m.map addr (runEnd-addr) prot (some name) with
              | (_,.error _) => []
              | (m,.ok _) => mapFreePagesSums stop prot name fuel m runEnd
          else .add addr page :: mapFreePagesSums stop prot name fuel m (addr+page)
      else []

def fillSums (m : VmMemoryManager) (vaddr : ℕ) (seg : LoadableSegment) : List Op :=
  match if seg.data = [] then (m,.ok ()) else writeBytes m vaddr seg.data with
  | (_,.error _) => []
  | (_,.ok ()) => if 0 < seg.bssSize then [.add vaddr seg.data.length] else []

def segmentSums (base : ℕ) (name : String) (m : VmMemoryManager) (seg : LoadableSegment) : List Op :=
  let vaddr := base+seg.offset
  if 2^64 ≤ vaddr then []
  else
    match segmentSpan vaddr seg.data.length seg.bssSize with
    | none => []
    | some (start,stop) =>
        let prot := { seg.protection with write := true }
        mapFreePagesSums stop prot name ((stop-start)/page) m start++
          match mapFreePages stop prot name ((stop-start)/page) m start with
          | (_,.error _) => []
          | (m,.ok ()) => fillSums m vaddr seg

def segmentsSums (base : ℕ) (name : String) : VmMemoryManager → List LoadableSegment → List Op
  | _,[] => []
  | m,seg :: segs =>
      segmentSums base name m seg++
        match mapSegment base name m seg with
        | (_,.error _) => []
        | (m,.ok ()) => segmentsSums base name m segs

/-- The entry point and the exports are shifted once all segments are mapped. -/
def mapImageSums (st : LoadState) (image : ExecutableImage) (name : String) : List Op :=
  (if 0 < image.memorySize then st.manager.allocator.allocateSums image.memorySize else [])++
    segmentsSums (loadBase st image) name st.memory image.segments++
    match mapSegments (loadBase st image) name st.memory image.segments with
    | (_,.error _) => []
    | (_,.ok ()) =>
        .add (loadBase st image) image.entryPoint ::
          image.exports.map fun entry => .add (loadBase st image) entry.2

/-- A word read as a signed one. -/
def signed (n : ℕ) : ℤ := Int.bmod n (2^64)

def LinkerState.stubSums (linker : LinkerState) : List Op :=
  if linker.stubsBase = 0 then []
  else
    .add linker.stubsCursor lazyStubSize ::
      if lazyStubsSize < linker.stubsCursor+lazyStubSize then []
      else [.add linker.stubsBase linker.stubsCursor,.add linker.stubsCursor lazyStubSize]

variable (resolve : String → Option ℕ) (base handle : ℕ)

def relocationSums (m : VmMemoryManager) (linker : LinkerState) (r : Relocation) : List Op :=
  .add base r.offset ::
    match r.kind with
    | .relative => [.addSigned (signed base) r.addend]
    | .absolute64 =>
        match r.symbolValue with
        | some v => [.add base v,.addSigned (signed (wrap (base+v))) r.addend]
        | none =>
            match r.symbolName with
            | none => [.addSigned 0 r.addend]
            | some name =>
                match resolve name with
                | some addr => [.addSigned (signed addr) r.addend]
                | none =>
                    linker.stubSums++
                      match allocMissingStub m linker with
                      | (_,_,.error _) => []
                      | (_,_,.ok addr) => [.addSigned (signed addr) r.addend]
    | .jumpSlot | .globDat =>
        match r.symbolName.map resolve with
        | some none => linker.stubSums
        | _ => []
    | _ => []

def relocationsSums : VmMemoryManager → LinkerState → List Relocation → List Op
  | _,_,[] => []
  | m,linker,r :: rs =>
      relocationSums resolve base m linker r++
        match applyRelocation resolve base handle m linker r with
        | (_,_,.error _) => []
        | (m,linker,.ok ()) => relocationsSums m linker rs

end Sums

/-- The spans that are given their protection. -/
def protectSums (base : ℕ) (seg : LoadableSegment) : List Op :=
  if 2^64 ≤ base+seg.offset then []
  else
    match segmentSpan (base+seg.offset) seg.data.length seg.bssSize with
    | none => []
    | some (start,stop) => [.sub stop start]

def relocateImageSums (order : MapOrder) (st : LoadState) (image : ExecutableImage) (handle : ℕ) :
    List Op :=
  match st.manager.getModule handle with
  | none => []
  | some m =>
      let resolve := resolveSymbol order st.manager.modules
      relocationsSums resolve m.baseAddr handle st.memory st.linker image.relocations++
        match applyRelocations resolve m.baseAddr handle st.memory st.linker image.relocations with
        | (_,_,.error _) => []
        | (_,_,.ok ()) => image.segments.flatMap (protectSums m.baseAddr)

/-- What is asked of the linker, and what happens to the modules and the memory in between. -/
inductive LinkCall where
  | initStubs
  | mapImage (image : ParsedImage) (name : String)
  | relocateImage (order : MapOrder) (image : ParsedImage) (handle : ℕ)
  | registerModule (m : Module)
  | memory (memory : VmMemoryManager)

/-- The loader, and the sums that linking has made so far. -/
structure LinkRun where
  load : LoadState
  sums : List Op

namespace LinkRun

variable (s : LinkRun)

def Initial (s : LinkRun) : Prop :=
  s.load.manager.allocator = ⟨0x400000,0x4000⟩ ∧ s.load.linker.stubsBase = 0 ∧
    s.load.linker.stubsCursor = 0 ∧ s.sums = []

def serve : LinkCall → LoadState
  | .initStubs => (Loader.initStubs s.load).1
  | .mapImage image name => (Loader.mapImage s.load image.executable name).1
  | .relocateImage order image handle => (Loader.relocateImage order s.load image.executable handle).1
  | .registerModule m => { s.load with manager := s.load.manager.registerModule m }
  | .memory memory => { s.load with memory := memory }

def callSums : LinkCall → List Op
  | .mapImage image name => mapImageSums s.load image.executable name
  | .relocateImage order image handle => relocateImageSums order s.load image.executable handle
  | _ => []

def step (call : LinkCall) : Option LinkRun := some ⟨s.serve call,s.callSums call++s.sums⟩

end LinkRun

/-- A size that can be rounded up, and for which there is room. -/
def ModuleAllocator.Fits (a : ModuleAllocator) (size : ℕ) : Prop :=
  size+a.align < 2^64 ∧ a.currentAddr+andNot (size+(a.align-1)) (a.align-1) < 2^64

/-- An image of some size gets a base; once its segments are mapped, its entry point and its exports
can be shifted by the base. -/
def MapFits (st : LoadState) (image : ExecutableImage) (name : String) : Prop :=
  (image.memorySize = 0 ∨ st.manager.allocator.Fits image.memorySize) ∧
    ((mapSegments (loadBase st image) name st.memory image.segments).2.isOk →
      loadBase st image+image.entryPoint < 2^64 ∧
        ∀ entry ∈ image.exports, loadBase st image+entry.2 < 2^64)

def AddendFits (n : ℕ) (addend : ℤ) : Prop := -2^63 ≤ signed n+addend ∧ signed n+addend < 2^63

/-- Another stub can be stored. -/
def LinkerState.HasRoom (linker : LinkerState) (m : VmMemoryManager) : Prop :=
  linker.stubsBase ≠ 0 ∧ linker.stubsCursor+lazyStubSize ≤ lazyStubsSize ∧
    m.vm.accepts (linker.stubsBase+linker.stubsCursor) 11

section Fits

variable (resolve : String → Option ℕ) (base handle : ℕ)

/-- The slot of a relocation has an address, and so has what it is written with. -/
def Relocation.Fits (m : VmMemoryManager) (linker : LinkerState) (r : Relocation) : Prop :=
  base+r.offset < 2^64 ∧
    match r.kind with
    | .relative => AddendFits base r.addend
    | .absolute64 =>
        match r.symbolValue with
        | some v => base+v < 2^64 ∧ AddendFits (base+v) r.addend
        | none =>
            match r.symbolName.map resolve with
            | some (some addr) => AddendFits addr r.addend
            | some none => linker.HasRoom m → AddendFits (linker.stubsBase+linker.stubsCursor) r.addend
            | none => True
    | _ => True

/-- Every relocation does in the state in which it is reached. -/
def RelocationsFit : VmMemoryManager → LinkerState → List Relocation → Prop
  | _,_,[] => True
  | m,linker,r :: rs =>
      r.Fits resolve base m linker ∧ ∀ m' linker',
        applyRelocation resolve base handle m linker r = (m',linker',.ok ()) → RelocationsFit m' linker' rs

end Fits

namespace LinkRun

/-- The base, the entry point, the exports and the slots and values of relocations are words. -/
def Careful (s : LinkRun) : LinkCall → Prop
  | .mapImage image name => MapFits s.load image.executable name
  | .relocateImage order image handle => ∀ m, s.load.manager.getModule handle = some m →
      RelocationsFit (resolveSymbol order s.load.manager.modules) m.baseAddr handle s.load.memory
        s.load.linker image.executable.relocations
  | _ => True

end LinkRun

section Map

variable {m m' : VmMemoryManager} {stop addr fuel base size align : ℕ} {prot : MemoryProtection}
  {name : String} {seg : LoadableSegment} {segs : List LoadableSegment}

lemma freeRun_bounds (hstop : page ∣ stop) (haddr : page ∣ addr) (hle : addr ≤ stop) :
    page ∣ freeRun m stop fuel addr ∧ addr ≤ freeRun m stop fuel addr ∧
      freeRun m stop fuel addr ≤ stop := by
  induction fuel generalizing addr with
  | zero => exact ⟨haddr,le_refl addr,hle⟩
  | succ fuel ih =>
    rw [freeRun]
    split_ifs with hfree
    · have hnext := add_le_of_dvd_of_lt haddr hstop hfree.1
      obtain ⟨hdvd,hge,hend⟩ := ih ((Nat.dvd_add_right haddr).mpr (dvd_refl page)) hnext
      exact ⟨hdvd,(Nat.le_add_right addr page).trans hge,hend⟩
    · exact ⟨haddr,le_refl addr,hle⟩

lemma freeRunSums_exact (hstop : page ∣ stop) (hword : stop < 2^64) (haddr : page ∣ addr) :
    Exact (freeRunSums m stop fuel addr) := by
  induction fuel generalizing addr with
  | zero => exact exact_nil
  | succ fuel ih =>
    rw [freeRunSums]
    by_cases hlt : addr < stop
    · have hnext : addr+page < 2^64 := (add_le_of_dvd_of_lt haddr hstop hlt).trans_lt hword
      have hrest := ih ((Nat.dvd_add_right haddr).mpr (dvd_refl page))
      rw [if_pos hlt, exact_cons]
      refine ⟨hnext,?_⟩
      split_ifs
      · exact exact_cons.mpr ⟨hnext,hrest⟩
      · exact exact_nil
    · rw [if_neg hlt]
      exact exact_nil

lemma mapFreePagesSums_exact (hstop : page ∣ stop) (hword : stop < 2^64) (haddr : page ∣ addr)
    (hpos : 0 < addr) : Exact (mapFreePagesSums stop prot name fuel m addr) := by
  induction fuel generalizing m addr with
  | zero => exact exact_nil
  | succ fuel ih =>
    rw [mapFreePagesSums]
    split_ifs with hlt hfree
    · have hnext : addr+page < 2^64 := (add_le_of_dvd_of_lt haddr hstop hlt).trans_lt hword
      obtain ⟨hdvd,hge,-⟩ := @freeRun_bounds m stop addr (fuel+1) hstop haddr hlt.le
      simp only [exact_cons, exact_append]
      refine ⟨hnext,⟨freeRunSums_exact hstop hword haddr,hge,
        m.mapAlignedSums_exact_of_ne hpos.ne'⟩,?_⟩
      split
      · exact exact_nil
      · exact ih hdvd (hpos.trans_le hge)
    · have hnext : addr+page < 2^64 := (add_le_of_dvd_of_lt haddr hstop hlt).trans_lt hword
      rw [exact_cons, exact_cons]
      exact ⟨hnext,hnext,ih ((Nat.dvd_add_right haddr).mpr (dvd_refl page)) (Nat.add_pos_left hpos page)⟩
    · exact exact_nil

/-- A span lies around its segment, in pages. -/
lemma segmentSpan_eq {vaddr data bss start : ℕ} (h : segmentSpan vaddr data bss = some (start,stop)) :
    page ∣ start ∧ page ∣ stop ∧ start+page > vaddr ∧ start ≤ stop ∧ vaddr+data+bss ≤ stop ∧
      stop < 2^64 := by
  unfold segmentSpan at h
  split_ifs at h with hword
  obtain ⟨rfl,rfl⟩ := Prod.mk.inj (Option.some.inj h)
  rw [show 0xFFF = 2^12-1 from rfl, andNot_eq, andNot_eq]
  have hstart := Nat.div_add_mod' vaddr (2^12)
  have hend := Nat.div_add_mod' (vaddr+data+bss+(2^12-1)) (2^12)
  have hmod := Nat.mod_lt vaddr (y := 2^12) (by decide)
  have hmod' := Nat.mod_lt (vaddr+data+bss+(2^12-1)) (y := 2^12) (by decide)
  have hle := Nat.div_le_div_right (c := 2^12) (show vaddr ≤ vaddr+data+bss+(2^12-1) by omega)
  refine ⟨Nat.dvd_mul_left _ _,Nat.dvd_mul_left _ _,?_,Nat.mul_le_mul_right _ hle,?_,?_⟩
  · unfold page
    omega
  · omega
  · omega

/-- A segment at a base, or one without a size. -/
def Based (base : ℕ) (seg : LoadableSegment) : Prop :=
  page ≤ base ∨ base+seg.offset+seg.data.length+seg.bssSize = 0

lemma segmentSums_exact (hbased : Based base seg) : Exact (segmentSums base name m seg) := by
  unfold segmentSums
  dsimp only
  split_ifs with hover
  · exact exact_nil
  · split
    · exact exact_nil
    · rename_i start stop hspan
      obtain ⟨hstart,hstop,hnear,hle,hin,hword⟩ := segmentSpan_eq hspan
      rw [exact_append]
      constructor
      · rcases hbased with hbase | hnone
        · exact mapFreePagesSums_exact hstop hword hstart (by unfold page at *; omega)
        · -- there is no page in the span of nothing
          unfold segmentSpan at hspan
          rw [show base+seg.offset = 0 by omega, show seg.data.length = 0 by omega,
            show seg.bssSize = 0 by omega] at hspan
          obtain ⟨rfl,rfl⟩ := Prod.mk.inj (Option.some.inj hspan)
          exact exact_nil
      · split
        · exact exact_nil
        · unfold fillSums
          split
          · exact exact_nil
          · split_ifs
            · rw [exact_cons]
              exact ⟨show base+seg.offset+seg.data.length < 2^64 by omega,exact_nil⟩
            · exact exact_nil

lemma segmentsSums_exact (hbased : ∀ seg ∈ segs, Based base seg) :
    Exact (segmentsSums base name m segs) := by
  induction segs generalizing m with
  | nil => exact exact_nil
  | cons seg segs ih =>
    obtain ⟨hseg,hsegs⟩ := List.forall_mem_cons.mp hbased
    rw [segmentsSums, exact_append]
    refine ⟨segmentSums_exact hseg,?_⟩
    split
    · exact exact_nil
    · exact ih hsegs

lemma allocateSums_exact_iff {a : ModuleAllocator} (halign : 0 < a.align) :
    Exact (a.allocateSums size) ↔ a.Fits size := by
  unfold ModuleAllocator.allocateSums ModuleAllocator.Fits
  simp only [exact_cons, exact_nil, Op.Exact, and_true]
  constructor
  · rintro ⟨hsize,-,-,hroom⟩
    rw [wrap, Nat.add_sub_assoc halign, Nat.mod_eq_of_lt (by omega)] at hroom
    exact ⟨hsize,hroom⟩
  · rintro ⟨hsize,hroom⟩
    rw [Nat.add_sub_assoc halign, wrap, wrap, Nat.mod_eq_of_lt hsize, Nat.mod_eq_of_lt (by omega)]
    exact ⟨hsize,by omega,halign,hroom⟩

end Map

section Parsed

variable {image : ParsedImage} {st : LoadState} {name : String}

lemma ParsedSegment.spanEnd_le {seg : ParsedSegment} (h : seg ∈ image.segments) :
    seg.spanEnd ≤ image.memorySize :=
  (Intervals.foldl_max _ 0).2.2 _ (List.mem_map_of_mem h)

/-- The memory size is a word, whatever the fields of the segments are. -/
lemma memorySize_lt (image : ParsedImage) : image.memorySize < 2^64 := by
  rcases (Intervals.foldl_max (image.segments.map ParsedSegment.spanEnd) 0).1 with hnone | hmem
  · exact hnone.trans_lt (by decide)
  · obtain ⟨seg,-,hseg⟩ := List.mem_map.mp hmem
    rw [ParsedImage.memorySize, ← hseg]
    exact (min_le_right _ _).trans_lt (by decide)

/-- An image without a size has nothing to map. -/
lemma based_of_executable (hbase : page ≤ st.manager.allocator.currentAddr) :
    ∀ seg ∈ image.executable.segments, Based (loadBase st image.executable) seg := by
  intro seg hseg
  obtain ⟨parsed,hparsed,rfl⟩ := List.mem_map.mp hseg
  unfold loadBase takeBase
  split_ifs with hsize
  · exact .inl hbase
  · have hzero := ParsedSegment.spanEnd_le hparsed
    have hnone : image.memorySize = 0 := Nat.eq_zero_of_not_pos hsize
    unfold ParsedSegment.spanEnd saturatingAdd at hzero
    right
    simp only [ParsedSegment.loadable]
    omega

lemma mapImageSums_exact_iff (hbase : page ≤ st.manager.allocator.currentAddr)
    (halign : 0 < st.manager.allocator.align) :
    Exact (mapImageSums st image.executable name) ↔ MapFits st image.executable name := by
  have hsegs : Exact (segmentsSums (loadBase st image.executable) name st.memory
      image.executable.segments) := segmentsSums_exact (based_of_executable hbase)
  have htake : Exact (if 0 < image.executable.memorySize then
      st.manager.allocator.allocateSums image.executable.memorySize else []) ↔
      image.executable.memorySize = 0 ∨ st.manager.allocator.Fits image.executable.memorySize := by
    split_ifs with hsize
    · rw [allocateSums_exact_iff halign, or_iff_right hsize.ne']
    · simp [Nat.eq_zero_of_not_pos hsize]
  unfold mapImageSums MapFits
  rw [exact_append, exact_append, htake, and_iff_left hsegs]
  refine and_congr_right fun _ => ?_
  cases hmap : mapSegments (loadBase st image.executable) name st.memory image.executable.segments with
  | mk memory result =>
    cases result with
    | error e => simp [Except.isOk, Except.toBool]
    | ok u =>
      dsimp only
      rw [exact_cons, exact_map]
      simp [Except.isOk, Except.toBool, Op.Exact]

end Parsed

section Relocate

variable {m m' : VmMemoryManager} {linker linker' : LinkerState} {resolve : String → Option ℕ}
  {base handle : ℕ} {r : Relocation} {rs : List Relocation}

/-- The region of the stubs lies among the addresses, and the cursor in it. -/
structure LinkerState.Placed (linker : LinkerState) : Prop where
  base : linker.stubsBase ≤ 2^47
  cursor : linker.stubsCursor ≤ lazyStubsSize

lemma LinkerState.Placed.stubSums (h : linker.Placed) : Exact linker.stubSums := by
  obtain ⟨hbase,hcursor⟩ := h
  unfold LinkerState.stubSums lazyStubsSize lazyStubSize at *
  split_ifs with hnone hfull <;> simp only [exact_cons, exact_nil, Op.Exact, and_true] <;> omega

lemma allocMissingStub_ok_iff {addr : ℕ} : (allocMissingStub m linker).2.2 = .ok addr ↔
    linker.HasRoom m ∧ addr = linker.stubsBase+linker.stubsCursor := by
  have hlen : (stubCode (0xC0000000 ||| linker.missing)).length = 11 := by simp [stubCode, wordBytes]
  unfold allocMissingStub LinkerState.HasRoom writeBytes
  dsimp only
  rw [hlen]
  by_cases hbase : linker.stubsBase = 0
  · simp [hbase]
  · by_cases hfull : lazyStubsSize < linker.stubsCursor+lazyStubSize
    · simp [hbase, hfull]
    · by_cases haccepts : m.vm.accepts (linker.stubsBase+linker.stubsCursor) 11
      · simp [hbase, hfull, not_lt.mp hfull, haccepts, eq_comm]
      · simp [hbase, hfull, haccepts]

lemma LinkerState.Placed.alloc (h : linker.Placed) : (allocMissingStub m linker).2.1.Placed := by
  obtain ⟨hbase,hcursor⟩ := h
  unfold allocMissingStub
  split_ifs with hnone hfull
  · exact ⟨hbase,hcursor⟩
  · exact ⟨hbase,hcursor⟩
  · dsimp only
    split <;> exact ⟨hbase,not_lt.mp hfull⟩

lemma relocationSums_exact_iff (h : linker.Placed) (haddend : -2^63 ≤ r.addend ∧ r.addend < 2^63) :
    Exact (relocationSums resolve base m linker r) ↔ r.Fits resolve base m linker := by
  unfold relocationSums Relocation.Fits
  rw [exact_cons]
  refine and_congr_right fun _ => ?_
  cases hkind : r.kind with
  | relative => simp [Op.Exact, AddendFits]
  | absolute64 =>
    dsimp only
    cases hvalue : r.symbolValue with
    | some v =>
      simp only [exact_cons, exact_nil, and_true]
      refine and_congr_right fun hword => ?_
      rw [wrap, Nat.mod_eq_of_lt hword]
      rfl
    | none =>
      cases hname : r.symbolName with
      | none => simpa [Op.Exact] using haddend
      | some name =>
        cases hresolve : resolve name with
        | some addr => simp [hresolve, Op.Exact, AddendFits]
        | none =>
          simp only [Option.map_some, hresolve, exact_append, and_iff_right h.stubSums]
          cases hstub : allocMissingStub m linker with
          | mk m₁ rest =>
            obtain ⟨linker₁,result⟩ := rest
            have hiff := @allocMissingStub_ok_iff m linker
            rw [hstub] at hiff
            cases result with
            | error e =>
              have hfull : ¬linker.HasRoom m := by
                intro hroom
                cases hiff.mpr ⟨hroom,rfl⟩
              simp [hfull]
            | ok addr =>
              obtain ⟨hroom,rfl⟩ := hiff.mp rfl
              simp [hroom, Op.Exact, AddendFits]
  | jumpSlot =>
    simp only [iff_true]
    split
    · exact h.stubSums
    · exact exact_nil
  | globDat =>
    simp only [iff_true]
    split
    · exact h.stubSums
    · exact exact_nil
  | _ => simp

lemma LinkerState.Placed.applyRelocation {result : Except LoaderError Unit} (h : linker.Placed)
    (happly : applyRelocation resolve base handle m linker r = (m',linker',result)) : linker'.Placed := by
  have hslot : ∀ {m₁ : VmMemoryManager} {linker₁ : LinkerState} {value : ℕ} {stub : Bool},
      linker₁.Placed → writeSlot base handle m₁ linker₁ r value stub = (m',linker',result) →
        linker'.Placed := by
    intro m₁ linker₁ value stub hplaced hwrite
    unfold writeSlot at hwrite
    split at hwrite
    all_goals
      obtain ⟨-,hwrite⟩ := Prod.mk.inj hwrite
      obtain ⟨rfl,-⟩ := Prod.mk.inj hwrite
      exact ⟨hplaced.base,hplaced.cursor⟩
  unfold Loader.applyRelocation at happly
  split at happly
  · obtain ⟨-,happly⟩ := Prod.mk.inj happly
    obtain ⟨rfl,-⟩ := Prod.mk.inj happly
    exact h
  · exact hslot h happly
  · have halloc := h.alloc (m := m)
    split at happly
    · rename_i hstub
      rw [hstub] at halloc
      obtain ⟨-,happly⟩ := Prod.mk.inj happly
      obtain ⟨rfl,-⟩ := Prod.mk.inj happly
      exact halloc
    · rename_i hstub
      rw [hstub] at halloc
      exact hslot halloc happly

lemma LinkerState.Placed.applyRelocations {result : Except LoaderError Unit} (h : linker.Placed)
    (happly : applyRelocations resolve base handle m linker rs = (m',linker',result)) :
    linker'.Placed := by
  induction rs generalizing m linker with
  | nil =>
    obtain ⟨-,happly⟩ := Prod.mk.inj happly
    obtain ⟨rfl,-⟩ := Prod.mk.inj happly
    exact h
  | cons r rs ih =>
    rw [Loader.applyRelocations] at happly
    split at happly
    · rename_i hfirst
      obtain ⟨-,happly⟩ := Prod.mk.inj happly
      obtain ⟨rfl,-⟩ := Prod.mk.inj happly
      exact h.applyRelocation hfirst
    · rename_i hfirst
      exact ih (h.applyRelocation hfirst) happly

lemma relocationsSums_exact_iff (h : linker.Placed)
    (haddend : ∀ r ∈ rs, -2^63 ≤ r.addend ∧ r.addend < 2^63) :
    Exact (relocationsSums resolve base handle m linker rs) ↔
      RelocationsFit resolve base handle m linker rs := by
  induction rs generalizing m linker with
  | nil => simp [relocationsSums, RelocationsFit]
  | cons r rs ih =>
    obtain ⟨hr,hrs⟩ := List.forall_mem_cons.mp haddend
    rw [relocationsSums, RelocationsFit, exact_append, relocationSums_exact_iff h hr]
    refine and_congr_right fun _ => ?_
    cases hfirst : Loader.applyRelocation resolve base handle m linker r with
    | mk m₁ rest =>
      obtain ⟨linker₁,result⟩ := rest
      cases result with
      | error e => simp
      | ok u =>
        dsimp only
        rw [ih (h.applyRelocation hfirst) hrs]
        constructor
        · intro hfit m' linker' heq
          obtain ⟨hm,heq⟩ := Prod.mk.inj heq
          rwa [← hm, ← (Prod.mk.inj heq).1]
        · exact fun hfit => hfit m₁ linker₁ rfl

lemma protectSums_exact (base : ℕ) (seg : LoadableSegment) : Exact (protectSums base seg) := by
  unfold protectSums
  split_ifs
  · exact exact_nil
  · split
    · exact exact_nil
    · rename_i start stop hspan
      exact exact_cons.mpr ⟨(segmentSpan_eq hspan).2.2.2.1,exact_nil⟩

lemma executable_addend (image : ParsedImage) :
    ∀ r ∈ image.executable.relocations, -2^63 ≤ r.addend ∧ r.addend < 2^63 := by
  intro r hr
  obtain ⟨parsed,-,rfl⟩ := List.mem_map.mp hr
  exact ⟨parsed.addend.le_toInt,parsed.addend.toInt_lt⟩

lemma relocateImageSums_exact_iff {st : LoadState} (h : st.linker.Placed) (order : MapOrder)
    (image : ParsedImage) (handle : ℕ) :
    Exact (relocateImageSums order st image.executable handle) ↔
      ∀ m, st.manager.getModule handle = some m →
        RelocationsFit (resolveSymbol order st.manager.modules) m.baseAddr handle st.memory st.linker
          image.executable.relocations := by
  unfold relocateImageSums
  cases hmodule : st.manager.getModule handle with
  | none => simp
  | some m =>
    have hprotect : Exact (image.executable.segments.flatMap (protectSums m.baseAddr)) :=
      exact_flatMap.mpr fun seg _ => protectSums_exact m.baseAddr seg
    dsimp only
    rw [exact_append, relocationsSums_exact_iff h (executable_addend image), and_iff_left]
    · simp
    · split
      · exact exact_nil
      · exact hprotect

end Relocate

namespace LinkRun

variable {s s' : LinkRun} {call : LinkCall}

/-- What holds of the loader while no sum has wrapped. -/
structure Sound (st : LoadState) : Prop where
  align : st.manager.allocator.align = 0x4000
  based : 0x400000 ≤ st.manager.allocator.currentAddr
  placed : st.linker.Placed

lemma sound_initial (h : s.Initial) : Sound s.load := by
  obtain ⟨hallocator,hbase,hcursor,-⟩ := h
  refine ⟨by rw [hallocator],by rw [hallocator],?_,?_⟩
  · omega
  · rw [hcursor]
    exact Nat.zero_le _

lemma callSums_exact_iff (h : Sound s.load) (call : LinkCall) :
    Exact (s.callSums call) ↔ s.Careful call := by
  obtain ⟨halign,hbased,hplaced⟩ := h
  cases call with
  | mapImage image name =>
    exact mapImageSums_exact_iff (le_trans (by decide) hbased) (by rw [halign]; decide)
  | relocateImage order image handle => exact relocateImageSums_exact_iff hplaced order image handle
  | initStubs => exact iff_of_true exact_nil trivial
  | registerModule m => exact iff_of_true exact_nil trivial
  | memory memory => exact iff_of_true exact_nil trivial

lemma Sound.mapImage {st : LoadState} (h : Sound st) {image : ExecutableImage} {name : String}
    (hfits : MapFits st image name) : Sound (Loader.mapImage st image name).1 := by
  obtain ⟨halign,hbased,hplaced⟩ := h
  have hkept : (Loader.mapImage st image name).1.linker = st.linker ∧
      (Loader.mapImage st image name).1.manager.allocator = (takeBase st.manager image).2.allocator := by
    unfold Loader.mapImage
    dsimp only
    split <;> exact ⟨rfl,rfl⟩
  have htake : (takeBase st.manager image).2.allocator.align = 0x4000 ∧
      0x400000 ≤ (takeBase st.manager image).2.allocator.currentAddr := by
    unfold takeBase
    split_ifs with hsize
    · obtain ⟨hword,hroom⟩ := hfits.1.resolve_left hsize.ne'
      rw [halign] at hword hroom
      have hword' : image.memorySize+0x4000-1 < 2^64 := by omega
      simp only [ModuleAllocator.allocate, halign, wrap]
      rw [Nat.mod_eq_of_lt hword', Nat.add_sub_assoc (by decide), Nat.mod_eq_of_lt hroom]
      exact ⟨trivial,hbased.trans (Nat.le_add_right _ _)⟩
    · exact ⟨halign,hbased⟩
  exact ⟨by rw [hkept.2, htake.1],by rw [hkept.2]; exact htake.2,by rwa [hkept.1]⟩

lemma Sound.relocateImage {st : LoadState} (h : Sound st) (order : MapOrder) (image : ExecutableImage)
    (handle : ℕ) : Sound (Loader.relocateImage order st image handle).1 := by
  obtain ⟨halign,hbased,hplaced⟩ := h
  unfold Loader.relocateImage
  split
  · exact ⟨halign,hbased,hplaced⟩
  · split
    all_goals
      rename_i happly
      exact ⟨halign,hbased,hplaced.applyRelocations happly⟩

lemma initStubs_cases (st : LoadState) :
    (∃ memory e, Loader.initStubs st = ({ st with memory := memory },.error e)) ∨
    ∃ memory addr, st.memory.map 0 lazyStubsSize ⟨true,true,true⟩ (some "Lazy_Stubs") = (memory,.ok addr) ∧
      Loader.initStubs st = ({ st with
        memory := memory, linker := { st.linker with stubsBase := addr } },.ok ()) := by
  -- unfolded as a function, for otherwise the kernel runs the search for a region
  obtain ⟨init,hinit⟩ : ∃ init, init = Loader.initStubs := ⟨_,rfl⟩
  rw [← hinit]
  delta Loader.initStubs at hinit
  have hst := congrFun hinit st
  clear hinit
  beta_reduce at hst
  generalize st.memory.map 0 lazyStubsSize ⟨true,true,true⟩ (some "Lazy_Stubs") = mapped at hst ⊢
  obtain ⟨memory,e | addr⟩ := mapped
  · exact .inl ⟨memory,e,hst⟩
  · exact .inr ⟨memory,addr,rfl,hst⟩

lemma Sound.initStubs {st : LoadState} (h : Sound st) : Sound (Loader.initStubs st).1 := by
  obtain ⟨halign,hbased,hplaced⟩ := h
  rcases initStubs_cases st with ⟨memory,e,heq⟩ | ⟨memory,addr,hmap,heq⟩
  · rw [heq]
    exact ⟨halign,hbased,hplaced⟩
  · have hcases := mapAligned_cases st.memory 0 lazyStubsSize 0 ⟨true,true,true⟩ (some "Lazy_Stubs")
    rw [VmMemoryManager.map] at hmap
    rw [hmap] at hcases
    rw [heq]
    rcases hcases with ⟨e,herr,-⟩ | ⟨base,hok,hlands⟩
    · cases herr
    · obtain rfl := Except.ok.inj hok
      have hspan := hlands.located.belowSpan.trans st.memory.vm.userSpace
      exact ⟨halign,hbased,(Nat.le_add_right _ _).trans hspan,hplaced.cursor⟩

lemma Sound.serve (h : Sound s.load) (hcareful : s.Careful call) : Sound (s.serve call) := by
  cases call with
  | initStubs =>
    rw [LinkRun.serve]
    exact h.initStubs
  | mapImage image name => exact h.mapImage hcareful
  | relocateImage order image handle => exact h.relocateImage order image.executable handle
  | registerModule m => exact ⟨h.align,h.based,h.placed⟩
  | memory memory => exact ⟨h.align,h.based,h.placed⟩

lemma reach_sound (hs : Reach step Initial Careful s) : Sound s.load ∧ Exact s.sums := by
  induction hs with
  | start hinit => exact ⟨sound_initial hinit,by rw [hinit.2.2.2]; exact exact_nil⟩
  | step _ hcareful hstep ih =>
    obtain ⟨hsound,hexact⟩ := ih
    obtain rfl := Option.some.inj hstep
    exact ⟨hsound.serve hcareful,exact_append.mpr ⟨(callSums_exact_iff hsound _).mpr hcareful,hexact⟩⟩

/-- As long as all fields fit, no sum has wrapped, and the next call makes none that does exactly when
the fields that it meets fit. The memory size of an image is a word whatever they are. -/
theorem links_exactly_iff (hs : Reach step Initial Careful s) :
    Exact s.sums ∧ (∀ call, Exact (s.callSums call) ↔ s.Careful call) ∧
      ∀ image : ParsedImage, image.memorySize < 2^64 :=
  ⟨(reach_sound hs).2,callSums_exact_iff (reach_sound hs).1,memorySize_lt⟩

def startRun : LinkRun := ⟨startWith (.new TableRun.defaultVm),[]⟩

lemma startRun_reached {ok : LinkRun → LinkCall → Prop} : Reach step Initial ok startRun :=
  .start ⟨rfl,rfl,rfl,rfl⟩

/-- A page of code, with a pointer to its end that is relocated. -/
def pointing : ParsedImage :=
  ⟨[⟨0,[0xCC],⟨true,false,true⟩,0xFFF⟩],0,[("end",0x1000)],[],[⟨8,.relative,0x1000,none,none⟩]⟩

def mappedRun : LinkRun :=
  ⟨startRun.serve (.mapImage pointing "foo.prx"),startRun.callSums (.mapImage pointing "foo.prx")++[]⟩

/-- Its pointer is relocated without a wrap once it is mapped. -/
theorem links_exactly_iff_pointing :
    Exact (mappedRun.callSums (.relocateImage .inserted pointing 1)) := by
  have hcareful : startRun.Careful (.mapImage pointing "foo.prx") :=
    ⟨.inr ⟨by decide,by decide⟩,fun _ => ⟨by decide,by decide⟩⟩
  have hs : Reach step Initial Careful mappedRun := .step startRun_reached hcareful rfl
  refine ((links_exactly_iff hs).2.1 (.relocateImage .inserted pointing 1)).mpr fun m hm => ?_
  have hbase : m.baseAddr = 0x400000 := by
    have hmodules : ∀ m ∈ mappedRun.load.manager.modules, m.baseAddr = 0x400000 := by decide +kernel
    exact hmodules m (List.mem_of_find?_eq_some hm)
  rw [hbase]
  exact ⟨⟨by decide,by decide,by decide⟩,fun _ _ _ => trivial⟩

/-- A segment at the last page of the addresses. -/
def lastPage : ParsedImage := ⟨[⟨0xFFFFFFFFFFFFF000,[],⟨true,false,true⟩,0x2000⟩],0,[],[],[]⟩

/-- Its size is capped, and cannot be rounded up. -/
theorem not_exact_lastPage : ¬∀ s call, Reach step Initial (fun _ _ => True) s →
    Exact (s.callSums call) := by
  intro h
  have hexact := h startRun (.mapImage lastPage "foo.prx") startRun_reached
  exact absurd hexact (by decide +kernel)

end LinkRun

end Unemups4.Loader

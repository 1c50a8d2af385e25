import Unemups4.LoadImage
import Unemups4.VmaRuns

/-! What the loading of an image stores to: its segments' ranges, the slots of its relocations and
the region of the stubs, whatever else is mapped there. -/
namespace Unemups4.Memory
open VmMemoryManager

section Bytes

/-- The byte that a store leaves at an address. -/
def Store.byte (a : ℕ) : Store → Option UInt8
  | .write addr data => if addr ≤ a then data[a-addr]? else none
  | .zero addr len => if addr ≤ a ∧ a < addr+len then some 0 else none

def Store.Covers (a : ℕ) : Store → Prop
  | .write addr data => addr ≤ a ∧ a < addr+data.length
  | .zero addr len => addr ≤ a ∧ a < addr+len

/-- The byte at an address after the stores, over what was there before them. -/
def byteAt (contents : ℕ → UInt8) (stores : List Store) (a : ℕ) : UInt8 :=
  (stores.findSome? (Store.byte a)).getD (contents a)

lemma Store.byte_eq_none_iff {s : Store} {a : ℕ} : s.byte a = none ↔ ¬s.Covers a := by
  cases s with
  | write addr data =>
    simp only [byte, Covers]
    split_ifs with h
    · rw [List.getElem?_eq_none_iff]
      omega
    · simp [h]
  | zero addr len => simp [byte, Covers]

/-- A byte keeps every value that it can have exactly when no store covers it. -/
lemma byteAt_eq_iff {stores : List Store} {a : ℕ} :
    (∀ contents, byteAt contents stores a = contents a) ↔ ∀ s ∈ stores, ¬s.Covers a := by
  simp only [← Store.byte_eq_none_iff]
  rw [← List.findSome?_eq_none_iff]
  constructor
  · intro h
    cases hb : stores.findSome? (Store.byte a) with
    | none => rfl
    | some b =>
      have hcon := h fun _ => b+1
      rw [byteAt, hb] at hcon
      exact absurd hcon (by simp)
  · intro h contents
    rw [byteAt, h]
    rfl

end Bytes

/-- Some region of the table holds the byte. -/
def Mapped (m : VmMemoryManager) (a : ℕ) : Prop :=
  ∃ entry ∈ m.allocations, entry.2.start ≤ a ∧ a < entry.2.stop

section Map

variable {m m' : VmMemoryManager} {addr size align base a : ℕ} {prot : MemoryProtection}
  {name : Option String}

lemma Maps.tracked (h : Maps m m' addr size align base prot name) (ht : Tracked m) : Tracked m' := by
  have hnew : ∀ entry ∈ m'.allocations,
      entry = (base,region base size prot name) ∨ entry ∈ m.allocations := by
    intro entry he
    rw [h.allocations, mem_insertKey] at he
    exact he.imp_right And.left
  constructor
  · intro entry he
    rcases hnew entry he with rfl | he
    · rfl
    · exact ht.keyed entry he
  · intro entry he
    rw [h.vm]
    rcases hnew entry he with rfl | he
    · exact h.fits.belowSpan
    · exact ht.belowSpan entry he

/-- A mapped byte stays mapped, and the new region does not hold it. -/
lemma Maps.mapped (h : Maps m m' addr size align base prot name) (ht : Tracked m) (ha : Mapped m a) :
    Mapped m' a ∧ ¬(base ≤ a ∧ a < base+size) := by
  obtain ⟨entry,he,hstart,hstop⟩ := ha
  have hapart := h.fits.apart he
  have hkey := ht.keyed entry he
  have hpos := h.fits.pos
  refine ⟨⟨entry,?_,hstart,hstop⟩,by omega⟩
  rw [h.allocations, mem_insertKey]
  exact .inr ⟨he,by omega⟩

end Map

end Unemups4.Memory

namespace Unemups4.Loader
open Memory
open Transition (Reach)

/-- A step from one manager to another that stores, among the bytes looked at, to those it
touches. -/
structure Frame (old : ℕ → Prop) (m m' : VmMemoryManager) (touched : ℕ → Prop) : Prop where
  vm : m'.vm = m.vm
  tracked : Tracked m → Tracked m'
  mapped : ∀ a, Mapped m a → Mapped m' a
  stores : ∃ new, m'.stores = new ++ m.stores ∧
    ∀ a, old a → ((∃ s ∈ new, s.Covers a) ↔ touched a)

section Frame

variable {old t t' : ℕ → Prop} {m m' m'' : VmMemoryManager}

lemma Frame.refl (old : ℕ → Prop) (m : VmMemoryManager) : Frame old m m fun _ => False :=
  ⟨rfl,id,fun _ => id,[],rfl,by simp⟩

lemma Frame.trans (h : Frame old m m' t) (h' : Frame old m' m'' t') :
    Frame old m m'' fun a => t a ∨ t' a := by
  obtain ⟨hvm,htracked,hmapped,new,hnew,hiff⟩ := h
  obtain ⟨hvm',htracked',hmapped',new',hnew',hiff'⟩ := h'
  refine ⟨hvm'.trans hvm,htracked' ∘ htracked,fun a => hmapped' a ∘ hmapped a,new' ++ new,?_,?_⟩
  · rw [hnew', hnew, List.append_assoc]
  · intro a ha
    rw [← hiff a ha, ← hiff' a ha]
    simp only [List.mem_append, or_and_right, exists_or]
    exact or_comm

lemma Frame.congr (h : Frame old m m' t) (heq : ∀ a, old a → (t a ↔ t' a)) :
    Frame old m m' t' := by
  obtain ⟨hvm,htracked,hmapped,new,hnew,hiff⟩ := h
  exact ⟨hvm,htracked,hmapped,new,hnew,fun a ha => (hiff a ha).trans (heq a ha)⟩

/-- One store. -/
lemma frame_store (s : Store) : Frame old m { m with stores := s :: m.stores } s.Covers :=
  ⟨rfl,fun h => ⟨h.keyed,h.belowSpan⟩,fun _ => id,[s],rfl,by simp⟩

/-- A mapping zeroes nothing that was mapped. -/
lemma frame_map {addr size : ℕ} {prot : MemoryProtection} {name : String} {base : ℕ}
    (ht : Tracked m) (hold : ∀ a, old a → Mapped m a)
    (h : m.map addr size prot (some name) = (m',.ok base)) : Frame old m m' fun _ => False := by
  have hcases := ht.mapAligned_cases addr size (.inl rfl) prot (some name)
  rw [show m.mapAligned addr size 0 prot (some name) = _ from h] at hcases
  rcases hcases with ⟨e,herr,-⟩ | ⟨b,-,hmaps⟩
  · cases herr
  · obtain ⟨zeroed,hin,hstores⟩ := hmaps.stores
    refine ⟨hmaps.vm,hmaps.tracked,fun a ha => (hmaps.mapped ht ha).1,_,hstores,?_⟩
    intro a ha
    have hout := (hmaps.mapped ht (hold a ha)).2
    simp only [List.mem_map, iff_false]
    rintro ⟨_,⟨c,hc,rfl⟩,hcov⟩
    have hrange := hin c hc
    unfold Store.Covers at hcov
    omega

lemma frame_mapFreePages {stop : ℕ} {prot : MemoryProtection} {name : String} {fuel addr : ℕ}
    (ht : Tracked m) (hold : ∀ a, old a → Mapped m a)
    (h : mapFreePages stop prot name fuel m addr = (m',.ok ())) :
    Frame old m m' fun _ => False := by
  induction fuel generalizing m addr with
  | zero =>
    obtain ⟨rfl,-⟩ := Prod.mk.inj h
    exact .refl old m
  | succ fuel ih =>
    rw [mapFreePages] at h
    split_ifs at h
    · dsimp only at h
      split at h
      · cases h
      · rename_i m₁ base hmap
        have hfirst := frame_map ht hold hmap
        have hrest := ih (hfirst.tracked ht) (fun a ha => hfirst.mapped a (hold a ha)) h
        exact (hfirst.trans hrest).congr (by simp)
    · exact ih ht hold h
    · obtain ⟨rfl,-⟩ := Prod.mk.inj h
      exact .refl old m

lemma frame_writeBytes {addr : ℕ} {data : List UInt8} (h : writeBytes m addr data = (m',.ok ())) :
    Frame old m m' fun a => addr ≤ a ∧ a < addr+data.length := by
  unfold writeBytes at h
  split_ifs at h
  · obtain ⟨rfl,-⟩ := Prod.mk.inj h
    exact frame_store (.write addr data)
  · cases h

lemma frame_fillSegment {vaddr : ℕ} {seg : LoadableSegment}
    (h : fillSegment m vaddr seg = (m',.ok ())) :
    Frame old m m' fun a => vaddr ≤ a ∧ a < vaddr+seg.data.length+seg.bssSize := by
  unfold fillSegment at h
  split at h
  · cases h
  · rename_i m₁ hdata
    have hfirst : Frame old m m₁ fun a => vaddr ≤ a ∧ a < vaddr+seg.data.length := by
      split_ifs at hdata with hnil
      · obtain ⟨rfl,-⟩ := Prod.mk.inj hdata
        refine (Frame.refl old m).congr fun a _ => ?_
        simp only [hnil, List.length_nil, Nat.add_zero, false_iff]
        omega
      · exact frame_writeBytes hdata
    split_ifs at h with hbss
    · unfold zeroMemory at h
      split_ifs at h
      · obtain ⟨rfl,-⟩ := Prod.mk.inj h
        refine (hfirst.trans (frame_store (.zero (vaddr+seg.data.length) seg.bssSize))).congr ?_
        intro a _
        unfold Store.Covers
        omega
      · cases h
    · obtain ⟨rfl,-⟩ := Prod.mk.inj h
      refine hfirst.congr fun a _ => ?_
      omega

/-- The bytes that a segment is written to. -/
def LoadableSegment.Holds (base : ℕ) (seg : LoadableSegment) (a : ℕ) : Prop :=
  base+seg.offset ≤ a ∧ a < base+seg.offset+seg.data.length+seg.bssSize

lemma frame_mapSegment {base : ℕ} {name : String} {seg : LoadableSegment} (ht : Tracked m)
    (hold : ∀ a, old a → Mapped m a) (h : mapSegment base name m seg = (m',.ok ())) :
    Frame old m m' (seg.Holds base) := by
  unfold mapSegment at h
  dsimp only at h
  split_ifs at h
  · cases h
  · split at h
    · cases h
    · split at h
      · cases h
      · rename_i m₁ hpages
        have hfirst := frame_mapFreePages ht hold hpages
        exact (hfirst.trans (frame_fillSegment h)).congr (by simp [LoadableSegment.Holds])

lemma frame_mapSegments {base : ℕ} {name : String} {segs : List LoadableSegment} (ht : Tracked m)
    (hold : ∀ a, old a → Mapped m a) (h : mapSegments base name m segs = (m',.ok ())) :
    Frame old m m' fun a => ∃ seg ∈ segs, seg.Holds base a := by
  induction segs generalizing m with
  | nil =>
    obtain ⟨rfl,-⟩ := Prod.mk.inj h
    exact (Frame.refl old m).congr (by simp)
  | cons seg segs ih =>
    rw [mapSegments] at h
    split at h
    · cases h
    · rename_i m₁ hseg
      have hfirst := frame_mapSegment ht hold hseg
      have hrest := ih (hfirst.tracked ht) (fun a ha => hfirst.mapped a (hold a ha)) h
      exact (hfirst.trans hrest).congr (by simp)

lemma frame_writeWord {target value : ℕ} (h : writeWord m target value = (m',.ok ())) :
    Frame old m m' fun a => target ≤ a ∧ a < target+8 := by
  unfold writeWord at h
  split_ifs at h
  · obtain ⟨rfl,-⟩ := Prod.mk.inj h
    exact (frame_store (.write target (wordBytes value))).congr (by simp [Store.Covers, wordBytes])
  · cases h

/-- The region of the stubs. -/
def LinkerState.InStubs (linker : LinkerState) (a : ℕ) : Prop :=
  linker.stubsBase ≤ a ∧ a < linker.stubsBase+lazyStubsSize

instance (linker : LinkerState) (a : ℕ) : Decidable (linker.InStubs a) :=
  inferInstanceAs (Decidable (_ ∧ _))

lemma allocMissingStub_linker {linker linker' : LinkerState} {result : Except LoaderError ℕ}
    (h : allocMissingStub m linker = (m',linker',result)) :
    linker'.stubsBase = linker.stubsBase ∧ linker'.fixups = linker.fixups := by
  unfold allocMissingStub at h
  split_ifs at h
  · obtain ⟨-,h⟩ := Prod.mk.inj h
    simp [← (Prod.mk.inj h).1]
  · obtain ⟨-,h⟩ := Prod.mk.inj h
    simp [← (Prod.mk.inj h).1]
  · dsimp only at h
    split at h
    all_goals
      obtain ⟨-,h⟩ := Prod.mk.inj h
      simp [← (Prod.mk.inj h).1]

/-- A stub goes to the region of the stubs. -/
lemma frame_allocMissingStub {linker linker' : LinkerState} {addr : ℕ}
    (hstubs : ∀ a, old a → ¬linker.InStubs a)
    (h : allocMissingStub m linker = (m',linker',.ok addr)) : Frame old m m' fun _ => False := by
  unfold allocMissingStub at h
  split_ifs at h with hbase hfull
  · cases h
  · cases h
  · dsimp only at h
    split at h
    · cases h
    · rename_i m₁ hcode
      obtain ⟨rfl,-⟩ := Prod.mk.inj h
      refine (frame_writeBytes hcode).congr fun a ha => ?_
      have hout := hstubs a ha
      have hlen : (stubCode (0xC0000000 ||| linker.missing)).length = 11 := by
        simp [stubCode, wordBytes]
      unfold LinkerState.InStubs at hout
      unfold lazyStubSize at hfull
      rw [hlen, iff_false]
      omega

/-- Whether a relocation stores to its slot is told by its kind and whether it has a name. -/
def Relocation.Stores (r : Relocation) : Prop :=
  match r.kind with
  | .relative | .absolute64 | .dtpMod64 | .dtpOff64 | .tpOff64 => True
  | .jumpSlot | .globDat => r.symbolName ≠ none
  | _ => False

lemma binding_eq_skip_iff {resolve : String → Option ℕ} {base handle : ℕ} {r : Relocation} :
    binding resolve base handle r = .skip ↔ ¬r.Stores := by
  unfold binding Relocation.Stores
  cases r.kind
  case absolute64 =>
    cases r.symbolValue with
    | some v => simp
    | none =>
      cases r.symbolName with
      | none => simp
      | some name => cases hresolve : resolve name <;> simp [hresolve]
  case jumpSlot | globDat =>
    cases r.symbolName with
    | none => simp
    | some name => cases hresolve : resolve name <;> simp [hresolve]
  all_goals simp

/-- The bytes of a relocation's slot. -/
def Relocation.Slot (base : ℕ) (r : Relocation) (a : ℕ) : Prop :=
  r.Stores ∧ wrap (base+r.offset) ≤ a ∧ a < wrap (base+r.offset)+8

lemma frame_writeSlot (old : ℕ → Prop) {base handle value : ℕ} {stub : Bool} {r : Relocation}
    {linker linker' : LinkerState} (hstores : r.Stores)
    (h : writeSlot base handle m linker r value stub = (m',linker',.ok ())) :
    Frame old m m' (r.Slot base) ∧ linker'.stubsBase = linker.stubsBase := by
  unfold writeSlot at h
  split at h
  · cases h
  · rename_i m₁ hword
    obtain ⟨rfl,hrest⟩ := Prod.mk.inj h
    obtain ⟨rfl,-⟩ := Prod.mk.inj hrest
    refine ⟨(frame_writeWord hword).congr fun a _ => ?_,rfl⟩
    simp [Relocation.Slot, hstores]

lemma frame_applyRelocation {resolve : String → Option ℕ} {base handle : ℕ} {r : Relocation}
    {linker linker' : LinkerState} (hstubs : ∀ a, old a → ¬linker.InStubs a)
    (h : applyRelocation resolve base handle m linker r = (m',linker',.ok ())) :
    Frame old m m' (r.Slot base) ∧ linker'.stubsBase = linker.stubsBase := by
  unfold applyRelocation at h
  split at h
  · rename_i hskip
    obtain ⟨rfl,hrest⟩ := Prod.mk.inj h
    obtain ⟨rfl,-⟩ := Prod.mk.inj hrest
    refine ⟨(Frame.refl old m).congr fun a _ => ?_,rfl⟩
    simp [Relocation.Slot, binding_eq_skip_iff.mp hskip]
  · rename_i value hword
    have hstores : r.Stores := by
      by_contra hcon
      rw [binding_eq_skip_iff.mpr hcon] at hword
      cases hword
    exact frame_writeSlot old hstores h
  · rename_i addend hstub
    have hstores : r.Stores := by
      by_contra hcon
      rw [binding_eq_skip_iff.mpr hcon] at hstub
      cases hstub
    split at h
    · cases h
    · rename_i m₁ linker₁ addr halloc
      obtain ⟨hslot,hbase⟩ := frame_writeSlot old hstores h
      have hfirst := frame_allocMissingStub hstubs halloc
      exact ⟨(hfirst.trans hslot).congr (by simp),hbase.trans (allocMissingStub_linker halloc).1⟩

lemma frame_applyRelocations {resolve : String → Option ℕ} {base handle : ℕ} {rs : List Relocation}
    {linker linker' : LinkerState} (hstubs : ∀ a, old a → ¬linker.InStubs a)
    (h : applyRelocations resolve base handle m linker rs = (m',linker',.ok ())) :
    Frame old m m' fun a => ∃ r ∈ rs, r.Slot base a := by
  induction rs generalizing m linker with
  | nil =>
    obtain ⟨rfl,-⟩ := Prod.mk.inj h
    exact (Frame.refl old m).congr (by simp)
  | cons r rs ih =>
    rw [applyRelocations] at h
    split at h
    · cases h
    · rename_i m₁ linker₁ hr
      obtain ⟨hfirst,hbase⟩ := frame_applyRelocation hstubs hr
      have hrest := ih (by simpa only [LinkerState.InStubs, hbase] using hstubs) h
      exact (hfirst.trans hrest).congr (by simp)

lemma frame_protect (addr size : ℕ) (prot : MemoryProtection) :
    Frame old m (m.protect addr size prot) fun _ => False := by
  obtain ⟨f,hallocs,hf⟩ := VmMemoryManager.protect_allocations m addr size prot
  refine ⟨rfl,fun ht => ht.protect addr size prot,fun a ha => ?_,[],rfl,by simp⟩
  obtain ⟨entry,he,hstart,hstop⟩ := ha
  refine ⟨f entry,hallocs ▸ List.mem_map_of_mem he,?_,?_⟩
  · rwa [(hf entry).2.1]
  · rwa [(hf entry).2.2]

lemma frame_protectSegments (base : ℕ) (segs : List LoadableSegment) :
    Frame old m (segs.foldl (protectSegment base) m) fun _ => False := by
  induction segs generalizing m with
  | nil => exact .refl old m
  | cons seg segs ih =>
    have hfirst : Frame old m (protectSegment base m seg) fun _ => False := by
      unfold protectSegment
      split
      · exact .refl old m
      · split
        · exact .refl old m
        · split
          · exact .refl old m
          · exact frame_protect _ _ _
    exact (hfirst.trans ih).congr (by simp)

end Frame

/-- The base at which the next image is loaded. -/
def loadBase (st : LoadState) (image : ExecutableImage) : ℕ := (takeBase st.manager image).1

/-- The bytes that the loading of an image stores to, the region of the stubs apart. -/
def Touches (st : LoadState) (image : ExecutableImage) (a : ℕ) : Prop :=
  (∃ seg ∈ image.segments, seg.Holds (loadBase st image) a) ∨
    ∃ r ∈ image.relocations, r.Slot (loadBase st image) a

/-- A byte of a region from before, outside the region of the stubs. -/
def Old (st : LoadState) (a : ℕ) : Prop := Mapped st.memory a ∧ ¬st.linker.InStubs a

section Load

variable {order : MapOrder} {st st' : LoadState} {image : ExecutableImage} {name : String} {handle : ℕ}

/-- A module that was just registered is found by its handle. -/
lemma getModule_registerModule (manager : ModuleManager) {m : Module} (hid : m.id = handle) :
    (manager.registerModule m).getModule handle = some m := by
  unfold ModuleManager.registerModule ModuleManager.getModule
  dsimp only
  rw [List.find?_append, List.find?_eq_none.mpr]
  · simp [hid]
  · intro m' hm'
    simpa [hid] using (List.mem_filter.mp hm').2

lemma getModule_registerModule_of_ne (manager : ModuleManager) {m : Module} (hid : handle ≠ m.id) :
    (manager.registerModule m).getModule handle = manager.getModule handle := by
  unfold ModuleManager.registerModule ModuleManager.getModule
  dsimp only
  rw [List.find?_append, List.find?_filter, List.find?_singleton]
  have hsame : (fun m' : Module => decide (decide (m'.id ≠ m.id) = true ∧
      decide (m'.id = handle) = true)) = fun m' => decide (m'.id = handle) := by
    funext m'
    by_cases hm' : m'.id = handle <;> simp [hm', hid]
  rw [hsame, if_neg (by simpa using hid.symm), Option.or_none]

lemma mapImage_ok (h : mapImage st image name = (st',.ok handle)) :
    handle = st.manager.nextId ∧ st'.linker = st.linker ∧
    mapSegments (loadBase st image) name st.memory image.segments = (st'.memory,.ok ()) ∧
    st'.manager = (takeBase st.manager image).2.registerModule
      (imageModule handle (loadBase st image) image name) ∧
    st'.manager.getModule handle = some (imageModule handle (loadBase st image) image name) := by
  unfold mapImage at h
  dsimp only at h
  split at h
  · cases h
  · rename_i memory hsegs
    obtain ⟨rfl,hhandle⟩ := Prod.mk.inj h
    obtain rfl := Except.ok.inj hhandle
    exact ⟨rfl,rfl,hsegs,rfl,getModule_registerModule _ rfl⟩

lemma relocateImage_ok (h : relocateImage order st image handle = (st',.ok ())) :
    ∃ m memory, st.manager.getModule handle = some m ∧
      applyRelocations (resolveSymbol order st.manager.modules) m.baseAddr handle st.memory st.linker
        image.relocations = (memory,st'.linker,.ok ()) ∧
      st'.manager = st.manager ∧
      st'.memory = image.segments.foldl (protectSegment m.baseAddr) memory := by
  unfold relocateImage at h
  split at h
  · cases h
  · rename_i m hm
    split at h
    · cases h
    · rename_i memory linker hrelocs
      obtain ⟨rfl,-⟩ := Prod.mk.inj h
      exact ⟨m,memory,hm,hrelocs,rfl,rfl⟩

lemma frame_loadImage (ht : Tracked st.memory) (h : loadImage order st image name = (st',.ok handle)) :
    Frame (Old st) st.memory st'.memory (Touches st image) := by
  unfold loadImage at h
  split at h
  · cases h
  · rename_i st₁ handle₁ hmap
    obtain ⟨rfl,hlinker,hsegs,-,hmodule⟩ := mapImage_ok hmap
    have hfirst : Frame (Old st) st.memory _ _ :=
      frame_mapSegments ht (fun a ha => ha.1) hsegs
    split at h
    · cases h
    · rename_i st₂ hreloc
      obtain ⟨rfl,-⟩ := Prod.mk.inj h
      obtain ⟨m,memory,hm,hrelocs,-,hmemory⟩ := relocateImage_ok hreloc
      obtain rfl := Option.some.inj (hm.symm.trans hmodule)
      have hsecond : Frame (Old st) st₁.memory memory _ :=
        frame_applyRelocations (fun a ha => hlinker.symm ▸ ha.2) hrelocs
      have hthird : Frame (Old st) memory _ _ :=
        frame_protectSegments (loadBase st image) image.segments
      rw [hmemory]
      exact ((hfirst.trans hsecond).trans hthird).congr (by simp [Touches, imageModule])

/-- The loading of an image leaves every byte of the regions from before, whatever it is, exactly
when no segment and no slot of a relocation meets them. -/
theorem loadImage_unchanged_iff {vm : GuestVm} {s : TableRun}
    (hs : Reach TableRun.step (TableRun.Initial vm) (fun _ _ => True) s)
    (hstart : st.memory = { s.manager with stores := [] })
    (h : loadImage order st image name = (st',.ok handle)) :
    (∀ a, Old st a → ∀ contents, byteAt contents st'.memory.stores a = contents a) ↔
      ∀ a, Old st a → ¬Touches st image a := by
  obtain ⟨hkeyed,hspan⟩ := TableRun.reach_tracked hs
  have ht : Tracked st.memory := by
    rw [hstart]
    exact ⟨hkeyed,hspan⟩
  obtain ⟨-,-,-,new,hnew,hiff⟩ := frame_loadImage ht h
  rw [hnew, hstart, List.append_nil]
  refine forall₂_congr fun a ha => ?_
  rw [byteAt_eq_iff, ← hiff a ha]
  push Not
  rfl

lemma loadImage_eq (h : (loadImage order st image name).2 = .ok handle) :
    loadImage order st image name = ((loadImage order st image name).1,.ok handle) := by
  rw [← h]

/-- A table, and what the loader starts with over it. -/
def startWith (m : VmMemoryManager) : LoadState :=
  ⟨.new,{ m with stores := [] },⟨0,0,0,[]⟩⟩

/-- One byte of code and nothing else. -/
def breakpoint : ExecutableImage := ⟨0x1000,[⟨0,[0xCC],⟨true,false,true⟩,0⟩],0,[],[],[]⟩

/-- The gadget's byte stays what it was. -/
theorem loadImage_unchanged_iff_boot : byteAt (fun _ => 0xF4) (loadImage .inserted
    (startWith (.new TableRun.defaultVm)) breakpoint "foo.prx").1.memory.stores gadgetAddr = 0xF4 := by
  have hs : Reach TableRun.step (TableRun.Initial TableRun.defaultVm) (fun _ _ => True)
      ⟨.new TableRun.defaultVm,[]⟩ := .start rfl
  have hload : (loadImage .inserted (startWith (.new TableRun.defaultVm)) breakpoint "foo.prx").2 =
      .ok 1 := by decide +kernel
  have hold : Old (startWith (.new TableRun.defaultVm)) gadgetAddr :=
    ⟨⟨_,List.mem_singleton_self _,by decide,by decide⟩,by decide⟩
  refine (loadImage_unchanged_iff hs rfl (loadImage_eq hload)).mpr ?_ gadgetAddr hold fun _ => 0xF4
  rintro a ⟨⟨entry,he,hstart,hstop⟩,-⟩ (⟨seg,hseg,hlow,-⟩ | ⟨r,hr,-⟩)
  · obtain rfl := List.mem_singleton.mp he
    obtain rfl := List.mem_singleton.mp hseg
    exact absurd (hlow.trans_lt hstop) (by decide)
  · cases hr

/-- Guest memory that was mapped where the next module goes is written over. -/
theorem not_unchanged_mapped : ¬∀ (vm : GuestVm) (s : TableRun) (st st' : LoadState) (order : MapOrder)
    (image : ExecutableImage) (name : String) (handle : ℕ),
    Reach TableRun.step (TableRun.Initial vm) (fun _ _ => True) s →
    st.memory = { s.manager with stores := [] } → loadImage order st image name = (st',.ok handle) →
    ∀ a, Old st a → ∀ contents, byteAt contents st'.memory.stores a = contents a := by
  intro h
  let s := (⟨.new TableRun.defaultVm,[]⟩ : TableRun).mapped 0x400000 0x1000 0 TableRun.readWrite none
  have hold : Old (startWith s.manager) 0x400000 :=
    ⟨⟨(0x400000,VmMemoryManager.region 0x400000 0x1000 TableRun.readWrite none),by decide,by decide,
      by decide⟩,by decide⟩
  have hbyte := h TableRun.defaultVm s (startWith s.manager)
    (loadImage .inserted (startWith s.manager) breakpoint "foo.prx").1 .inserted breakpoint "foo.prx" 1
    (.step (l := .map 0x400000 0x1000 TableRun.readWrite none) (.start rfl) trivial rfl) rfl
    (loadImage_eq (by decide +kernel)) 0x400000 hold fun _ => 0
  exact absurd hbyte (by decide +kernel)

end Load

end Unemups4.Loader

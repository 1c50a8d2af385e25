import Unemups4.LoadFrame

/-! How far the relocation of a module goes. A relocation fails when its slot lies outside the arena,
or when it needs a stub for a missing symbol and the region of the stubs has no room; the pass over
the module then stops. Neither depends on what was written before, but for the stubs that it took. -/
namespace Unemups4.Loader
open Memory

/-- The name that a relocation looks up among the exports. -/
def Relocation.lookedUp (r : Relocation) : Option String :=
  match r.kind,r.symbolValue with
  | .jumpSlot,_ | .globDat,_ | .absolute64,none => r.symbolName
  | _,_ => none

/-- It looks up a name that no registered module exports. -/
def Relocation.missing (modules : List Module) (r : Relocation) : Bool :=
  r.lookedUp.any fun name => modules.all fun m => (m.exports.lookup name).isNone

/-- The slot lies in the arena. -/
def Relocation.Lands (vm : GuestVm) (base : ℕ) (r : Relocation) : Prop :=
  guestBase ≤ wrap (base+r.offset) ∧ wrap (base+r.offset) < vm.span

/-- The region of the stubs has room for one more. -/
def StubRoom (vm : GuestVm) (stubsBase cursor : ℕ) : Prop :=
  stubsBase ≠ 0 ∧ cursor+lazyStubSize ≤ lazyStubsSize ∧ vm.accepts (stubsBase+cursor) 11

/-- What a relocation needs to be applied. -/
def Relocation.Goes (vm : GuestVm) (stubsBase base : ℕ) (modules : List Module) (cursor : ℕ)
    (r : Relocation) : Prop :=
  r.Stores → r.Lands vm base ∧ (r.missing modules → StubRoom vm stubsBase cursor)

instance (r : Relocation) : Decidable r.Stores := by
  unfold Relocation.Stores
  cases r.kind <;> infer_instance

instance (vm : GuestVm) (stubsBase base : ℕ) (modules : List Module) (cursor : ℕ) (r : Relocation) :
    Decidable (r.Goes vm stubsBase base modules cursor) := by
  unfold Relocation.Goes Relocation.Lands StubRoom
  infer_instance

/-- Where the stubs go on after a relocation; one that does not fit takes no room. -/
def stubsAfter (stubsBase : ℕ) (modules : List Module) (cursor : ℕ) (r : Relocation) : ℕ :=
  if r.missing modules ∧ stubsBase ≠ 0 ∧ cursor+lazyStubSize ≤ lazyStubsSize then cursor+lazyStubSize
  else cursor

/-- The relocations that a pass gets through, and where the stubs go on after it. -/
def passed (vm : GuestVm) (stubsBase base : ℕ) (modules : List Module) :
    ℕ → List Relocation → List Relocation × ℕ
  | cursor,[] => ([],cursor)
  | cursor,r :: rs =>
      let next := stubsAfter stubsBase modules cursor r
      if r.Goes vm stubsBase base modules cursor then
        (r :: (passed vm stubsBase base modules next rs).1,(passed vm stubsBase base modules next rs).2)
      else ([],next)

section Lookup

variable {order : MapOrder} {modules : List Module} {name : String} {addr : ℕ}

/-- The first module of a traversal that exports the name does so at the address. -/
def FirstExport (order : MapOrder) (modules : List Module) (name : String) (addr : ℕ) : Prop :=
  ∃ pre m post, order.iter modules = pre ++ m :: post ∧ m.exports.lookup name = some addr ∧
    ∀ m' ∈ pre, m'.exports.lookup name = none

lemma resolveSymbol_eq_some_iff :
    resolveSymbol order modules name = some addr ↔ FirstExport order modules name addr :=
  List.findSome?_eq_some_iff

lemma resolveSymbol_eq_none_iff :
    resolveSymbol order modules name = none ↔ ∀ m ∈ modules, m.exports.lookup name = none := by
  unfold resolveSymbol
  rw [List.findSome?_eq_none_iff]
  exact forall_congr' fun m => by rw [(order.perm modules).mem_iff]

/-- A relocation is bound to a stub when the name that it looks up is missing. -/
lemma binding_stub_iff {base handle : ℕ} {r : Relocation} :
    (∃ addend, binding (resolveSymbol order modules) base handle r = .stub addend) ↔
      r.missing modules := by
  have hmissing : ∀ name, resolveSymbol order modules name = none ↔
      (modules.all fun m => (m.exports.lookup name).isNone) = true := by
    intro name
    simp [resolveSymbol_eq_none_iff]
  unfold binding Relocation.missing Relocation.lookedUp
  cases hkind : r.kind
  case absolute64 =>
    cases r.symbolValue with
    | some v => simp
    | none =>
      cases r.symbolName with
      | none => simp
      | some name => cases hresolve : resolveSymbol order modules name <;> simp [hresolve, ← hmissing]
  case jumpSlot | globDat =>
    cases r.symbolName with
    | none => simp
    | some name => cases hresolve : resolveSymbol order modules name <;> simp [hresolve, ← hmissing]
  all_goals simp

end Lookup

section Apply

variable {order : MapOrder} {modules : List Module} {base handle : ℕ} {m : VmMemoryManager}
  {linker : LinkerState} {r : Relocation}

/-- What does not change in a pass, and what of the region of the stubs does. -/
structure Steps (m m' : VmMemoryManager) (linker linker' : LinkerState) (cursor : ℕ) : Prop where
  vm : m'.vm = m.vm
  stubsBase : linker'.stubsBase = linker.stubsBase
  stubsCursor : linker'.stubsCursor = cursor

lemma writeWord_lands (m : VmMemoryManager) (base value : ℕ) (r : Relocation) :
    (writeWord m (wrap (base+r.offset)) value).1.vm = m.vm ∧
    ((writeWord m (wrap (base+r.offset)) value).2 = .ok () ↔ r.Lands m.vm base) := by
  unfold writeWord Relocation.Lands
  split_ifs with h
  · exact ⟨rfl,by simpa using h⟩
  · exact ⟨rfl,by simpa using h⟩

lemma writeSlot_steps (m : VmMemoryManager) (linker : LinkerState) (base handle value : ℕ)
    (r : Relocation) (stub : Bool) :
    Steps m (writeSlot base handle m linker r value stub).1 linker
      (writeSlot base handle m linker r value stub).2.1 linker.stubsCursor ∧
    ((writeSlot base handle m linker r value stub).2.2 = .ok () ↔ r.Lands m.vm base) := by
  obtain ⟨hvm,hok⟩ := writeWord_lands m base value r
  unfold writeSlot
  split <;> rename_i heq <;> rw [heq] at hvm hok
  · exact ⟨⟨hvm,rfl,rfl⟩,by simpa using hok⟩
  · exact ⟨⟨hvm,rfl,rfl⟩,by simpa using hok⟩

lemma stubCode_length (magic : ℕ) : (stubCode magic).length = 11 := by
  simp [stubCode, wordBytes]

lemma allocMissingStub_steps (m : VmMemoryManager) (linker : LinkerState) :
    Steps m (allocMissingStub m linker).1 linker (allocMissingStub m linker).2.1
      (if linker.stubsBase ≠ 0 ∧ linker.stubsCursor+lazyStubSize ≤ lazyStubsSize then
        linker.stubsCursor+lazyStubSize else linker.stubsCursor) ∧
    ((∃ addr, (allocMissingStub m linker).2.2 = .ok addr) ↔
      StubRoom m.vm linker.stubsBase linker.stubsCursor) := by
  unfold allocMissingStub StubRoom
  by_cases hbase : linker.stubsBase = 0
  · rw [if_pos hbase, if_neg (by simp [hbase])]
    exact ⟨⟨rfl,rfl,rfl⟩,by simp [hbase]⟩
  · by_cases hfull : lazyStubsSize < linker.stubsCursor+lazyStubSize
    · rw [if_neg hbase, if_pos hfull, if_neg (by omega)]
      exact ⟨⟨rfl,rfl,rfl⟩,by simp; omega⟩
    · rw [if_neg hbase, if_neg hfull, if_pos ⟨hbase,by omega⟩]
      dsimp only
      unfold writeBytes
      rw [stubCode_length]
      split_ifs with haccepts
      · exact ⟨⟨rfl,rfl,rfl⟩,by simp [hbase, haccepts]; omega⟩
      · exact ⟨⟨rfl,rfl,rfl⟩,by simp [haccepts]⟩

/-- A relocation is applied when it can be, and takes a stub when its name is missing. -/
lemma applyRelocation_steps {m' : VmMemoryManager} {linker' : LinkerState}
    {result : Except LoaderError Unit}
    (h : applyRelocation (resolveSymbol order modules) base handle m linker r = (m',linker',result)) :
    Steps m m' linker linker' (stubsAfter linker.stubsBase modules linker.stubsCursor r) ∧
    (result = .ok () ↔ r.Goes m.vm linker.stubsBase base modules linker.stubsCursor) := by
  have hstub : (∃ addend, binding (resolveSymbol order modules) base handle r = .stub addend) ↔
      r.missing modules := binding_stub_iff
  have hskip : binding (resolveSymbol order modules) base handle r = .skip ↔ ¬r.Stores :=
    binding_eq_skip_iff
  unfold applyRelocation at h
  unfold Relocation.Goes stubsAfter
  cases hbinding : binding (resolveSymbol order modules) base handle r with
  | skip =>
    rw [hbinding] at h hskip hstub
    have hmissing : ¬r.missing modules := fun hmissing => by simpa using hstub.mpr hmissing
    obtain ⟨rfl,rfl,rfl⟩ : m = m' ∧ linker = linker' ∧ Except.ok () = result := by simpa using h
    rw [if_neg (by simp [hmissing])]
    exact ⟨⟨rfl,rfl,rfl⟩,by simp [hskip.mp rfl]⟩
  | word value =>
    rw [hbinding] at h hskip hstub
    have hmissing : ¬r.missing modules := fun hmissing => by simpa using hstub.mpr hmissing
    have hstores : r.Stores := not_not.mp fun hnot => by simpa using hskip.mpr hnot
    obtain ⟨hsteps,hok⟩ := writeSlot_steps m linker base handle value r false
    dsimp only at h
    rw [h] at hsteps hok
    rw [if_neg (by simp [hmissing])]
    exact ⟨hsteps,by simpa [hstores, hmissing] using hok⟩
  | stub addend =>
    rw [hbinding] at h hskip hstub
    have hmissing : r.missing modules := hstub.mp ⟨addend,rfl⟩
    have hstores : r.Stores := not_not.mp fun hnot => by simpa using hskip.mpr hnot
    obtain ⟨halloc,hroom⟩ := allocMissingStub_steps m linker
    dsimp only at h
    simp only [hmissing, true_and]
    split at h <;> rename_i heq <;> rw [heq] at halloc hroom
    · obtain ⟨rfl,rfl,rfl⟩ := by simpa using h
      refine ⟨halloc,?_⟩
      have hnone : ¬StubRoom m.vm linker.stubsBase linker.stubsCursor := by simpa using hroom.not
      simp [hstores, hnone]
    · rename_i m₁ linker₁ addr
      have hspace : StubRoom m.vm linker.stubsBase linker.stubsCursor := hroom.mp ⟨addr,rfl⟩
      obtain ⟨hsteps,hok⟩ := writeSlot_steps m₁ linker₁ base handle (addSigned addr addend) r true
      rw [h] at hsteps hok
      refine ⟨⟨hsteps.vm.trans halloc.vm,hsteps.stubsBase.trans halloc.stubsBase,
        hsteps.stubsCursor.trans halloc.stubsCursor⟩,?_⟩
      rw [halloc.vm] at hok
      simpa [hstores, hspace] using hok

/-- A whole pass. -/
lemma applyRelocations_steps {m' : VmMemoryManager} {linker' : LinkerState}
    {result : Except LoaderError Unit} {rs : List Relocation}
    (h : applyRelocations (resolveSymbol order modules) base handle m linker rs = (m',linker',result)) :
    Steps m m' linker linker'
      (passed m.vm linker.stubsBase base modules linker.stubsCursor rs).2 := by
  induction rs generalizing m linker with
  | nil =>
    obtain ⟨rfl,rfl,-⟩ : m = m' ∧ linker = linker' ∧ Except.ok () = result := by
      simpa [applyRelocations] using h
    exact ⟨rfl,rfl,rfl⟩
  | cons r rs ih =>
    rw [applyRelocations] at h
    rw [passed]
    generalize hstep : applyRelocation (resolveSymbol order modules) base handle m linker r = first at h
    obtain ⟨m₁,linker₁,result₁⟩ := first
    obtain ⟨hsteps,hok⟩ := applyRelocation_steps hstep
    cases result₁ with
    | error e =>
      have hstop : ¬r.Goes m.vm linker.stubsBase base modules linker.stubsCursor := by
        simpa using hok.not
      obtain ⟨rfl,rfl,-⟩ : m₁ = m' ∧ linker₁ = linker' ∧ Except.error e = result := by simpa using h
      simp only [hstop, if_false]
      exact hsteps
    | ok =>
      simp only [hok.mp rfl, if_true]
      have hrest := ih h
      rw [hsteps.vm, hsteps.stubsBase, hsteps.stubsCursor] at hrest
      exact ⟨hrest.vm.trans hsteps.vm,hrest.stubsBase.trans hsteps.stubsBase,hrest.stubsCursor⟩

end Apply

section Arena

open VmMemoryManager

lemma map_vm (m : VmMemoryManager) (addr size : ℕ) (prot : MemoryProtection) (name : Option String) :
    (m.map addr size prot name).1.vm = m.vm := by
  unfold map mapAligned
  split_ifs
  · rfl
  · rfl
  · unfold findFreeRegionAligned
    dsimp only
    split_ifs
    · rfl
    · rfl
    · exact (place_placedIn _ _ _ _ _).vm
  · rfl
  · rfl
  · rfl
  · exact (place_placedIn _ _ _ _ _).vm
  · rfl

lemma mapFreePages_vm (stop : ℕ) (prot : MemoryProtection) (name : String) (fuel : ℕ)
    (m : VmMemoryManager) (addr : ℕ) : (mapFreePages stop prot name fuel m addr).1.vm = m.vm := by
  induction fuel generalizing m addr with
  | zero => rfl
  | succ fuel ih =>
    rw [mapFreePages]
    split_ifs
    · have hmap := map_vm m addr (freeRun m stop (fuel+1) addr-addr) prot (some name)
      dsimp only
      split <;> rename_i heq <;> rw [heq] at hmap
      · exact hmap
      · exact (ih _ _).trans hmap
    · exact ih _ _
    · rfl

lemma fillSegment_vm (m : VmMemoryManager) (vaddr : ℕ) (seg : LoadableSegment) :
    (fillSegment m vaddr seg).1.vm = m.vm := by
  have hzero : ∀ m' : VmMemoryManager,
      (zeroMemory m' (vaddr+seg.data.length) seg.bssSize).1.vm = m'.vm := by
    intro m'
    unfold zeroMemory
    split_ifs <;> rfl
  unfold fillSegment writeBytes
  split_ifs
  · exact hzero m
  · rfl
  · exact hzero _
  · rfl
  · rfl
  · rfl

lemma mapSegments_vm (base : ℕ) (name : String) (m : VmMemoryManager) (segs : List LoadableSegment) :
    (mapSegments base name m segs).1.vm = m.vm := by
  induction segs generalizing m with
  | nil => rfl
  | cons seg segs ih =>
    have hseg : (mapSegment base name m seg).1.vm = m.vm := by
      unfold mapSegment
      dsimp only
      split_ifs
      · rfl
      · split
        · rfl
        · rename_i start stop _
          have hpages := mapFreePages_vm stop { seg.protection with write := true } name
            ((stop-start)/page) m start
          split <;> rename_i heq <;> rw [heq] at hpages
          · exact hpages
          · exact (fillSegment_vm _ _ _).trans hpages
    rw [mapSegments]
    split <;> rename_i heq <;> rw [heq] at hseg
    · exact hseg
    · exact (ih _).trans hseg

lemma mapImage_vm (st : LoadState) (image : ExecutableImage) (name : String) :
    (mapImage st image name).1.memory.vm = st.memory.vm := by
  have hsegs := mapSegments_vm (takeBase st.manager image).1 name st.memory image.segments
  unfold mapImage
  dsimp only
  split <;> rename_i heq <;> rw [heq] at hsegs <;> exact hsegs

/-- The pass over a registered module. -/
lemma relocateImage_steps (order : MapOrder) (st : LoadState) (image : ExecutableImage) {handle : ℕ}
    {module : Module} (h : st.manager.getModule handle = some module) :
    Steps st.memory (relocateImage order st image handle).1.memory st.linker
      (relocateImage order st image handle).1.linker
      (passed st.memory.vm st.linker.stubsBase module.baseAddr st.manager.modules
        st.linker.stubsCursor image.relocations).2 := by
  unfold relocateImage
  rw [h]
  dsimp only
  generalize hpass : applyRelocations _ _ _ _ _ _ = result
  obtain ⟨memory,linker,result⟩ := result
  have hsteps := applyRelocations_steps hpass
  cases result with
  | error e => exact hsteps
  | ok =>
    have hframe : Frame (fun _ => False) memory (image.segments.foldl (protectSegment module.baseAddr)
        memory) fun _ => False := frame_protectSegments module.baseAddr image.segments
    exact ⟨hframe.vm.trans hsteps.vm,hsteps.stubsBase,hsteps.stubsCursor⟩

end Arena

end Unemups4.Loader

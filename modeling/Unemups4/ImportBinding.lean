import Unemups4.ModuleOnce
import Unemups4.RelocationPasses

/-! What the named relocations of a load are written with. Dependencies are relocated before the
executable or the target is mapped, so what only that one exports is not there for them yet. -/
namespace Unemups4.Loader
open Memory
open Transition (Reach)

section Pass

/-- The slots that a pass writes: of the relocations that it applies, all that store, each with what
it is bound to. -/
structure Writes (resolve : String → Option ℕ) (base handle : ℕ) (rs : List Relocation)
    (fixups : List Fixup) : Prop where
  own : ∀ f ∈ fixups, f.handle = handle ∧ f.relocation ∈ rs
  word : ∀ f ∈ fixups, ∀ value, binding resolve base handle f.relocation = .word value →
    f.value = value ∧ f.stub = false
  stub : ∀ f ∈ fixups, ∀ addend, binding resolve base handle f.relocation = .stub addend →
    f.stub = true
  all : ∀ r ∈ rs, r.Stores → ∃ f ∈ fixups, f.relocation = r

variable {resolve : String → Option ℕ} {base handle : ℕ} {m m' : VmMemoryManager}
  {linker linker' : LinkerState} {r : Relocation} {rs : List Relocation}

lemma writeSlot_fixups {value : ℕ} {stub : Bool} {result : Except LoaderError Unit}
    (h : writeSlot base handle m linker r value stub = (m',linker',result)) :
    (∃ e, result = .error e ∧ linker'.fixups = linker.fixups) ∨
    result = .ok () ∧ linker'.fixups = ⟨handle,r,value,stub⟩ :: linker.fixups := by
  unfold writeSlot at h
  split at h
  · obtain ⟨-,h⟩ := Prod.mk.inj h
    obtain ⟨rfl,rfl⟩ := Prod.mk.inj h
    exact .inl ⟨_,rfl,rfl⟩
  · obtain ⟨-,h⟩ := Prod.mk.inj h
    obtain ⟨rfl,rfl⟩ := Prod.mk.inj h
    exact .inr ⟨rfl,rfl⟩

/-- One relocation writes its slot, unless it stores nothing or fails. -/
lemma applyRelocation_fixups {result : Except LoaderError Unit}
    (h : applyRelocation resolve base handle m linker r = (m',linker',result)) :
    (∃ e, result = .error e ∧ linker'.fixups = linker.fixups) ∨
    result = .ok () ∧ ∃ new, linker'.fixups = new ++ linker.fixups ∧
      Writes resolve base handle [r] new := by
  unfold applyRelocation at h
  split at h
  · rename_i hskip
    obtain ⟨-,h⟩ := Prod.mk.inj h
    obtain ⟨rfl,rfl⟩ := Prod.mk.inj h
    refine .inr ⟨rfl,[],rfl,by simp,by simp,by simp,?_⟩
    intro r' hr' hstores
    obtain rfl := List.mem_singleton.mp hr'
    exact absurd hstores (binding_eq_skip_iff.mp hskip)
  · rename_i value hword
    refine (writeSlot_fixups h).imp_right fun ⟨hok,hnew⟩ =>
      ⟨hok,[⟨handle,r,value,false⟩],hnew,?_⟩
    constructor <;> simp [hword]
  · rename_i addend hstub
    split at h
    · rename_i halloc
      obtain ⟨-,h⟩ := Prod.mk.inj h
      obtain ⟨rfl,rfl⟩ := Prod.mk.inj h
      exact .inl ⟨_,rfl,(allocMissingStub_linker halloc).2⟩
    · rename_i addr halloc
      rw [← (allocMissingStub_linker halloc).2]
      refine (writeSlot_fixups h).imp_right fun ⟨hok,hnew⟩ =>
        ⟨hok,[⟨handle,r,addSigned addr addend,true⟩],hnew,?_⟩
      constructor <;> simp [hstub]

lemma Writes.append {rs' : List Relocation} {new new' : List Fixup}
    (h : Writes resolve base handle rs new) (h' : Writes resolve base handle rs' new') :
    Writes resolve base handle (rs ++ rs') (new' ++ new) where
  own f hf := by
    rcases List.mem_append.mp hf with hf | hf
    · exact ⟨(h'.own f hf).1,List.mem_append_right _ (h'.own f hf).2⟩
    · exact ⟨(h.own f hf).1,List.mem_append_left _ (h.own f hf).2⟩
  word f hf := (List.mem_append.mp hf).elim (h'.word f) (h.word f)
  stub f hf := (List.mem_append.mp hf).elim (h'.stub f) (h.stub f)
  all r hr hstores := by
    rcases List.mem_append.mp hr with hr | hr
    · obtain ⟨f,hf,heq⟩ := h.all r hr hstores
      exact ⟨f,by simp [hf],heq⟩
    · obtain ⟨f,hf,heq⟩ := h'.all r hr hstores
      exact ⟨f,by simp [hf],heq⟩

/-- A pass writes the slots of what it gets through. -/
lemma applyRelocations_fixups {order : MapOrder} {modules : List Module}
    {result : Except LoaderError Unit}
    (h : applyRelocations (resolveSymbol order modules) base handle m linker rs = (m',linker',result)) :
    ∃ new, linker'.fixups = new ++ linker.fixups ∧
      Writes (resolveSymbol order modules) base handle
        (passed m.vm linker.stubsBase base modules linker.stubsCursor rs).1 new := by
  induction rs generalizing m linker with
  | nil =>
    obtain ⟨-,h⟩ := Prod.mk.inj h
    obtain ⟨rfl,-⟩ := Prod.mk.inj h
    exact ⟨[],rfl,by simp,by simp,by simp,by simp [passed]⟩
  | cons r rs ih =>
    rw [applyRelocations] at h
    rw [passed]
    generalize hstep : applyRelocation (resolveSymbol order modules) base handle m linker r = step at h
    obtain ⟨m₁,linker₁,result₁⟩ := step
    obtain ⟨hsteps,hgoes⟩ := applyRelocation_steps hstep
    rcases applyRelocation_fixups hstep with ⟨e,rfl,hsame⟩ | ⟨rfl,new,hnew,hwrites⟩
    · obtain ⟨-,h⟩ := Prod.mk.inj h
      obtain ⟨rfl,rfl⟩ := Prod.mk.inj h
      have hstop : ¬r.Goes m.vm linker.stubsBase base modules linker.stubsCursor := by
        simpa using hgoes.not
      simp only [hstop, if_false]
      exact ⟨[],hsame,by simp,by simp,by simp,by simp⟩
    · obtain ⟨new',hnew',hwrites'⟩ := ih h
      rw [hsteps.vm, hsteps.stubsBase, hsteps.stubsCursor] at hwrites'
      simp only [hgoes.mp rfl, if_true]
      exact ⟨new' ++ new,by rw [hnew', hnew, List.append_assoc],hwrites.append hwrites'⟩

end Pass

/-- A module of a load as it is registered, and what it relocates. -/
structure Linked where
  module : Module
  relocations : List Relocation
  deriving DecidableEq, Repr

/-- A turn at relocation: the module, those registered by then, and where the stubs go on. -/
structure Turn where
  linked : Linked
  registry : List Module
  cursor : ℕ
  deriving DecidableEq, Repr

namespace Turn

variable (order : MapOrder) (vm : GuestVm) (stubsBase : ℕ) (turn : Turn)

/-- The relocations that the turn gets through, and where the stubs go on after it. -/
def passed : List Relocation × ℕ :=
  Loader.passed vm stubsBase turn.linked.module.baseAddr turn.registry turn.cursor
    turn.linked.relocations

/-- The address that a symbol of the module stands for: the module's own one when the relocation
carries its value, and otherwise that of the first module registered that exports the name. -/
def StandsFor (r : Relocation) (name : String) (addr : ℕ) : Prop :=
  match r.kind,r.symbolValue with
  | .absolute64,some v => addr = wrap (turn.linked.module.baseAddr+v)
  | _,_ => FirstExport order turn.registry name addr

/-- The slots of the module are those that its turn wrote. -/
def Holds (linker : LinkerState) : Prop :=
  ∃ new, Writes (resolveSymbol order turn.registry) turn.linked.module.baseAddr turn.linked.module.id
      (turn.passed vm stubsBase).1 new ∧
    ∀ f, f.handle = turn.linked.module.id → (f ∈ linker.fixups ↔ f ∈ new)

end Turn

/-- The turns of modules that are all registered, one after the other. -/
def turns (vm : GuestVm) (stubsBase : ℕ) (registry : List Module) : ℕ → List Linked → List Turn × ℕ
  | cursor,[] => ([],cursor)
  | cursor,l :: ls =>
      let turn : Turn := ⟨l,registry,cursor⟩
      let rest := turns vm stubsBase registry (turn.passed vm stubsBase).2 ls
      (turn :: rest.1,rest.2)

/-- The relocations that name an import. -/
def Relocation.Imports (r : Relocation) (name : String) : Prop :=
  (r.kind = .jumpSlot ∨ r.kind = .globDat ∨ r.kind = .absolute64) ∧ r.symbolName = some name

/-- What a relocation writes for an address. -/
def Relocation.bound (r : Relocation) (addr : ℕ) : ℕ :=
  if r.kind = .absolute64 then addSigned addr r.addend else addr

lemma Relocation.Imports.stores {r : Relocation} {name : String} (h : r.Imports name) : r.Stores := by
  obtain ⟨hkind | hkind | hkind,hname⟩ := h <;> simp [Relocation.Stores, hkind, hname]

section Relocate

variable {order : MapOrder} {vm : GuestVm} {stubsBase : ℕ} {turn : Turn} {r : Relocation}
  {name : String} {linker linker' : LinkerState}

/-- An import is bound to the address of its symbol, and to a stub when there is none. -/
lemma binding_imports (order : MapOrder) (turn : Turn) (h : r.Imports name) :
    (∃ addr, turn.StandsFor order r name addr ∧
      binding (resolveSymbol order turn.registry) turn.linked.module.baseAddr turn.linked.module.id r =
        .word (r.bound addr)) ∨
    (∀ addr, ¬turn.StandsFor order r name addr) ∧ ∃ addend,
      binding (resolveSymbol order turn.registry) turn.linked.module.baseAddr turn.linked.module.id r =
        .stub addend := by
  have hsome : ∀ addr, resolveSymbol order turn.registry name = some addr ↔
      FirstExport order turn.registry name addr := fun _ => resolveSymbol_eq_some_iff
  unfold binding Turn.StandsFor
  obtain ⟨hkind | hkind | hkind,hname⟩ := h
  · cases hres : resolveSymbol order turn.registry name <;>
      simp [hkind, hname, hres, ← hsome, Relocation.bound]
  · cases hres : resolveSymbol order turn.registry name <;>
      simp [hkind, hname, hres, ← hsome, Relocation.bound]
  · cases r.symbolValue with
    | some v => simp [hkind, Relocation.bound]
    | none =>
      cases hres : resolveSymbol order turn.registry name <;>
        simp [hkind, hname, hres, ← hsome, Relocation.bound]

lemma Turn.StandsFor.unique {addr addr' : ℕ} (h : turn.StandsFor order r name addr)
    (h' : turn.StandsFor order r name addr') : addr = addr' := by
  revert h h'
  unfold StandsFor
  split
  · exact fun h h' => h.trans h'.symm
  · exact fun h h' => Option.some.inj ((resolveSymbol_eq_some_iff.mpr h).symm.trans
      (resolveSymbol_eq_some_iff.mpr h'))

/-- The turn of a registered module. -/
def turnOf (st : LoadState) (module : Module) (image : ExecutableImage) : Turn :=
  ⟨⟨module,image.relocations⟩,st.manager.modules,st.linker.stubsCursor⟩

lemma getModule_id {manager : ModuleManager} {handle : ℕ} {module : Module}
    (h : manager.getModule handle = some module) : module.id = handle := by
  simpa using List.find?_some h

/-- A pass adds the slots of its own module. -/
lemma relocateImage_fixups (order : MapOrder) (st : LoadState) (image : ExecutableImage) {handle : ℕ}
    {module : Module} (h : st.manager.getModule handle = some module) :
    ∃ new, (relocateImage order st image handle).1.linker.fixups = new ++ st.linker.fixups ∧
      Writes (resolveSymbol order st.manager.modules) module.baseAddr handle
        ((turnOf st module image).passed st.memory.vm st.linker.stubsBase).1 new := by
  unfold relocateImage
  rw [h]
  dsimp only
  generalize hpass : applyRelocations _ _ _ _ _ _ = result
  obtain ⟨memory,linker,result⟩ := result
  obtain ⟨new,hnew,hwrites⟩ := applyRelocations_fixups hpass
  refine ⟨new,?_,hwrites⟩
  cases result <;> exact hnew

lemma mapImage_linker (st : LoadState) (image : ExecutableImage) (name : String) :
    (mapImage st image name).1.linker = st.linker := by
  unfold mapImage
  dsimp only
  split <;> rfl

/-- The linker's slots belong to handles that were given out. -/
def SlotsBelow (st : LoadState) : Prop := ∀ f ∈ st.linker.fixups, f.handle < st.manager.nextId

lemma SlotsBelow.mapImage {st : LoadState} (h : SlotsBelow st) (image : ExecutableImage)
    (name : String) : SlotsBelow (mapImage st image name).1 := by
  have hnext := (extends_mapImage st image name).nextId
  intro f hf
  rw [mapImage_linker] at hf
  have hlt := h f hf
  omega

lemma SlotsBelow.relocateImage {st : LoadState} (h : SlotsBelow st) (order : MapOrder)
    (image : ExecutableImage) {handle : ℕ} (hlt : handle < st.manager.nextId) :
    SlotsBelow (relocateImage order st image handle).1 := by
  intro f hf
  rw [relocateImage_manager]
  cases hget : st.manager.getModule handle with
  | none =>
    rw [Loader.relocateImage, hget] at hf
    exact h f hf
  | some module =>
    obtain ⟨new,hnew,hwrites⟩ := relocateImage_fixups order st image hget
    rw [hnew] at hf
    rcases List.mem_append.mp hf with hf | hf
    · rw [(hwrites.own f hf).1]
      exact hlt
    · exact h f hf

lemma SlotsBelow.loadImage {st : LoadState} (h : SlotsBelow st) (order : MapOrder)
    (image : ExecutableImage) (name : String) : SlotsBelow (loadImage order st image name).1 := by
  have hmap := h.mapImage image name
  unfold Loader.loadImage
  split
  · rename_i heq
    rwa [heq] at hmap
  · rename_i st₁ handle heq
    rw [heq] at hmap
    have hlt : handle < st₁.manager.nextId := by
      obtain ⟨rfl,-,-,hmanager,-⟩ := mapImage_ok heq
      rw [hmanager]
      exact ((takeBase_modules _ _).2.symm ▸ Nat.lt_succ_self _ :
        st.manager.nextId < (takeBase st.manager image).2.nextId)
    have hrel := hmap.relocateImage order image hlt
    split <;> rename_i heq' <;> rwa [heq'] at hrel

/-- A slot holds an export when its turn gets to the import and that stands for one. -/
lemma Turn.Holds.served_iff {P : ℕ → Prop} (h : turn.Holds order vm stubsBase linker)
    (hr : r.Imports name) :
    ((∃ f ∈ linker.fixups, f.handle = turn.linked.module.id ∧ f.relocation = r) ∧
      ∀ f ∈ linker.fixups, f.handle = turn.linked.module.id → f.relocation = r →
        f.stub = false ∧ ∃ addr, P addr ∧ f.value = r.bound addr) ↔
    r ∈ (turn.passed vm stubsBase).1 ∧ ∃ addr, turn.StandsFor order r name addr ∧
      ∃ addr', P addr' ∧ r.bound addr = r.bound addr' := by
  obtain ⟨new,hwrites,hmem⟩ := h
  have hbind := binding_imports order turn hr
  constructor
  · rintro ⟨⟨f,hf,hhandle,rfl⟩,hall⟩
    have hnew := (hmem f hhandle).mp hf
    obtain ⟨hstub,addr',haddr',hvalue⟩ := hall f hf hhandle rfl
    refine ⟨(hwrites.own f hnew).2,?_⟩
    rcases hbind with ⟨addr,haddr,hword⟩ | ⟨-,addend,hcon⟩
    · exact ⟨addr,haddr,addr',haddr',(hwrites.word f hnew _ hword).1.symm.trans hvalue⟩
    · have hcon := hwrites.stub f hnew _ hcon
      simp [hstub] at hcon
  · rintro ⟨happlied,addr,haddr,addr',haddr',hvalue⟩
    rcases hbind with ⟨addr'',haddr'',hword⟩ | ⟨hnone,-⟩
    · obtain rfl := haddr''.unique haddr
      constructor
      · obtain ⟨f,hf,rfl⟩ := hwrites.all r happlied hr.stores
        have hhandle := (hwrites.own f hf).1
        exact ⟨f,(hmem f hhandle).mpr hf,hhandle,rfl⟩
      · rintro f hf hhandle rfl
        obtain ⟨hbound,hstub⟩ := hwrites.word f ((hmem f hhandle).mp hf) _ hword
        exact ⟨hstub,addr',haddr',hbound.trans hvalue⟩
    · exact absurd haddr (hnone addr)

lemma Turn.Holds.congr (h : turn.Holds order vm stubsBase linker)
    (heq : ∀ f : Fixup, f.handle = turn.linked.module.id →
      (f ∈ linker'.fixups ↔ f ∈ linker.fixups)) :
    turn.Holds order vm stubsBase linker' := by
  obtain ⟨new,hwrites,hmem⟩ := h
  exact ⟨new,hwrites,fun f hf => (heq f hf).trans (hmem f hf)⟩

/-- The turn of a module without slots so far leaves those of the others alone. -/
lemma relocateImage_holds (order : MapOrder) (st : LoadState) (image : ExecutableImage) {handle : ℕ}
    {module : Module} (h : st.manager.getModule handle = some module)
    (hfree : ∀ f ∈ st.linker.fixups, f.handle ≠ handle) :
    (turnOf st module image).Holds order st.memory.vm st.linker.stubsBase
      (relocateImage order st image handle).1.linker ∧
    ∀ f : Fixup, f.handle ≠ handle →
      (f ∈ (relocateImage order st image handle).1.linker.fixups ↔ f ∈ st.linker.fixups) := by
  obtain ⟨new,hnew,hwrites⟩ := relocateImage_fixups order st image h
  obtain rfl := getModule_id h
  constructor
  · refine ⟨new,hwrites,fun f hf => ?_⟩
    rw [hnew, List.mem_append]
    exact or_iff_left fun hold => hfree f hold hf
  · intro f hf
    rw [hnew, List.mem_append]
    exact or_iff_right fun hf' => hf (hwrites.own f hf').1

end Relocate

namespace Process

/-- The mapped modules as they are registered. -/
def linkedModules (manager : ModuleManager) (mapped : List MappedModule) : List Linked :=
  mapped.filterMap fun m => (manager.getModule m.handle).map fun module => ⟨module,m.image.relocations⟩

/-- The collected modules that are mapped, in their order. -/
def neededModules (p : Process) (set : List Collected) : List Linked :=
  linkedModules (set.foldl mapCollected (p,[])).1.load.manager (set.foldl mapCollected (p,[])).2

/-- The executable or target, which gets the base and the handle after those of the collected
modules. -/
def topModule (p : Process) (set : List Collected) (image : ExecutableImage) (name : String) : Linked :=
  let st := (set.foldl mapCollected (p,[])).1.load
  ⟨imageModule st.manager.nextId (loadBase st image) image name,image.relocations⟩

/-- The turns of a load: the mapped modules, all of them on top of what was registered before the
call, and the executable or target, on top of them. -/
def loadTurns (p : Process) (set : List Collected) (image : ExecutableImage) (name : String) :
    List Turn :=
  let registry := p.load.manager.modules ++ (neededModules p set).map Linked.module
  let needed := turns p.load.memory.vm p.load.linker.stubsBase registry p.load.linker.stubsCursor
    (neededModules p set)
  let top := topModule p set image name
  needed.1 ++ [⟨top,registry ++ [top.module],needed.2⟩]

/-- The turns of a call, none when it loads nothing. -/
def callTurns (host : Host) (p : Process) : LoadCall → List Turn
  | .executable filename =>
      match host.read filename with
      | .image image =>
          loadTurns p (collectNeeded host (gameDirOf filename) p.knownPaths [] image) image "eboot.bin"
      | _ => []
  | .startModule guestPath =>
      match findCached host p guestPath with
      | .ok (.inr path) =>
          match host.read path with
          | .image image => loadTurns p (targetSet host p guestPath path image) image (libName guestPath)
          | _ => []
      | _ => []

/-- The call returns `Ok`. -/
def Returns (host : Host) (order : MapOrder) (p : Process) : LoadCall → Prop
  | .executable filename => ∃ entry, (loadExecutable host order p filename).2 = .ok entry
  | .startModule guestPath => ∃ r, (loadStartModule host order p guestPath).2 = .ok r

/-- A module of the load exports the symbol at the address. -/
def Exported (load : List Linked) (name : String) (addr : ℕ) : Prop :=
  ∃ l ∈ load, l.module.exports.lookup name = some addr

/-- Each import that a module of the load exports was written, and with such an export. -/
def ImportsResolved (p' : Process) (load : List Linked) : Prop :=
  ∀ l ∈ load, ∀ r ∈ l.relocations, ∀ name, r.Imports name → (∃ addr, Exported load name addr) →
    (∃ f ∈ p'.load.linker.fixups, f.handle = l.module.id ∧ f.relocation = r) ∧
    ∀ f ∈ p'.load.linker.fixups, f.handle = l.module.id → f.relocation = r →
      f.stub = false ∧ ∃ addr, Exported load name addr ∧ f.value = r.bound addr

/-- In its module's turn each import that a module of the load exports comes before the relocation,
if any, that cannot be applied, and the name stands for such an export: the first of the modules
registered by then that exports it, in the order of the traversal, has it at the address of one of
the load. -/
def ImportsServed (order : MapOrder) (p : Process) (turns : List Turn) : Prop :=
  ∀ turn ∈ turns, ∀ r ∈ turn.linked.relocations, ∀ name, r.Imports name →
    (∃ addr, Exported (turns.map Turn.linked) name addr) →
    r ∈ (turn.passed p.load.memory.vm p.load.linker.stubsBase).1 ∧
    ∃ addr, turn.StandsFor order r name addr ∧
      ∃ addr', Exported (turns.map Turn.linked) name addr' ∧ r.bound addr = r.bound addr'

variable {host : Host} {order : MapOrder} {p p' : Process} {image : ExecutableImage} {name : String}
  {handle : ℕ}

lemma loadImage_relocates (order : MapOrder) {st : LoadState}
    (h : (mapImage st image name).2 = .ok handle) :
    (loadImage order st image name).1 =
      (relocateImage order (mapImage st image name).1 image handle).1 := by
  unfold loadImage
  split <;> rename_i heq <;> rw [heq] at h ⊢
  · cases h
  · obtain rfl := Except.ok.inj h
    split <;> rename_i heq' <;> rw [heq']

lemma relocateMapped_load (order : MapOrder) (p : Process) (m : MappedModule) :
    (relocateMapped order p m).load = (relocateImage order p.load m.image m.handle).1 := by
  unfold relocateMapped
  dsimp only
  split <;> rfl

lemma linkedModules_cons {manager : ModuleManager} {m : MappedModule} {module : Module}
    (h : manager.getModule m.handle = some module) (ms : List MappedModule) :
    linkedModules manager (m :: ms) = ⟨module,m.image.relocations⟩ :: linkedModules manager ms := by
  simp [linkedModules, h]

/-- After the turns of the dependencies each one's slots are those of its own turn. -/
lemma turns_hold (order : MapOrder) (p : Process) (ms : List MappedModule)
    (hnodup : (ms.map MappedModule.handle).Nodup)
    (hfree : ∀ f ∈ p.load.linker.fixups, f.handle ∉ ms.map MappedModule.handle)
    (hms : ∀ m ∈ ms, ∃ module, p.load.manager.getModule m.handle = some module) :
    let vm := p.load.memory.vm
    let stubsBase := p.load.linker.stubsBase
    let needed := turns vm stubsBase p.load.manager.modules p.load.linker.stubsCursor
      (linkedModules p.load.manager ms)
    let q := ms.foldl (relocateMapped order) p
    (∀ turn ∈ needed.1, turn.Holds order vm stubsBase q.load.linker ∧
      turn.linked.module.id ∈ ms.map MappedModule.handle) ∧
    (∀ f : Fixup, f.handle ∉ ms.map MappedModule.handle →
      (f ∈ q.load.linker.fixups ↔ f ∈ p.load.linker.fixups)) ∧
    Steps p.load.memory q.load.memory p.load.linker q.load.linker needed.2 := by
  induction ms generalizing p with
  | nil => exact ⟨by simp [turns, linkedModules],fun f _ => Iff.rfl,rfl,rfl,rfl⟩
  | cons m ms ih =>
    rw [List.map_cons, List.nodup_cons] at hnodup
    obtain ⟨hm,hnodup⟩ := hnodup
    obtain ⟨module,hmodule⟩ := hms m (by simp)
    have hid := getModule_id hmodule
    have hfirst : ∀ f ∈ p.load.linker.fixups, f.handle ≠ m.handle :=
      fun f hf heq => hfree f hf (by simp [heq])
    obtain ⟨hholds,hothers⟩ := relocateImage_holds order p.load m.image hmodule hfirst
    have hsteps := relocateImage_steps order p.load m.image hmodule
    have hmanager := relocateImage_manager order p.load m.image m.handle
    rw [← relocateMapped_load] at hholds hothers hmanager hsteps
    obtain ⟨hrest,hkept,hlast⟩ := ih (relocateMapped order p m) hnodup (by
      intro f hf hmem
      by_cases hhandle : f.handle = m.handle
      · exact hm (hhandle ▸ hmem)
      · exact hfree f ((hothers f hhandle).mp hf) (List.mem_cons_of_mem _ hmem)) (by
      rw [hmanager]
      exact fun m' hm' => hms m' (by simp [hm']))
    rw [hmanager, hsteps.vm, hsteps.stubsBase, hsteps.stubsCursor] at hrest hlast
    rw [linkedModules_cons hmodule]
    refine ⟨?_,?_,?_⟩
    · intro turn hturn
      rcases List.mem_cons.mp hturn with rfl | hturn
      · exact ⟨hholds.congr fun f hf => hkept f (hf.trans hid ▸ hm),by simp [hid]⟩
      · obtain ⟨hturn,hin⟩ := hrest turn hturn
        exact ⟨hturn,List.mem_cons_of_mem _ hin⟩
    · intro f hf
      rw [List.map_cons, List.mem_cons, not_or] at hf
      rw [List.foldl_cons, hkept f hf.2, hothers f hf.1]
    · exact ⟨hlast.vm.trans hsteps.vm,hlast.stubsBase.trans hsteps.stubsBase,hlast.stubsCursor⟩

lemma mapAll_linker (p : Process) (mapped : List MappedModule) (set : List Collected) :
    (set.foldl mapCollected (p,mapped)).1.load.linker = p.load.linker ∧
      (set.foldl mapCollected (p,mapped)).1.load.memory.vm = p.load.memory.vm := by
  induction set generalizing p mapped with
  | nil => exact ⟨rfl,rfl⟩
  | cons c set ih =>
    have hlinker := mapImage_linker p.load c.image c.lib
    have hvm := mapImage_vm p.load c.image c.lib
    obtain ⟨hlinker',hvm'⟩ := ih (mapCollected (p,mapped) c).1 (mapCollected (p,mapped) c).2
    rw [List.foldl_cons]
    refine ⟨hlinker'.trans ?_,hvm'.trans ?_⟩ <;> unfold mapCollected <;> dsimp only <;> split <;>
      rename_i heq <;> rw [heq] at hlinker hvm <;> assumption

lemma registerModule_fresh {manager : ModuleManager} {m : Module}
    (h : ∀ m' ∈ manager.modules, m'.id ≠ m.id) :
    (manager.registerModule m).modules = manager.modules ++ [m] := by
  unfold ModuleManager.registerModule
  rw [List.filter_eq_self.mpr (by simpa using h)]

/-- A mapping registers its module behind the others. -/
lemma mapImage_modules {st st' : LoadState} (hfresh : Fresh st.manager)
    (h : mapImage st image name = (st',.ok handle)) :
    st'.manager.modules = st.manager.modules ++ [imageModule handle (loadBase st image) image name] := by
  obtain ⟨rfl,-,-,hmanager,-⟩ := mapImage_ok h
  obtain ⟨hmodules,-⟩ := takeBase_modules st.manager image
  rw [hmanager, registerModule_fresh, hmodules]
  intro m hm
  rw [hmodules] at hm
  exact (hfresh m hm).ne

/-- What is registered once the collected modules are mapped. -/
lemma mapAll_modules (p : Process) (mapped : List MappedModule) (set : List Collected)
    (hfresh : Fresh p.load.manager) :
    ∃ new, (set.foldl mapCollected (p,mapped)).2 = mapped ++ new ∧
      (set.foldl mapCollected (p,mapped)).1.load.manager.modules = p.load.manager.modules ++
        (linkedModules (set.foldl mapCollected (p,mapped)).1.load.manager new).map Linked.module := by
  induction set generalizing p mapped with
  | nil => exact ⟨[],by simp,by simp [linkedModules]⟩
  | cons c set ih =>
    rw [List.foldl_cons]
    generalize hstep : mapImage p.load c.image c.lib = result
    obtain ⟨load,result⟩ := result
    cases result with
    | error e =>
      have hsame : mapCollected (p,mapped) c = ({ p with load := load },mapped) := by
        simp only [mapCollected, hstep]
      have hext := extends_mapImage p.load c.image c.lib
      obtain ⟨hmodules,-⟩ := takeBase_modules p.load.manager c.image
      have hmanager : load.manager = (takeBase p.load.manager c.image).2 := by
        rcases mapImage_manager p.load c.image c.lib with ⟨-,-,h⟩ | ⟨h,-⟩
        · rwa [hstep] at h
        · rw [hstep] at h
          cases h
      rw [hstep] at hext
      obtain ⟨new,hnew,hrest⟩ := ih { p with load := load } mapped (hext.fresh hfresh)
      rw [hsame]
      refine ⟨new,hnew,hrest.trans ?_⟩
      dsimp only
      rw [hmanager, hmodules]
    | ok handle =>
      have hext := extends_mapImage p.load c.image c.lib
      have hregistered := mapImage_modules hfresh hstep
      obtain ⟨rfl,-,-,hmanager,hget⟩ := mapImage_ok hstep
      obtain ⟨hmodules,hnext⟩ := takeBase_modules p.load.manager c.image
      rw [hstep] at hext
      generalize hmapped : mapCollected (p,mapped) c = s
      obtain ⟨q,mapped'⟩ := s
      have hq : q.load = load ∧ mapped' = mapped ++ [⟨p.load.manager.nextId,c.path,c.dir,c.image⟩] := by
        simp only [mapCollected, hstep, Prod.mk.injEq] at hmapped
        obtain ⟨rfl,rfl⟩ := hmapped
        exact ⟨rfl,rfl⟩
      obtain ⟨rfl,rfl⟩ := hq
      obtain ⟨new,hnew,hrest⟩ := ih q _ (hext.fresh hfresh)
      obtain ⟨rest,-,hmaps⟩ := mapAll_maps q (mapped ++ [⟨p.load.manager.nextId,c.path,c.dir,c.image⟩])
        set
      have hlt : p.load.manager.nextId < q.load.manager.nextId := by
        rw [hmanager]
        exact hnext ▸ Nat.lt_succ_self _
      have hkept := (hmaps.manager.keeps _ hlt).trans hget
      refine ⟨⟨p.load.manager.nextId,c.path,c.dir,c.image⟩ :: new,by rw [hnew]; simp,?_⟩
      rw [linkedModules_cons hkept, hrest, hregistered]
      simp

/-- After the dependencies of a load the slots of each one are those of its own turn. -/
lemma loadModuleSet_holds (order : MapOrder) (p : Process) (set : List Collected)
    (hbelow : SlotsBelow p.load) (hfresh : Fresh p.load.manager) :
    let vm := p.load.memory.vm
    let stubsBase := p.load.linker.stubsBase
    let q := (set.foldl mapCollected (p,[])).1
    let loaded := (loadModuleSet order p set).load
    let needed := turns vm stubsBase q.load.manager.modules p.load.linker.stubsCursor
      (neededModules p set)
    SlotsBelow loaded ∧ Fresh loaded.manager ∧ loaded.manager = q.load.manager ∧
    q.load.manager.modules = p.load.manager.modules ++ (neededModules p set).map Linked.module ∧
    (∀ turn ∈ needed.1, turn.Holds order vm stubsBase loaded.linker ∧
      turn.linked.module.id < loaded.manager.nextId) ∧
    Steps p.load.memory loaded.memory p.load.linker loaded.linker needed.2 := by
  obtain ⟨ms,hms,hmaps⟩ := mapAll_maps p [] set
  obtain ⟨new,hnew,hmodules⟩ := mapAll_modules p [] set hfresh
  obtain ⟨hlinker,hvm⟩ := mapAll_linker p [] set
  unfold loadModuleSet neededModules
  generalize set.foldl mapCollected (p,[]) = s at *
  obtain ⟨q,needed⟩ := s
  obtain rfl : needed = ms := by simpa using hms
  obtain rfl : needed = new := by simpa using hnew
  dsimp only at hmaps hlinker hvm hmodules ⊢
  have hfree : ∀ f ∈ q.load.linker.fixups, f.handle ∉ needed.map MappedModule.handle := by
    intro f hf hmem
    obtain ⟨m,hm,heq⟩ := List.mem_map.mp hmem
    have hlt := hbelow f (hlinker ▸ hf)
    have hle := (hmaps.handles m hm).1
    omega
  obtain ⟨hneeded,hkept,hsteps⟩ := turns_hold order q needed hmaps.nodup hfree hmaps.registered
  obtain ⟨new,hstarts⟩ := relocateAll_starts order q needed hmaps.registered
  rw [hlinker, hvm] at hneeded hsteps
  have hids : ∀ id ∈ needed.map MappedModule.handle, id < q.load.manager.nextId := by
    intro id hid
    obtain ⟨m,hm,rfl⟩ := List.mem_map.mp hid
    exact (hmaps.handles m hm).2
  rw [hstarts.manager]
  refine ⟨?_,hmaps.manager.fresh hfresh,rfl,hmodules,?_,?_⟩
  · intro f hf
    rw [hstarts.manager]
    by_cases hmem : f.handle ∈ needed.map MappedModule.handle
    · exact hids _ hmem
    · have hlt := hbelow f (hlinker ▸ (hkept f hmem).mp hf)
      exact hlt.trans_le hmaps.manager.nextId
  · intro turn hturn
    obtain ⟨hholds,hin⟩ := hneeded turn hturn
    exact ⟨hholds,hids _ hin⟩
  · exact ⟨hsteps.vm.trans hvm,hsteps.stubsBase,hsteps.stubsCursor⟩

/-- After a load that linked its executable or target the slots of each module are those of its own
turn. -/
lemma loadTurns_hold {set : List Collected} (hbelow : SlotsBelow p.load)
    (hfresh : Fresh p.load.manager)
    (hok : (loadImage order (loadModuleSet order p set).load image name).2 = .ok handle) :
    ∀ turn ∈ loadTurns p set image name,
      turn.Holds order p.load.memory.vm p.load.linker.stubsBase
        (loadImage order (loadModuleSet order p set).load image name).1.linker := by
  obtain ⟨hlow,hfresh',hmanager,hmodules,hneeded,hsteps⟩ :=
    loadModuleSet_holds order p set hbelow hfresh
  have htopmodule : topModule p set image name =
      ⟨imageModule (loadModuleSet order p set).load.manager.nextId
        (loadBase (loadModuleSet order p set).load image) image name,image.relocations⟩ := by
    unfold topModule loadBase
    rw [hmanager]
  rw [← hmanager] at hmodules hneeded hsteps
  unfold loadTurns
  rw [← hmodules, htopmodule]
  generalize (loadModuleSet order p set).load = loaded at *
  have hmap := loadImage_result order loaded image name hok
  have hfinal := loadImage_relocates order hmap
  have hvm := mapImage_vm loaded image name
  have hregistered := mapImage_modules hfresh' (Prod.ext rfl hmap)
  obtain ⟨rfl,htop,-,-,hget⟩ := mapImage_ok (Prod.ext rfl hmap)
  unfold SlotsBelow at hlow
  rw [← htop] at hlow
  obtain ⟨hholds,hothers⟩ := relocateImage_holds order (mapImage loaded image name).1 image hget
    fun f hf => (hlow f hf).ne
  rw [htop] at hothers
  intro turn hturn
  rcases List.mem_append.mp hturn with hturn | hturn
  · obtain ⟨hown,hlt⟩ := hneeded turn hturn
    refine hown.congr fun f hf => ?_
    rw [hfinal]
    exact hothers f (hf ▸ hlt.ne)
  · obtain rfl := List.mem_singleton.mp hturn
    rw [hfinal]
    rw [turnOf, hvm, hsteps.vm, htop, hsteps.stubsBase, hsteps.stubsCursor, hregistered] at hholds
    exact hholds

lemma mapPthread_linker (p : Process) : (mapPthread p).1.load.linker = p.load.linker := by
  unfold mapPthread
  split_ifs
  · rfl
  · split
    · rfl
    · split <;> rfl

/-- What a load of an executable leaves is what linking it left, but for memory. -/
lemma loadExecutable_load {filename : String} (order : MapOrder) (p : Process)
    (hread : host.read filename = .image image) :
    let linked := loadImage order
      (loadModuleSet order p (collectNeeded host (gameDirOf filename) p.knownPaths [] image)).load
      image "eboot.bin"
    (loadExecutable host order p filename).1.load.manager = linked.1.manager ∧
    (loadExecutable host order p filename).1.load.linker = linked.1.linker ∧
    ∀ entry, (loadExecutable host order p filename).2 = .ok entry → ∃ handle, linked.2 = .ok handle := by
  intro linked
  unfold loadExecutable
  rw [hread]
  dsimp only
  generalize hlink : link order _ filename _ image "eboot.bin" = r
  have hload : r.1.load = linked.1 := by rw [← hlink]; rfl
  have hresult : r.2 = linked.2 := by rw [← hlink]; rfl
  obtain ⟨q,result⟩ := r
  dsimp only at hload hresult
  rw [← hload, ← hresult]
  cases result with
  | error e => exact ⟨rfl,rfl,by simp⟩
  | ok handle =>
    have hmanager := (mapPthread_same q).1
    have hlinker := mapPthread_linker q
    dsimp only
    split <;> rename_i heq <;> rw [heq] at hmanager hlinker
    · exact ⟨hmanager,hlinker,by simp⟩
    · exact ⟨hmanager,hlinker,fun _ _ => ⟨handle,rfl⟩⟩

/-- What a load of a target leaves is what linking it left. -/
lemma loadTarget_load (host : Host) (order : MapOrder) (p : Process) (guestPath path : String)
    (image : ExecutableImage) :
    let linked := loadImage order (loadModuleSet order p (targetSet host p guestPath path image)).load
      image (libName guestPath)
    (loadTarget host order p guestPath path image).1.load = linked.1 ∧
    ∀ r, (loadTarget host order p guestPath path image).2 = .ok r → ∃ handle, linked.2 = .ok handle := by
  intro linked
  unfold loadTarget
  dsimp only
  split <;> rename_i q result heq
  · obtain ⟨rfl,-⟩ := Prod.mk.inj heq
    exact ⟨rfl,by simp⟩
  · obtain ⟨rfl,hresult⟩ := Prod.mk.inj heq
    exact ⟨rfl,fun _ _ => ⟨result,hresult⟩⟩

/-- A call changes the slots, and the modules, only by loading. -/
lemma step_slotsBelow {call : LoadCall} (h : SlotsBelow p.load) (hfresh : Fresh p.load.manager)
    (hstep : step host order p call = some p') : SlotsBelow p'.load ∧ Fresh p'.load.manager := by
  have hlinked : ∀ set image name,
      SlotsBelow (loadImage order (loadModuleSet order p set).load image name).1 ∧
        Fresh (loadImage order (loadModuleSet order p set).load image name).1.manager := by
    intro set image name
    obtain ⟨hlow,hfresh',-⟩ := loadModuleSet_holds order p set h hfresh
    refine ⟨hlow.loadImage order image name,?_⟩
    rw [loadImage_manager]
    exact (extends_mapImage _ image name).fresh hfresh'
  cases call with
  | executable filename =>
    obtain rfl := Option.some.inj hstep
    cases hread : host.read filename with
    | unreadable => simpa [loadExecutable, hread] using ⟨h,hfresh⟩
    | malformed => simpa [loadExecutable, hread] using ⟨h,hfresh⟩
    | image image =>
      obtain ⟨hmanager,hlinker,-⟩ := loadExecutable_load order p hread
      unfold SlotsBelow
      rw [hmanager, hlinker]
      exact hlinked _ image _
  | startModule guestPath =>
    obtain rfl := Option.some.inj hstep
    unfold loadStartModule
    split
    · exact ⟨h,hfresh⟩
    · exact ⟨h,hfresh⟩
    · split
      · exact ⟨h,hfresh⟩
      · exact ⟨h,hfresh⟩
      · rename_i path _ _ image _
        rw [(loadTarget_load host order p guestPath path image).1]
        exact hlinked _ image _

/-- After a call that returned `Ok` the slots of each module of its load are those of its own
turn. -/
lemma callTurns_hold {call : LoadCall} (hbelow : SlotsBelow p.load) (hfresh : Fresh p.load.manager)
    (hstep : step host order p call = some p') (hok : Returns host order p call) :
    ∀ turn ∈ callTurns host p call,
      turn.Holds order p.load.memory.vm p.load.linker.stubsBase p'.load.linker := by
  cases call with
  | executable filename =>
    obtain rfl := Option.some.inj hstep
    obtain ⟨entry,hok⟩ := hok
    cases hread : host.read filename with
    | unreadable => simp [callTurns, hread]
    | malformed => simp [callTurns, hread]
    | image image =>
      obtain ⟨-,hlinker,hlinked⟩ := loadExecutable_load order p hread
      obtain ⟨handle,hlinked⟩ := hlinked entry hok
      rw [hlinker]
      simp only [callTurns, hread]
      exact loadTurns_hold hbelow hfresh hlinked
  | startModule guestPath =>
    obtain rfl := Option.some.inj hstep
    obtain ⟨r,hok⟩ := hok
    cases hcached : findCached host p guestPath with
    | error e => simp [callTurns, hcached]
    | ok found =>
      cases found with
      | inl handle => simp [callTurns, hcached]
      | inr path =>
        cases hread : host.read path with
        | unreadable => simp [callTurns, hcached, hread]
        | malformed => simp [callTurns, hcached, hread]
        | image image =>
          obtain ⟨hload,hlinked⟩ := loadTarget_load host order p guestPath path image
          simp only [loadStartModule, hcached, hread] at hok ⊢
          obtain ⟨handle,hlinked⟩ := hlinked r hok
          simp only [callTurns, hcached, hread, hload]
          exact loadTurns_hold hbelow hfresh hlinked

/-- A call that returns `Ok` resolves the imports of its load when each is reached in the turn of its
module, and stands for an export of the load among the modules registered by then. -/
theorem importsResolved_iff {call : LoadCall}
    (hs : Reach (step host order) Initial (fun _ _ => True) p)
    (hstep : step host order p call = some p') (hok : Returns host order p call) :
    ImportsResolved p' ((callTurns host p call).map Turn.linked) ↔
      ImportsServed order p (callTurns host p call) := by
  obtain ⟨hbelow,hfresh⟩ : SlotsBelow p.load ∧ Fresh p.load.manager := by
    apply hs.invariant
    · intro p hp
      refine ⟨fun f hf => ?_,hp.fresh⟩
      rw [hp.fixups] at hf
      cases hf
    · exact fun p call p' h _ hstep => step_slotsBelow h.1 h.2 hstep
  have hholds := callTurns_hold hbelow hfresh hstep hok
  unfold ImportsResolved ImportsServed
  rw [List.forall_mem_map]
  refine forall₂_congr fun turn hturn => forall₂_congr fun r _ => forall_congr' fun name =>
    forall₂_congr fun hr _ => ?_
  exact (hholds turn hturn).served_iff hr

/-- Nothing loaded yet, and the region for stubs in place. -/
def booted : Process := { bare with load := (initStubs bare.load).1 }

lemma initial_booted : Initial booted :=
  ⟨rfl,rfl,rfl,rfl,rfl,by
    have hmanager : booted.load.manager = .new := by decide +kernel
    simp [Fresh, hmanager, ModuleManager.new]⟩

/-- An image that exports symbols and imports others. -/
def exporting (needed exported imported : List String) : ExecutableImage :=
  { needing needed with
    exports := exported.map fun name => (name,0x20)
    relocations := imported.map fun name => ⟨0x10,.jumpSlot,0,some name,none⟩ }

/-- Two modules that import from each other, and an executable that imports from both. -/
def crossing : Host :=
  .ofImages [("/g/eboot.bin",exporting ["foo"] [] ["f","b"]),("/g/foo.prx",exporting ["bar"] ["f"] ["b"]),
    ("/g/bar.prx",exporting ["foo"] ["b"] ["f"])]

theorem importsResolved_iff_crossing :
    ImportsResolved (loadExecutable crossing .inserted booted "/g/eboot.bin").1
      ((callTurns crossing booted (.executable "/g/eboot.bin")).map Turn.linked) := by
  have hreach : Reach (step crossing .inserted) Initial (fun _ _ => True) booted :=
    .start initial_booted
  have hok : Returns crossing .inserted booted (.executable "/g/eboot.bin") :=
    ⟨0x408000,by decide +kernel⟩
  refine (importsResolved_iff hreach rfl hok).mpr ?_
  have hcheck : ∀ turn ∈ callTurns crossing booted (.executable "/g/eboot.bin"),
      ∀ r ∈ turn.linked.relocations,
      r ∈ (turn.passed booted.load.memory.vm booted.load.linker.stubsBase).1 ∧
      r.symbolValue = none ∧ ∀ name ∈ r.symbolName,
      ∃ addr ∈ resolveSymbol .inserted turn.registry name,
      ∃ l ∈ (callTurns crossing booted (.executable "/g/eboot.bin")).map Turn.linked,
      l.module.exports.lookup name = some addr := by decide +kernel
  intro turn hturn r hr name himports _
  obtain ⟨hpassed,hvalue,hname⟩ := hcheck turn hturn r hr
  obtain ⟨addr,haddr,l,hl,hlookup⟩ := hname name himports.2
  refine ⟨hpassed,addr,?_,addr,⟨l,hl,hlookup⟩,rfl⟩
  have hfirst := resolveSymbol_eq_some_iff.mp haddr
  unfold Turn.StandsFor
  split
  · simp_all
  · exact hfirst

/-- An executable whose module imports from it. -/
def callback : Host :=
  .ofImages [("/g/eboot.bin",exporting ["foo"] ["f"] []),("/g/foo.prx",exporting [] [] ["f"])]

/-- The module is relocated before the executable is mapped, and gets a stub. -/
theorem not_importsResolved_callback : ¬∀ host order p p' call,
    Reach (step host order) Initial (fun _ _ => True) p → step host order p call = some p' →
    Returns host order p call → ImportsResolved p' ((callTurns host p call).map Turn.linked) := by
  intro h
  have hresolved := h callback .inserted booted _ (.executable "/g/eboot.bin") (.start initial_booted)
    rfl ⟨0x404000,by decide +kernel⟩
  obtain ⟨l,hl,hr,hhandle⟩ :
      ∃ l ∈ (callTurns callback booted (.executable "/g/eboot.bin")).map Turn.linked,
        ⟨0x10,.jumpSlot,0,some "f",none⟩ ∈ l.relocations ∧ l.module.id = 1 := by decide +kernel
  obtain ⟨top,htop,hlookup⟩ :
      ∃ top ∈ (callTurns callback booted (.executable "/g/eboot.bin")).map Turn.linked,
        top.module.exports.lookup "f" = some 0x404020 := by decide +kernel
  obtain ⟨-,hslots⟩ := hresolved l hl _ hr "f" ⟨.inl rfl,rfl⟩ ⟨_,top,htop,hlookup⟩
  obtain ⟨hstub,-⟩ := hslots ⟨1,⟨0x10,.jumpSlot,0,some "f",none⟩,booted.load.linker.stubsBase,true⟩
    (by decide +kernel) hhandle.symm rfl
  cases hstub

end Process

end Unemups4.Loader

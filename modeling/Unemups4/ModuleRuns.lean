import Unemups4.ModuleWalk
import Unemups4.LoadFrame

/-! What the loads do to the tables of the process, one call after the other: which modules they
register, what they record of them and which start addresses they hand out. -/
namespace Unemups4.Loader
open Memory PathText

section Manager

/-- The next handle is no registered module's. -/
def Fresh (manager : ModuleManager) : Prop := ∀ m ∈ manager.modules, m.id < manager.nextId

/-- What a load step does to the manager: it registers under new handles only. -/
structure Extends (manager manager' : ModuleManager) : Prop where
  fresh : Fresh manager → Fresh manager'
  nextId : manager.nextId ≤ manager'.nextId
  keeps : ∀ id < manager.nextId, manager'.getModule id = manager.getModule id

lemma Extends.refl (manager : ModuleManager) : Extends manager manager :=
  ⟨id,le_refl _,fun _ _ => rfl⟩

lemma Extends.trans {a b c : ModuleManager} (h : Extends a b) (h' : Extends b c) : Extends a c :=
  ⟨h'.fresh ∘ h.fresh,h.nextId.trans h'.nextId,
    fun id hid => (h'.keeps id (hid.trans_le h.nextId)).trans (h.keeps id hid)⟩

variable {manager : ModuleManager} {image : ExecutableImage} {st st' : LoadState} {order : MapOrder}
  {name : String} {handle : ℕ}

lemma takeBase_modules (manager : ModuleManager) (image : ExecutableImage) :
    (takeBase manager image).2.modules = manager.modules ∧
    (takeBase manager image).2.nextId = manager.nextId+1 := by
  unfold takeBase
  dsimp only
  split_ifs <;> exact ⟨rfl,rfl⟩

lemma extends_takeBase (manager : ModuleManager) (image : ExecutableImage) :
    Extends manager (takeBase manager image).2 := by
  obtain ⟨hmodules,hnext⟩ := takeBase_modules manager image
  refine ⟨fun h m hm => ?_,by omega,fun id _ => by rw [ModuleManager.getModule, hmodules]; rfl⟩
  have hlt := h m (hmodules ▸ hm)
  omega

lemma mapImage_manager (st : LoadState) (image : ExecutableImage) (name : String) :
    (∃ e, (mapImage st image name).2 = .error e ∧
      (mapImage st image name).1.manager = (takeBase st.manager image).2) ∨
    ((mapImage st image name).2 = .ok st.manager.nextId ∧
      (mapImage st image name).1.manager = (takeBase st.manager image).2.registerModule
        (imageModule st.manager.nextId (loadBase st image) image name)) := by
  unfold mapImage
  dsimp only
  split
  · exact .inl ⟨_,rfl,rfl⟩
  · exact .inr ⟨rfl,rfl⟩

lemma extends_mapImage (st : LoadState) (image : ExecutableImage) (name : String) :
    Extends st.manager (mapImage st image name).1.manager := by
  have hbase := extends_takeBase st.manager image
  obtain ⟨hmodules,hnext⟩ := takeBase_modules st.manager image
  rcases mapImage_manager st image name with ⟨e,-,hmanager⟩ | ⟨-,hmanager⟩
  · rwa [hmanager]
  · rw [hmanager]
    refine ⟨fun h m hm => ?_,hbase.nextId,fun id hid => ?_⟩
    · rcases List.mem_append.mp hm with hm | hm
      · exact hbase.fresh h m (List.mem_filter.mp hm).1
      · obtain rfl := List.mem_singleton.mp hm
        simp [ModuleManager.registerModule, hnext, imageModule]
    · rw [← hbase.keeps id hid]
      exact getModule_registerModule_of_ne _ hid.ne

lemma relocateImage_manager (order : MapOrder) (st : LoadState) (image : ExecutableImage)
    (handle : ℕ) : (relocateImage order st image handle).1.manager = st.manager := by
  unfold relocateImage
  split
  · rfl
  · split <;> rfl

lemma loadImage_manager (order : MapOrder) (st : LoadState) (image : ExecutableImage) (name : String) :
    (loadImage order st image name).1.manager = (mapImage st image name).1.manager := by
  unfold loadImage
  split
  · rename_i h
    rw [h]
  · rename_i st₁ handle h
    have hrel := relocateImage_manager order st₁ image handle
    split <;> rename_i h' <;> rw [h'] at hrel <;> rw [h] <;> exact hrel

lemma loadImage_result (order : MapOrder) (st : LoadState) (image : ExecutableImage) (name : String)
    (h : (loadImage order st image name).2 = .ok handle) : (mapImage st image name).2 = .ok handle := by
  unfold loadImage at h
  split at h
  · cases h
  · rename_i hmap
    split at h
    · cases h
    · obtain rfl := Except.ok.inj h
      rw [hmap]

end Manager

namespace Process

/-- What the mapping of collected modules does to a process. -/
structure MapsSet (p p' : Process) (set : List Collected) (new : List MappedModule) : Prop where
  manager : Extends p.load.manager p'.load.manager
  collected : (new.map MappedModule.source).Sublist (set.map Collected.source)
  handles : ∀ m ∈ new, p.load.manager.nextId ≤ m.handle ∧ m.handle < p'.load.manager.nextId
  nodup : (new.map MappedModule.handle).Nodup
  registered : ∀ m ∈ new, ∃ module, p'.load.manager.getModule m.handle = some module
  inits : p'.moduleInits = p.moduleInits
  cached : p'.loadedByPath = p.loadedByPath
  known : ∀ path, path ∈ p'.knownPaths ↔ path ∈ p.knownPaths ∨ path ∈ new.map MappedModule.path
  history : p'.history = { p.history with mapped := p.history.mapped ++ new }

lemma mem_knownPaths_insert {entries : List (String × ℕ)} {path path' : String} {handle : ℕ} :
    path ∈ ((path',handle) :: entries.filter fun entry => entry.1 ≠ path').map Prod.fst ↔
      path ∈ entries.map Prod.fst ∨ path = path' := by
  by_cases h : path = path'
  · simp [h]
  · simp only [List.map_cons, List.mem_cons, h, false_or, or_false, List.mem_map, List.mem_filter]
    constructor
    · rintro ⟨entry,⟨hentry,-⟩,rfl⟩
      exact ⟨entry,hentry,rfl⟩
    · rintro ⟨entry,hentry,rfl⟩
      exact ⟨entry,⟨hentry,by simpa using h⟩,rfl⟩

/-- One module is mapped or passed over. -/
lemma mapCollected_maps (p : Process) (mapped : List MappedModule) (c : Collected) :
    ∃ new, (mapCollected (p,mapped) c).2 = mapped ++ new ∧
      MapsSet p (mapCollected (p,mapped) c).1 [c] new := by
  have hext := extends_mapImage p.load c.image c.lib
  unfold mapCollected
  dsimp only
  split
  · rename_i load e hmap
    rw [hmap] at hext
    exact ⟨[],by simp,hext,by simp,by simp,by simp,by simp,rfl,rfl,by simp [knownPaths],by simp⟩
  · rename_i load handle hmap
    rw [hmap] at hext
    obtain ⟨rfl,-,-,hmanager,hget⟩ := mapImage_ok hmap
    have hnext : load.manager.nextId = p.load.manager.nextId+1 := by
      rw [hmanager]
      exact (takeBase_modules _ _).2
    refine ⟨[⟨p.load.manager.nextId,c.path,c.dir,c.image⟩],rfl,hext,.refl _,?_,by simp,?_,rfl,rfl,?_,rfl⟩
    · intro m hm
      obtain rfl := List.mem_singleton.mp hm
      exact ⟨le_refl _,by dsimp only; omega⟩
    · intro m hm
      obtain rfl := List.mem_singleton.mp hm
      exact ⟨_,hget⟩
    · intro path
      unfold knownPaths
      rw [mem_knownPaths_insert]
      simp

lemma MapsSet.append {p p' p'' : Process} {set set' : List Collected} {new new' : List MappedModule}
    (h : MapsSet p p' set new) (h' : MapsSet p' p'' set' new') :
    MapsSet p p'' (set ++ set') (new ++ new') := by
  have hnext := h.manager.nextId
  have hnext' := h'.manager.nextId
  refine ⟨h.manager.trans h'.manager,?_,?_,?_,?_,h'.inits.trans h.inits,h'.cached.trans h.cached,?_,?_⟩
  · rw [List.map_append, List.map_append]
    exact h.collected.append h'.collected
  · intro m hm
    rcases List.mem_append.mp hm with hm | hm
    · have hlt := h.handles m hm
      omega
    · have hlt := h'.handles m hm
      omega
  · rw [List.map_append]
    refine h.nodup.append h'.nodup fun handle hhandle hhandle' => ?_
    obtain ⟨m,hm,rfl⟩ := List.mem_map.mp hhandle
    obtain ⟨m',hm',heq⟩ := List.mem_map.mp hhandle'
    have hlt := h.handles m hm
    have hlt' := h'.handles m' hm'
    omega
  · intro m hm
    rcases List.mem_append.mp hm with hm | hm
    · rw [h'.manager.keeps m.handle (h.handles m hm).2]
      exact h.registered m hm
    · exact h'.registered m hm
  · intro path
    rw [h'.known, h.known, List.map_append, List.mem_append, or_assoc]
  · rw [h'.history, h.history]
    simp

lemma mapAll_maps (p : Process) (mapped : List MappedModule) (set : List Collected) :
    ∃ new, (set.foldl mapCollected (p,mapped)).2 = mapped ++ new ∧
      MapsSet p (set.foldl mapCollected (p,mapped)).1 set new := by
  induction set generalizing p mapped with
  | nil => exact ⟨[],by simp,.refl _,by simp,by simp,by simp,by simp,rfl,rfl,by simp,by simp⟩
  | cons c set ih =>
    rw [List.foldl_cons]
    obtain ⟨new,hnew,hmaps⟩ := mapCollected_maps p mapped c
    generalize mapCollected (p,mapped) c = s at hnew hmaps
    obtain ⟨p₁,mapped₁⟩ := s
    obtain rfl : mapped₁ = mapped ++ new := hnew
    obtain ⟨new',hnew',hmaps'⟩ := ih p₁ (mapped ++ new)
    exact ⟨new ++ new',by rw [hnew', List.append_assoc],hmaps.append hmaps'⟩

/-- What the relocation of mapped modules does to a process: each one's start goes to the boot
list. -/
structure StartsAll (p p' : Process) (ms : List MappedModule) (new : List Started) : Prop where
  manager : p'.load.manager = p.load.manager
  mapped : new.map Started.mapped = ms
  entries : ∀ s ∈ new, ∃ module, p.load.manager.getModule s.mapped.handle = some module ∧
    s.entry = module.entryPoint
  inits : p'.moduleInits = p.moduleInits ++ new.map Started.entry
  cached : p'.loadedByPath = p.loadedByPath
  known : p'.loadedModulePaths = p.loadedModulePaths
  history : p'.history = { p.history with boot := p.history.boot ++ new }

lemma relocateAll_starts (order : MapOrder) (p : Process) (ms : List MappedModule)
    (hms : ∀ m ∈ ms, ∃ module, p.load.manager.getModule m.handle = some module) :
    ∃ new, StartsAll p (ms.foldl (relocateMapped order) p) ms new := by
  induction ms generalizing p with
  | nil => exact ⟨[],rfl,rfl,by simp,by simp,rfl,rfl,by simp⟩
  | cons m ms ih =>
    rw [List.foldl_cons]
    obtain ⟨module,hmodule⟩ := hms m (by simp)
    have hmanager := relocateImage_manager order p.load m.image m.handle
    have hstep : relocateMapped order p m = { p with
        load := (relocateImage order p.load m.image m.handle).1
        moduleInits := p.moduleInits ++ [module.entryPoint]
        history := { p.history with boot := p.history.boot ++ [⟨m,module.entryPoint⟩] } } := by
      rw [relocateMapped, hmanager, hmodule]
    obtain ⟨new,hnew⟩ := ih (relocateMapped order p m) (by
      rw [hstep]
      dsimp only
      rw [hmanager]
      exact fun m' hm' => hms m' (by simp [hm']))
    refine ⟨⟨m,module.entryPoint⟩ :: new,?_,by simp [hnew.mapped],?_,?_,?_,?_,?_⟩
    · rw [hnew.manager, hstep]
      exact hmanager
    · intro s hs
      rcases List.mem_cons.mp hs with rfl | hs
      · exact ⟨module,hmodule,rfl⟩
      · obtain ⟨module',hmodule',hentry⟩ := hnew.entries s hs
        rw [hstep] at hmodule'
        exact ⟨module',hmanager ▸ hmodule',hentry⟩
    · rw [hnew.inits, hstep]
      simp
    · rw [hnew.cached, hstep]
    · rw [hnew.known, hstep]
    · rw [hnew.history, hstep]
      simp

/-- What the loading of a set does to a process. -/
structure LoadsSet (p p' : Process) (set : List Collected) (new : List Started) : Prop where
  manager : Extends p.load.manager p'.load.manager
  collected : (new.map fun s => s.mapped.source).Sublist (set.map Collected.source)
  handles : ∀ s ∈ new, p.load.manager.nextId ≤ s.mapped.handle ∧
    s.mapped.handle < p'.load.manager.nextId
  nodup : (new.map fun s => s.mapped.handle).Nodup
  entries : ∀ s ∈ new, ∃ module, p'.load.manager.getModule s.mapped.handle = some module ∧
    s.entry = module.entryPoint
  inits : p'.moduleInits = p.moduleInits ++ new.map Started.entry
  cached : p'.loadedByPath = p.loadedByPath
  known : ∀ path, path ∈ p'.knownPaths ↔
    path ∈ p.knownPaths ∨ path ∈ new.map fun s => s.mapped.path
  history : p'.history = { p.history with
    mapped := p.history.mapped ++ new.map Started.mapped, boot := p.history.boot ++ new }

theorem loadModuleSet_loads (order : MapOrder) (p : Process) (set : List Collected) :
    ∃ new, LoadsSet p (loadModuleSet order p set) set new := by
  obtain ⟨ms,hms,hmaps⟩ := mapAll_maps p [] set
  unfold loadModuleSet
  generalize set.foldl mapCollected (p,[]) = s at hms hmaps
  obtain ⟨p₁,mapped⟩ := s
  obtain rfl : mapped = ms := by simpa using hms
  obtain ⟨new,hnew⟩ := relocateAll_starts order p₁ mapped hmaps.registered
  dsimp only at hmaps ⊢
  obtain rfl := hnew.mapped
  refine ⟨new,?_,?_,?_,?_,?_,?_,?_,?_,?_⟩
  · rw [hnew.manager]
    exact hmaps.manager
  · have hcollected := hmaps.collected
    rwa [List.map_map] at hcollected
  · intro s hs
    rw [hnew.manager]
    exact hmaps.handles s.mapped (List.mem_map_of_mem hs)
  · have hnodup := hmaps.nodup
    rwa [List.map_map] at hnodup
  · rw [hnew.manager]
    exact hnew.entries
  · rw [hnew.inits, hmaps.inits]
  · rw [hnew.cached, hmaps.cached]
  · intro path
    unfold knownPaths
    rw [hnew.known]
    simpa [knownPaths] using hmaps.known path
  · rw [hnew.history, hmaps.history]

/-- What the link of an executable or a target does to a process. -/
structure Links (p p' : Process) (path dir : String) (image : ExecutableImage)
    (result : Except LoaderError ℕ) (new : List MappedModule) : Prop where
  manager : Extends p.load.manager p'.load.manager
  linked : new = [] ∨ new = [⟨p.load.manager.nextId,path,dir,image⟩]
  inits : p'.moduleInits = p.moduleInits
  cached : p'.loadedByPath = p.loadedByPath
  known : p'.loadedModulePaths = p.loadedModulePaths
  history : p'.history = { p.history with linked := new ++ p.history.linked }
  result : ∀ handle, result = .ok handle → handle = p.load.manager.nextId ∧
    new = [⟨handle,path,dir,image⟩] ∧ ∃ module, p'.load.manager.getModule handle = some module
  bounds : ∀ m ∈ new, p.load.manager.nextId ≤ m.handle ∧ m.handle < p'.load.manager.nextId
  registered : ∀ m ∈ new, ∃ module, p'.load.manager.getModule m.handle = some module

lemma link_links (order : MapOrder) (p : Process) (path dir : String) (image : ExecutableImage)
    (name : String) : ∃ new,
    Links p (link order p path dir image name).1 path dir image (link order p path dir image name).2
      new := by
  have hmanager := loadImage_manager order p.load image name
  have hext := extends_mapImage p.load image name
  rw [← hmanager] at hext
  rcases mapImage_manager p.load image name with ⟨e,herr,-⟩ | ⟨hok,hmap⟩
  · refine ⟨[],hext,.inl rfl,rfl,rfl,rfl,by simp [link, herr],fun handle h => ?_,by simp,
      by simp⟩
    have hcon := loadImage_result order p.load image name h
    rw [herr] at hcon
    cases hcon
  · have hget : (link order p path dir image name).1.load.manager.getModule p.load.manager.nextId =
        some (imageModule p.load.manager.nextId (loadBase p.load image) image name) := by
      rw [show (link order p path dir image name).1.load.manager = _ from hmanager, hmap]
      exact getModule_registerModule _ rfl
    have hnext : (link order p path dir image name).1.load.manager.nextId = p.load.manager.nextId+1 := by
      rw [show (link order p path dir image name).1.load.manager = _ from hmanager, hmap]
      exact (takeBase_modules _ _).2
    refine ⟨[⟨p.load.manager.nextId,path,dir,image⟩],hext,.inr rfl,rfl,rfl,rfl,by simp [link, hok],?_,?_,?_⟩
    · intro handle h
      have heq := loadImage_result order p.load image name h
      rw [hok] at heq
      obtain rfl := Except.ok.inj heq
      exact ⟨rfl,rfl,_,hget⟩
    · intro m hm
      obtain rfl := List.mem_singleton.mp hm
      exact ⟨le_refl _,by rw [hnext]; exact Nat.lt_succ_self _⟩
    · intro m hm
      obtain rfl := List.mem_singleton.mp hm
      exact ⟨_,hget⟩

/-- The main thread's control block touches no table of the loads. -/
lemma mapPthread_same (p : Process) : (mapPthread p).1.load.manager = p.load.manager ∧
    (mapPthread p).1.moduleInits = p.moduleInits ∧ (mapPthread p).1.loadedByPath = p.loadedByPath ∧
    (mapPthread p).1.loadedModulePaths = p.loadedModulePaths ∧
    (mapPthread p).1.history = p.history := by
  unfold mapPthread
  split_ifs
  · exact ⟨rfl,rfl,rfl,rfl,rfl⟩
  · split
    · exact ⟨rfl,rfl,rfl,rfl,rfl⟩
    · split <;> exact ⟨rfl,rfl,rfl,rfl,rfl⟩

/-- What a call that found an image at a path does to the tables: some of the modules collected for
it are mapped, and then perhaps its own. -/
structure Registers (p p' : Process) (path dir : String) (image : ExecutableImage) (set : List Collected)
    (new : List Started) (linked : List MappedModule) : Prop where
  manager : Extends p.load.manager p'.load.manager
  collected : (new.map fun s => s.mapped.source).Sublist (set.map Collected.source)
  top : linked = [] ∨ ∃ handle, linked = [⟨handle,path,dir,image⟩]
  handles : (linked.map MappedModule.handle ++ new.map fun s => s.mapped.handle).Nodup
  bounds : ∀ m ∈ linked ++ new.map Started.mapped,
    p.load.manager.nextId ≤ m.handle ∧ m.handle < p'.load.manager.nextId
  registered : ∀ m ∈ linked ++ new.map Started.mapped,
    ∃ module, p'.load.manager.getModule m.handle = some module
  entries : ∀ s ∈ new, ∃ module, p'.load.manager.getModule s.mapped.handle = some module ∧
    s.entry = module.entryPoint
  known : ∀ path, path ∈ p'.knownPaths ↔
    path ∈ p.knownPaths ∨ path ∈ new.map fun s => s.mapped.path
  mapped : p'.history.mapped = p.history.mapped ++ new.map Started.mapped
  linked : p'.history.linked = linked ++ p.history.linked

/-- The tables that a call registers in, apart from its lists of starts. -/
structure SameTables (p p' : Process) : Prop where
  manager : p'.load.manager = p.load.manager
  known : p'.loadedModulePaths = p.loadedModulePaths
  mapped : p'.history.mapped = p.history.mapped
  linked : p'.history.linked = p.history.linked

/-- The two steps of a call together. -/
lemma LoadsSet.registers {p p₁ p₂ p₃ p' : Process} {path dir : String} {image : ExecutableImage}
    {set : List Collected} {new : List Started} {linked : List MappedModule}
    {result : Except LoaderError ℕ} (h : LoadsSet p p₁ set new) (hsame : SameTables p₁ p₂)
    (hlinks : Links p₂ p₃ path dir image result linked) (hsame' : SameTables p₃ p') :
    Registers p p' path dir image set new linked := by
  obtain ⟨hmanager,hknown,hmapped,hlinked⟩ := hsame
  obtain ⟨hmanager',hknown',hmapped',hlinked'⟩ := hsame'
  have hnext := h.manager.nextId
  have hnext' := hlinks.manager.nextId
  rw [hmanager] at hnext'
  have hbounds : ∀ m ∈ linked, p₁.load.manager.nextId ≤ m.handle ∧
      m.handle < p₃.load.manager.nextId := hmanager ▸ hlinks.bounds
  have hentries : ∀ s ∈ new, ∃ module,
      p₃.load.manager.getModule s.mapped.handle = some module ∧ s.entry = module.entryPoint := by
    intro s hs
    obtain ⟨module,hmodule,hentry⟩ := h.entries s hs
    refine ⟨module,(hlinks.manager.keeps _ ?_).trans (hmanager ▸ hmodule),hentry⟩
    rw [hmanager]
    exact (h.handles s hs).2
  refine ⟨?_,h.collected,?_,?_,?_,?_,?_,?_,?_,?_⟩
  · rw [hmanager']
    exact h.manager.trans (hmanager ▸ hlinks.manager)
  · exact hlinks.linked.imp_right fun heq => ⟨_,heq⟩
  · refine List.Nodup.append ?_ h.nodup ?_
    · rcases hlinks.linked with rfl | rfl <;> simp
    · intro handle hhandle hhandle'
      obtain ⟨m,hm,rfl⟩ := List.mem_map.mp hhandle
      obtain ⟨s,hs,heq⟩ := List.mem_map.mp hhandle'
      have hlow := (hbounds m hm).1
      have hhigh := (h.handles s hs).2
      omega
  · rw [hmanager']
    intro m hm
    rcases List.mem_append.mp hm with hm | hm
    · have hb := hbounds m hm
      omega
    · obtain ⟨s,hs,rfl⟩ := List.mem_map.mp hm
      have hb := h.handles s hs
      omega
  · rw [hmanager']
    intro m hm
    rcases List.mem_append.mp hm with hm | hm
    · exact hlinks.registered m hm
    · obtain ⟨s,hs,rfl⟩ := List.mem_map.mp hm
      obtain ⟨module,hmodule,-⟩ := hentries s hs
      exact ⟨module,hmodule⟩
  · rwa [hmanager']
  · intro path
    unfold knownPaths
    rw [hknown', hlinks.known, hknown]
    exact h.known path
  · rw [hmapped', hlinks.history, hmapped, h.history]
  · rw [hlinked', hlinks.history, hlinked, h.history]

/-- A call of `loadExecutable` that finds no image changes nothing; another one puts the starts of
what it mapped in the boot list. -/
lemma loadExecutable_cases (host : Host) (order : MapOrder) (p : Process) (filename : String) :
    (loadExecutable host order p filename).1 = p ∨
    ∃ image new linked, host.read filename = .image image ∧
      Registers p (loadExecutable host order p filename).1 filename (gameDirOf filename) image
        (collectNeeded host (gameDirOf filename) p.knownPaths [] image) new linked ∧
      (loadExecutable host order p filename).1.moduleInits = p.moduleInits ++ new.map Started.entry ∧
      (loadExecutable host order p filename).1.history.boot = p.history.boot ++ new ∧
      (loadExecutable host order p filename).1.history.handed = p.history.handed := by
  unfold loadExecutable
  split
  · exact .inl rfl
  · exact .inl rfl
  · rename_i image hread
    right
    obtain ⟨new,hloads⟩ := loadModuleSet_loads order p
      (collectNeeded host (gameDirOf filename) p.knownPaths [] image)
    dsimp only
    generalize loadModuleSet order p (collectNeeded host (gameDirOf filename) p.knownPaths [] image) = p₁
      at hloads
    obtain ⟨linked,hlinks⟩ := link_links order p₁ filename (gameDirOf filename) image "eboot.bin"
    generalize link order p₁ filename (gameDirOf filename) image "eboot.bin" = r at hlinks
    obtain ⟨p₂,result⟩ := r
    have hinits : p₂.moduleInits = p.moduleInits ++ new.map Started.entry :=
      hlinks.inits.trans hloads.inits
    have hhistory : p₂.history.boot = p.history.boot ++ new ∧ p₂.history.handed = p.history.handed := by
      rw [hlinks.history, hloads.history]
      exact ⟨rfl,rfl⟩
    refine ⟨image,new,linked,hread,?_⟩
    cases result with
    | error e =>
      exact ⟨hloads.registers ⟨rfl,rfl,rfl,rfl⟩ hlinks ⟨rfl,rfl,rfl,rfl⟩,hinits,hhistory⟩
    | ok handle =>
      obtain ⟨hmanager,hinits',-,hknown,hsame⟩ := mapPthread_same p₂
      dsimp only
      generalize mapPthread p₂ = q at hmanager hinits' hknown hsame
      obtain ⟨p₃,result⟩ := q
      dsimp only at hmanager hinits' hknown hsame
      have htables : SameTables p₂ p₃ := ⟨hmanager,hknown,by rw [hsame],by rw [hsame]⟩
      have hreg := hloads.registers ⟨rfl,rfl,rfl,rfl⟩ hlinks htables
      cases result <;> exact ⟨hreg,hinits'.trans hinits,by rw [hsame]; exact hhistory⟩

/-- What a call returned is the last of the lists that were handed out; a failed call hands out
none. -/
def Hands (p p' : Process) (result : Except ℕ (ℕ × List ℕ)) (starts : List Started) : Prop :=
  match result with
  | .error _ => p'.history.handed = p.history.handed
  | .ok (_,entries) =>
      p'.history.handed = p.history.handed ++ [starts] ∧ entries = starts.map Started.entry

/-- A target's call returns the starts of what was mapped for it and its own, and leaves the boot
list, which runs along with the addresses. -/
structure HandsTarget (p p' : Process) (result : Except ℕ (ℕ × List ℕ)) (new own : List Started)
    (linked : List MappedModule) : Prop where
  top : own = [] ∨ own.map Started.mapped = linked
  entries : ∀ s ∈ own, ∃ module, p'.load.manager.getModule s.mapped.handle = some module ∧
    s.entry = module.entryPoint
  inits : p'.moduleInits = p.moduleInits
  boot : p.history.boot.length = p.moduleInits.length → p'.history.boot = p.history.boot
  handed : p.history.boot.length = p.moduleInits.length → Hands p p' result (new ++ own)

lemma loadTarget_hands (host : Host) (order : MapOrder) (p : Process) (guestPath path : String)
    (image : ExecutableImage) : ∃ new linked own,
    Registers p (loadTarget host order p guestPath path image).1 path (targetDir path) image
      (targetSet host p guestPath path image) new linked ∧
    HandsTarget p (loadTarget host order p guestPath path image).1
      (loadTarget host order p guestPath path image).2 new own linked := by
  obtain ⟨new,hloads⟩ := loadModuleSet_loads order p (targetSet host p guestPath path image)
  unfold loadTarget
  dsimp only
  generalize loadModuleSet order p (targetSet host p guestPath path image) = p₁ at hloads
  obtain ⟨linked,hlinks⟩ := link_links order (p₁.splitInits p.moduleInits.length).1 path
    (targetDir path) image (libName guestPath)
  have hsame : SameTables p₁ (p₁.splitInits p.moduleInits.length).1 := ⟨rfl,rfl,rfl,rfl⟩
  have hinits : (p₁.splitInits p.moduleInits.length).1.moduleInits = p.moduleInits := by
    simp [splitInits, hloads.inits]
  have hsplit : p.history.boot.length = p.moduleInits.length →
      (p₁.splitInits p.moduleInits.length).1.history.boot = p.history.boot ∧
      (p₁.splitInits p.moduleInits.length).2 = new := by
    intro hlen
    simp [splitInits, hloads.history, ← hlen]
  have hhanded : (p₁.splitInits p.moduleInits.length).1.history.handed = p.history.handed := by
    simp [splitInits, hloads.history]
  have hstarts : p₁.moduleInits.drop p.moduleInits.length = new.map Started.entry := by
    simp [hloads.inits]
  rw [hstarts]
  generalize p₁.splitInits p.moduleInits.length = split at *
  obtain ⟨p₂,handed⟩ := split
  dsimp only at hlinks hsame hinits hsplit hhanded ⊢
  generalize link order p₂ path (targetDir path) image (libName guestPath) = r at hlinks
  obtain ⟨p₃,result⟩ := r
  cases result with
  | error e =>
    refine ⟨new,linked,[],hloads.registers hsame hlinks ⟨rfl,rfl,rfl,rfl⟩,.inl rfl,by simp,
      hlinks.inits.trans hinits,fun hlen => ?_,fun hlen => ?_⟩
    · rw [hlinks.history]
      exact (hsplit hlen).1
    · rw [Hands, hlinks.history]
      exact hhanded
  | ok handle =>
    obtain ⟨-,hlinked,module,hmodule⟩ := hlinks.result handle rfl
    dsimp only at hmodule ⊢
    rw [hmodule]
    by_cases hzero : module.entryPoint = 0
    · refine ⟨new,linked,[],hloads.registers hsame hlinks ⟨rfl,rfl,rfl,rfl⟩,.inl rfl,by simp,
        hlinks.inits.trans hinits,fun hlen => ?_,fun hlen => ⟨?_,?_⟩⟩
      · dsimp only [cache, handOut]
        rw [hlinks.history]
        exact (hsplit hlen).1
      · dsimp only [cache, handOut]
        rw [hlinks.history, (hsplit hlen).2]
        simp [hhanded, hzero]
      · simp [hzero]
    · refine ⟨new,linked,[⟨⟨handle,path,targetDir path,image⟩,module.entryPoint⟩],
        hloads.registers hsame hlinks ⟨rfl,rfl,rfl,rfl⟩,.inr (by simp [hlinked]),?_,
        hlinks.inits.trans hinits,fun hlen => ?_,fun hlen => ⟨?_,?_⟩⟩
      · intro s hs
        obtain rfl := List.mem_singleton.mp hs
        exact ⟨module,hmodule,rfl⟩
      · dsimp only [cache, handOut]
        rw [hlinks.history]
        exact (hsplit hlen).1
      · dsimp only [cache, handOut]
        rw [hlinks.history, (hsplit hlen).2]
        simp [hhanded, hzero]
      · simp [hzero]

lemma loadTarget_mapped (host : Host) (order : MapOrder) (p : Process) (guestPath path : String)
    (image : ExecutableImage) : (loadTarget host order p guestPath path image).1.history.mapped =
      (loadModuleSet order p (targetSet host p guestPath path image)).history.mapped := by
  unfold loadTarget
  dsimp only
  obtain ⟨linked,hlinks⟩ := link_links order
    ((loadModuleSet order p (targetSet host p guestPath path image)).splitInits
      p.moduleInits.length).1 path (targetDir path) image (libName guestPath)
  have hmapped := congrArg History.mapped hlinks.history
  split <;> rename_i h <;> rw [h] at hmapped <;> exact hmapped

lemma loadTarget_ok {host : Host} {order : MapOrder} {p : Process} {guestPath path : String}
    {image : ExecutableImage} {handle : ℕ}
    (h : (link order ((loadModuleSet order p (targetSet host p guestPath path image)).splitInits
      p.moduleInits.length).1 path (targetDir path) image (libName guestPath)).2 = .ok handle) :
    ∃ r, (loadTarget host order p guestPath path image).2 = .ok r := by
  unfold loadTarget
  dsimp only
  split
  · rename_i hlink
    rw [hlink] at h
    cases h
  · exact ⟨_,rfl⟩

/-- A call of `loadStartModule` that finds no new image returns no starts. -/
lemma loadStartModule_cases (host : Host) (order : MapOrder) (p : Process) (guestPath : String) :
    (SameTables p (loadStartModule host order p guestPath).1 ∧
      (loadStartModule host order p guestPath).1.moduleInits = p.moduleInits ∧
      (loadStartModule host order p guestPath).1.history.boot = p.history.boot ∧
      Hands p (loadStartModule host order p guestPath).1 (loadStartModule host order p guestPath).2 []) ∨
    ∃ path image, findCached host p guestPath = .ok (.inr path) ∧ host.read path = .image image ∧
      loadStartModule host order p guestPath = loadTarget host order p guestPath path image := by
  unfold loadStartModule
  split
  · exact .inl ⟨⟨rfl,rfl,rfl,rfl⟩,rfl,rfl,rfl⟩
  · exact .inl ⟨⟨rfl,rfl,rfl,rfl⟩,rfl,rfl,rfl,rfl⟩
  · rename_i path hcached
    split
    · exact .inl ⟨⟨rfl,rfl,rfl,rfl⟩,rfl,rfl,rfl⟩
    · exact .inl ⟨⟨rfl,rfl,rfl,rfl⟩,rfl,rfl,rfl⟩
    · rename_i image hread
      exact .inr ⟨path,image,hcached,hread,rfl⟩

end Process

/-- A host with these images in its files, which the guest finds under `/app0`. -/
def Host.ofImages (images : List (String × ExecutableImage)) : Host :=
  ⟨images.map fun entry => .image entry.2,fun path => images.findIdx? fun entry => entry.1 = path,
    fun guestPath => (fileName guestPath).map fun name => "/g/" ++ String.ofList name⟩

/-- An image without contents, and the modules that it needs. -/
def needing (needed : List String) : ExecutableImage := ⟨0x1000,[],0,[],needed,[]⟩

/-- A process with nothing loaded. -/
def Process.bare : Process := ⟨startWith (.new TableRun.defaultVm),[],[],[],⟨[],[],[],[]⟩⟩

end Unemups4.Loader

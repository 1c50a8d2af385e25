import Unemups4.ModuleRuns

/-! No file is mapped twice in runs that spell a file in one way and load neither an executable nor
a target again, which the loads do not record the files of. -/
namespace Unemups4.Loader
open Transition (Reach)

inductive LoadCall where
  | executable (filename : String)
  | startModule (guestPath : String)
  deriving DecidableEq, Repr

namespace Process

def step (host : Host) (order : MapOrder) (p : Process) : LoadCall → Option Process
  | .executable filename => some (loadExecutable host order p filename).1
  | .startModule guestPath => some (loadStartModule host order p guestPath).1

/-- Nothing was loaded yet; some modules may stand for emulated libraries. -/
structure Initial (p : Process) : Prop where
  inits : p.moduleInits = []
  cached : p.loadedByPath = []
  known : p.loadedModulePaths = []
  history : p.history = ⟨[],[],[],[]⟩
  fixups : p.load.linker.fixups = []
  fresh : Fresh p.load.manager

/-- The registered modules that came from files. -/
def sources (p : Process) : List MappedModule := p.history.linked ++ p.history.mapped

/-- No two modules come from the same file. -/
def FileOnce (host : Host) (p : Process) : Prop :=
  ∀ m ∈ p.sources, ∀ m' ∈ p.sources, host.file m.path = host.file m'.path → m.handle = m'.handle

/-- The file of a call and those it collects are spelled in one way each, by the call and by what
was loaded before, and no executable or target is among the rest. -/
structure OneFile (host : Host) (p : Process) (path : String) (set : List Collected) : Prop where
  spelled : ∀ a ∈ path :: set.map Collected.path ++ p.sources.map MappedModule.path,
    ∀ b ∈ path :: set.map Collected.path ++ p.sources.map MappedModule.path,
      host.file a = host.file b → a = b
  target : path ∉ p.history.linked.map MappedModule.path ∧ path ∉ p.knownPaths
  own : path ∉ set.map Collected.path
  needed : ∀ c ∈ set, c.path ∉ p.history.linked.map MappedModule.path

/-- Every load meets files in one spelling and none that was loaded as an executable or target. -/
def Single (host : Host) (p : Process) : LoadCall → Prop
  | .executable filename => ∀ image, host.read filename = .image image →
      OneFile host p filename (collectNeeded host (gameDirOf filename) p.knownPaths [] image)
  | .startModule guestPath => ∀ path image, findCached host p guestPath = .ok (.inr path) →
      host.read path = .image image → OneFile host p path (targetSet host p guestPath path image)

structure FilesApart (host : Host) (p : Process) : Prop where
  files : ((p.sources.map MappedModule.path).map host.file).Nodup
  known : ∀ m ∈ p.history.mapped, m.path ∈ p.knownPaths

variable {host : Host} {order : MapOrder} {p p' : Process}

lemma Registers.sources_perm {path dir : String} {image : ExecutableImage} {set : List Collected}
    {new : List Started} {linked : List MappedModule}
    (hreg : Registers p p' path dir image set new linked) :
    p'.sources.Perm ((linked ++ new.map Started.mapped) ++ p.sources) := by
  unfold sources
  rw [hreg.mapped, hreg.linked, List.append_assoc, List.append_assoc]
  refine List.Perm.append_left linked ?_
  rw [← List.append_assoc]
  exact List.perm_append_comm

lemma FilesApart.registers {path dir : String} {image : ExecutableImage} {set : List Collected}
    {new : List Started} {linked : List MappedModule} (h : FilesApart host p)
    (hset : (set.map Collected.path).Nodup ∧ ∀ c ∈ set, c.path ∉ p.knownPaths)
    (hone : OneFile host p path set) (hreg : Registers p p' path dir image set new linked) :
    FilesApart host p' := by
  obtain ⟨hnodup,hunknown⟩ := hset
  have hpaths : (new.map fun s => s.mapped.path).Sublist (set.map Collected.path) := by
    have hmap := hreg.collected.map Prod.fst
    rwa [List.map_map, List.map_map] at hmap
  have hsub : ∀ q ∈ new.map fun s => s.mapped.path, q ∈ set.map Collected.path :=
    fun q hq => hpaths.subset hq
  have hold : (p.sources.map MappedModule.path).Nodup := h.files.of_map _
  have hperm := hreg.sources_perm
  have htop : ∀ q ∈ linked.map MappedModule.path, q = path := by
    rcases hreg.top with rfl | ⟨handle,rfl⟩ <;> simp
  have hmem : ∀ q ∈ (linked ++ new.map Started.mapped).map MappedModule.path,
      q = path ∨ q ∈ set.map Collected.path := by
    intro q hq
    rw [List.map_append, List.mem_append, List.map_map] at hq
    exact hq.imp (htop q) (hsub q)
  have hadded : ((linked ++ new.map Started.mapped).map MappedModule.path).Nodup := by
    rw [List.map_append, List.map_map]
    refine List.Nodup.append ?_ (hpaths.nodup hnodup) ?_
    · rcases hreg.top with rfl | ⟨handle,rfl⟩ <;> simp
    · intro q hq hq'
      exact hone.own (htop q hq ▸ hsub q hq')
  have hpathsNodup : (p'.sources.map MappedModule.path).Nodup := by
    rw [(hperm.map _).nodup_iff, List.map_append]
    refine hadded.append hold fun q hq hq' => ?_
    obtain ⟨m,hm,rfl⟩ := List.mem_map.mp hq'
    rcases List.mem_append.mp hm with hm | hm
    · have hlinked := List.mem_map_of_mem (f := MappedModule.path) hm
      rcases hmem _ hq with heq | hset
      · exact hone.target.1 (heq ▸ hlinked)
      · obtain ⟨c,hc,heq⟩ := List.mem_map.mp hset
        exact hone.needed c hc (heq ▸ hlinked)
    · have hknown := h.known m hm
      rcases hmem _ hq with heq | hset
      · exact hone.target.2 (heq ▸ hknown)
      · obtain ⟨c,hc,heq⟩ := List.mem_map.mp hset
        exact hunknown c hc (heq ▸ hknown)
  have hspelled : ∀ q ∈ p'.sources.map MappedModule.path,
      q ∈ path :: set.map Collected.path ++ p.sources.map MappedModule.path := by
    intro q hq
    rw [(hperm.map _).mem_iff, List.map_append, List.mem_append] at hq
    rw [List.cons_append, List.mem_cons, List.mem_append, ← or_assoc]
    exact hq.imp_left (hmem q)
  constructor
  · exact hpathsNodup.map_on fun a ha b hb =>
      hone.spelled a (hspelled a ha) b (hspelled b hb)
  · intro m hm
    rw [hreg.known]
    rw [hreg.mapped] at hm
    rcases List.mem_append.mp hm with hm | hm
    · exact .inl (h.known m hm)
    · obtain ⟨s,hs,rfl⟩ := List.mem_map.mp hm
      exact .inr (List.mem_map_of_mem hs)

lemma FilesApart.step (h : FilesApart host p) {call : LoadCall} (hsingle : Single host p call)
    (hstep : step host order p call = some p') : FilesApart host p' := by
  cases call with
  | executable filename =>
    obtain rfl := Option.some.inj hstep
    rcases loadExecutable_cases host order p filename with heq | ⟨image,new,linked,hread,hreg,-⟩
    · rwa [heq]
    · have honce := collectNeeded_once (gameDirOf filename) p.knownPaths [] hread
      exact h.registers ⟨honce.1,fun c hc => (honce.2 c hc).2⟩ (hsingle image hread) hreg
  | startModule guestPath =>
    obtain rfl := Option.some.inj hstep
    rcases loadStartModule_cases host order p guestPath with
      ⟨⟨-,hknown,hold,hlinked⟩,-⟩ | ⟨path,image,hcached,hread,heq⟩
    · obtain ⟨hfiles,hmapped⟩ := h
      unfold sources at hfiles
      unfold knownPaths at hmapped
      constructor <;> simpa only [sources, knownPaths, hold, hlinked, hknown]
    · have honce := collectNeeded_once (targetDir path) p.knownPaths [libName guestPath] hread
      rw [heq]
      obtain ⟨new,linked,own,hreg,-⟩ := loadTarget_hands host order p guestPath path image
      exact h.registers ⟨honce.1,fun c hc => (honce.2 c hc).2⟩
        (hsingle path image hcached hread) hreg

/-- In runs of such loads no file is mapped twice. -/
theorem single_fileOnce (hs : Reach (step host order) Initial (Single host) p) : FileOnce host p := by
  have hapart : FilesApart host p := by
    apply hs.invariant
    · intro p hp
      constructor <;> simp [sources, hp.history]
    · exact fun p call p' h hok hstep => h.step hok hstep
  intro m hm m' hm' heq
  have hpath : m.path = m'.path := List.inj_on_of_nodup_map hapart.files (List.mem_map_of_mem hm)
    (List.mem_map_of_mem hm') heq
  rw [List.inj_on_of_nodup_map (hapart.files.of_map _) hm hm' hpath]

lemma initial_bare : Initial bare :=
  ⟨rfl,rfl,rfl,rfl,rfl,by simp [Fresh, bare, startWith, ModuleManager.new]⟩

/-- An executable, a module, and another that needs it. -/
def fooBar : Host :=
  .ofImages [("/g/eboot.bin",needing []),("/g/foo.prx",needing []),("/g/bar.prx",needing ["foo"])]

lemma read_bar {path : String} {image : ExecutableImage}
    (hcached : findCached fooBar bare "/app0/bar.prx" = .ok (.inr path))
    (hread : fooBar.read path = .image image) :
    path = "/g/bar.prx" ∧ image = needing ["foo"] := by
  obtain rfl : path = "/g/bar.prx" := by
    have heq : findCached fooBar bare "/app0/bar.prx" = .ok (.inr "/g/bar.prx") := by decide +kernel
    simpa [heq, eq_comm] using hcached
  have heq : fooBar.read "/g/bar.prx" = .image (needing ["foo"]) := by decide +kernel
  exact ⟨rfl,by simpa [heq, eq_comm] using hread⟩

theorem single_fileOnce_bar :
    FileOnce fooBar (loadStartModule fooBar .inserted bare "/app0/bar.prx").1 := by
  suffices hsingle : Single fooBar bare (.startModule "/app0/bar.prx") by
    have hreach : Reach (step fooBar .inserted) Initial (Single fooBar)
        (loadStartModule fooBar .inserted bare "/app0/bar.prx").1 :=
      .step (.start initial_bare) hsingle rfl
    exact single_fileOnce hreach
  intro path image hcached hread
  obtain ⟨rfl,rfl⟩ := read_bar hcached hread
  exact ⟨by decide +kernel,by decide +kernel,by decide +kernel,by decide +kernel⟩

/-- A module that was loaded as a target is mapped again for one that needs it. -/
theorem not_fileOnce_target : ¬∀ host order p,
    Reach (step host order) Initial (fun _ _ => True) p → FileOnce host p := by
  intro h
  have hs : Reach (step fooBar .inserted) Initial (fun _ _ => True)
      (loadStartModule fooBar .inserted (loadStartModule fooBar .inserted
        (loadExecutable fooBar .inserted bare "/g/eboot.bin").1 "/app0/foo.prx").1 "/app0/bar.prx").1 :=
    .step (l := .startModule "/app0/bar.prx") (.step (l := .startModule "/app0/foo.prx")
      (.step (l := .executable "/g/eboot.bin") (.start initial_bare) trivial rfl) trivial rfl) trivial rfl
  have htwice := h _ _ _ hs ⟨2,"/g/foo.prx","/g",needing []⟩ (by decide +kernel)
    ⟨3,"/g/foo.prx","/g",needing []⟩ (by decide +kernel) rfl
  exact absurd htwice (by decide)

end Process

end Unemups4.Loader

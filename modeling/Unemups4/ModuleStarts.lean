import Unemups4.ModuleOnce

/-! The start addresses of the modules that the loads map: each goes into one list, unless the load
that it was mapped for fails to link its target, and stands there after those of the modules that
its module needs. -/
namespace Unemups4.Loader
open Transition (Reach)
open Relation (TransGen)

/-- A process, and the lists of starts that its calls have returned. -/
structure StartRun where
  process : Process
  returned : List (List ℕ)

namespace StartRun

open Process

def record (returned : List (List ℕ)) : Except ℕ (ℕ × List ℕ) → List (List ℕ)
  | .error _ => returned
  | .ok (_,starts) => returned ++ [starts]

def step (host : Host) (order : MapOrder) (s : StartRun) : LoadCall → Option StartRun
  | .executable filename => some ⟨(loadExecutable host order s.process filename).1,s.returned⟩
  | .startModule guestPath =>
      let (p,result) := loadStartModule host order s.process guestPath
      some ⟨p,record s.returned result⟩

def Initial (s : StartRun) : Prop := Process.Initial s.process ∧ s.returned = []

/-- The modules whose starts were handed out. -/
def started (s : StartRun) : List Started :=
  s.process.history.boot ++ s.process.history.handed.flatten

end StartRun

/-- One module needs the other's file. -/
def MappedModule.Needs (host : Host) (m m' : MappedModule) : Prop :=
  ∃ dep ∈ m.image.neededModules, findModuleFile host m.dir dep = some m'.path

/-- A list of starts in which no module stands before one that it needs. -/
def LeavesFirst (host : Host) (starts : List Started) : Prop :=
  starts.Pairwise fun a b => ¬a.mapped.Needs host b.mapped

/-- The lists hold the starts of the modules that are recorded for them, each dependency that was
mapped in exactly one place, and the leaves first where the graph has no cycle. -/
structure StartRun.StartedOnce (host : Host) (s : StartRun) : Prop where
  boot : s.process.moduleInits = s.process.history.boot.map Started.entry
  returned : s.returned = s.process.history.handed.map (List.map Started.entry)
  entries : ∀ t ∈ s.started, ∃ module,
    s.process.load.manager.getModule t.mapped.handle = some module ∧ t.entry = module.entryPoint
  once : ∀ m ∈ s.process.history.mapped, (s.started.map Started.mapped).count m = 1
  leavesFirst : (∀ dir, Acyclic host dir) → LeavesFirst host s.process.history.boot ∧
    ∀ starts ∈ s.process.history.handed, LeavesFirst host starts

/-- What is collected may be started in the order it is collected in: names are no paths, and none
stands for a collected file while it counts as seen. -/
structure InOrder (host : Host) (dir : String) (seeded : List String) (set : List Collected) : Prop where
  apart : NamesApart host dir
  seeded : ∀ c ∈ set, ∀ dep ∈ c.image.neededModules, dep ∈ seeded →
    ∀ c' ∈ set, findModuleFile host dir dep ≠ some c'.path

/-- The target that modules were mapped for is linked. -/
def TargetLinks (host : Host) (order : MapOrder) (p : Process) (guestPath path : String)
    (image : ExecutableImage) : Prop :=
  let loaded := Process.loadModuleSet order p (p.targetSet host guestPath path image)
  loaded.history.mapped = p.history.mapped ∨
    ∃ handle, (Process.link order (loaded.splitInits p.moduleInits.length).1 path
      (Process.targetDir path) image (Process.libName guestPath)).2 = .ok handle

/-- A target that modules were mapped for links. Where the graph has no cycle, what is collected may
be started in order, and no module in the boot list needs what is collected for an executable. -/
def StartRun.Kept (host : Host) (order : MapOrder) (s : StartRun) : LoadCall → Prop
  | .executable filename => ∀ image, host.read filename = .image image →
      (∀ dir, Acyclic host dir) →
      let dir := Process.gameDirOf filename
      let set := collectNeeded host dir s.process.knownPaths [] image
      InOrder host dir [] set ∧
        ∀ t ∈ s.process.history.boot, ∀ dep ∈ t.mapped.image.neededModules, ∀ c ∈ set,
          findModuleFile host t.mapped.dir dep ≠ some c.path
  | .startModule guestPath => ∀ path image,
      Process.findCached host s.process guestPath = .ok (.inr path) → host.read path = .image image →
      TargetLinks host order s.process guestPath path image ∧
      ((∀ dir, Acyclic host dir) → InOrder host (Process.targetDir path) [Process.libName guestPath]
        (s.process.targetSet host guestPath path image))

section Order

variable {host : Host} {p p' : Process} {path dir : String} {image : ExecutableImage}
  {known seeded : List String} {new : List Started} {linked : List MappedModule}

/-- What was mapped of a collection came from it. -/
lemma exists_collected {set : List Collected} (hsub : (new.map fun s => s.mapped.source).Sublist
    (set.map Collected.source)) {s : Started} (hs : s ∈ new) :
    ∃ c ∈ set, c.path = s.mapped.path ∧ c.dir = s.mapped.dir ∧ c.image = s.mapped.image := by
  obtain ⟨c,hc,heq⟩ := List.mem_map.mp (hsub.subset (List.mem_map_of_mem hs))
  obtain ⟨hpath,hrest⟩ := Prod.mk.inj heq
  obtain ⟨hdir,himage⟩ := Prod.mk.inj hrest
  exact ⟨c,hc,hpath,hdir,himage⟩

lemma leavesFirst_new (hacyclic : Acyclic host dir) (hread : host.read path = .image image)
    (horder : InOrder host dir seeded (collectNeeded host dir known seeded image))
    (hsub : (new.map fun s => s.mapped.source).Sublist
      ((collectNeeded host dir known seeded image).map Collected.source)) :
    LeavesFirst host new ∧ ∀ s ∈ new, ∀ m : MappedModule, m.path = path → ¬s.mapped.Needs host m := by
  obtain ⟨hpairs,hunder⟩ := collectNeeded_ordered known seeded hacyclic horder.apart hread
  obtain ⟨-,hfound⟩ := collectNeeded_once dir known seeded hread
  have hneeds : ∀ s ∈ new, ∀ path', (∃ dep ∈ s.mapped.image.neededModules,
      findModuleFile host s.mapped.dir dep = some path') → Edge host dir s.mapped.path path' := by
    rintro s hs path' ⟨dep,hdep,hfind⟩
    obtain ⟨c,hc,hpath,hdir,himage⟩ := exists_collected hsub hs
    obtain ⟨-,hr,hd⟩ := (hfound c hc).1
    exact ⟨s.mapped.image,by rw [← hpath, ← himage]; exact hr,dep,hdep,by rw [← hd, hdir]; exact hfind⟩
  constructor
  · -- the pairs of the collection, those under a name that counts as seen apart
    have htriples : ((collectNeeded host dir known seeded image).map Collected.source).Pairwise
        fun a b => ¬NeedsPath host dir seeded a.2.2 b.1 := List.pairwise_map.mpr hpairs
    have hnew := List.pairwise_map.mp (htriples.sublist hsub)
    refine hnew.imp_of_mem fun {a b} ha hb hnot => ?_
    rintro ⟨dep,hdep,hfind⟩
    obtain ⟨c,hc,hpath,hdir,himage⟩ := exists_collected hsub ha
    obtain ⟨c',hc',hpath',-,-⟩ := exists_collected hsub hb
    rw [← hdir, (hfound c hc).1.dir] at hfind
    by_cases hseen : dep ∈ seeded
    · exact horder.seeded c hc dep (himage ▸ hdep) hseen c' hc' (hpath' ▸ hfind)
    · exact hnot ⟨dep,hdep,hseen,hfind⟩
  · rintro s hs m rfl hcon
    obtain ⟨c,hc,hpath,-,-⟩ := exists_collected hsub hs
    have hpath' := hunder c hc
    rw [hpath] at hpath'
    exact hacyclic _ (hpath'.tail (hneeds s hs _ hcon))

end Order

namespace StartRun

open Process

/-- The starts handed out are those of the dependencies that were mapped and of linked targets. -/
structure Accounted (s : StartRun) : Prop where
  starts : ∃ targets, (∀ m ∈ targets, m ∈ s.process.history.linked) ∧
    (s.started.map Started.mapped).Perm (s.process.history.mapped ++ targets)
  handles : (s.process.sources.map MappedModule.handle).Nodup
  bound : ∀ m ∈ s.process.sources, m.handle < s.process.load.manager.nextId
  entries : ∀ t ∈ s.started, ∃ module,
    s.process.load.manager.getModule t.mapped.handle = some module ∧ t.entry = module.entryPoint

variable {host : Host} {order : MapOrder} {s s' : StartRun}

/-- A dependency that was mapped is the only one of its handle, and so started once. -/
lemma Accounted.count (h : Accounted s) {m : MappedModule} (hm : m ∈ s.process.history.mapped) :
    (s.started.map Started.mapped).count m = 1 := by
  obtain ⟨targets,htargets,hperm⟩ := h.starts
  have hsources : s.process.sources.Nodup := h.handles.of_map _
  obtain ⟨-,hmapped,hdisjoint⟩ := List.nodup_append.mp hsources
  have hnot : m ∉ targets := fun hcon => hdisjoint m (htargets m hcon) m hm rfl
  rw [hperm.count_eq, List.count_append, List.count_eq_one_of_mem hmapped hm,
    List.count_eq_zero_of_not_mem hnot]

/-- A call accounts for what it registered. -/
lemma Accounted.registers (h : Accounted s) {path dir : String} {image : ExecutableImage}
    {set : List Collected} {new : List Started} {linked : List MappedModule} (own : List Started)
    (hreg : Registers s.process s'.process path dir image set new linked)
    (hown : own = [] ∨ own.map Started.mapped = linked)
    (hentries : ∀ t ∈ own, ∃ module, s'.process.load.manager.getModule t.mapped.handle = some module ∧
      t.entry = module.entryPoint)
    (hstarted : s'.started.Perm (s.started ++ (new ++ own))) : Accounted s' := by
  obtain ⟨targets,htargets,hperm⟩ := h.starts
  have hsources := hreg.sources_perm
  have howned : ∀ m ∈ own.map Started.mapped, m ∈ linked := by
    rcases hown with rfl | rfl
    · simp
    · exact fun _ => id
  have hnext := hreg.manager.nextId
  have hold : ∀ t ∈ s.started, t.mapped.handle < s.process.load.manager.nextId := by
    intro t ht
    apply h.bound
    rcases List.mem_append.mp (hperm.mem_iff.mp (List.mem_map_of_mem (f := Started.mapped) ht)) with
      hm | hm
    · exact List.mem_append.mpr (.inr hm)
    · exact List.mem_append.mpr (.inl (htargets _ hm))
  refine ⟨⟨targets ++ own.map Started.mapped,?_,?_⟩,?_,?_,?_⟩
  · intro m hm
    rw [hreg.linked]
    rcases List.mem_append.mp hm with hm | hm
    · exact List.mem_append.mpr (.inr (htargets m hm))
    · exact List.mem_append.mpr (.inl (howned m hm))
  · rw [hreg.mapped]
    refine (hstarted.map _).trans ?_
    rw [List.map_append, List.map_append]
    refine (hperm.append_right _).trans ?_
    rw [List.append_assoc, List.append_assoc, ← List.append_assoc targets, ← List.append_assoc _ targets]
    exact (List.perm_append_comm.append_right _).append_left _
  · rw [(hsources.map _).nodup_iff, List.map_append]
    refine List.Nodup.append ?_ h.handles fun handle hhandle hhandle' => ?_
    · rw [List.map_append, List.map_map]
      exact hreg.handles
    · obtain ⟨m,hm,rfl⟩ := List.mem_map.mp hhandle
      obtain ⟨m',hm',heq⟩ := List.mem_map.mp hhandle'
      have hlow := (hreg.bounds m hm).1
      have hhigh := h.bound m' hm'
      omega
  · intro m hm
    rcases List.mem_append.mp (hsources.mem_iff.mp hm) with hm | hm
    · exact (hreg.bounds m hm).2
    · exact (h.bound m hm).trans_le hnext
  · intro t ht
    rcases List.mem_append.mp (hstarted.mem_iff.mp ht) with ht | ht
    · rw [hreg.manager.keeps _ (hold t ht)]
      exact h.entries t ht
    · rcases List.mem_append.mp ht with ht | ht
      · exact hreg.entries t ht
      · exact hentries t ht

lemma Accounted.same (h : Accounted s) (s' : StartRun) (hsame : SameTables s.process s'.process)
    (hstarted : s'.started = s.started) : Accounted s' := by
  obtain ⟨hmanager,-,hmapped,hlinked⟩ := hsame
  obtain ⟨hstarts,hhandles,hbound,hentries⟩ := h
  unfold sources at hhandles hbound
  constructor <;> simpa only [sources, hstarted, hmanager, hmapped, hlinked]

/-- What holds between the calls. -/
structure Consistent (host : Host) (s : StartRun) : Prop where
  accounted : Accounted s
  boot : s.process.moduleInits = s.process.history.boot.map Started.entry
  returned : s.returned = s.process.history.handed.map (List.map Started.entry)
  leavesFirst : (∀ dir, Acyclic host dir) → LeavesFirst host s.process.history.boot ∧
    ∀ starts ∈ s.process.history.handed, LeavesFirst host starts

lemma leavesFirst_concat {handed : List (List Started)} {starts : List Started}
    (hrest : ∀ l ∈ handed, LeavesFirst host l) (hlast : LeavesFirst host starts) :
    ∀ l ∈ handed ++ [starts], LeavesFirst host l := by
  intro l hl
  rcases List.mem_append.mp hl with hl | hl
  · exact hrest l hl
  · rw [List.mem_singleton.mp hl]
    exact hlast

lemma Consistent.executable (h : Consistent host s) {filename : String}
    (hkept : Kept host order s (.executable filename)) :
    Consistent host ⟨(loadExecutable host order s.process filename).1,s.returned⟩ := by
  rcases loadExecutable_cases host order s.process filename with
    heq | ⟨image,new,linked,hread,hreg,hinits,hboot,hhanded⟩
  · rw [heq]
    exact h
  · generalize (loadExecutable host order s.process filename).1 = p' at *
    refine ⟨h.accounted.registers [] hreg (.inl rfl) (by simp) ?_,?_,?_,fun hacyclic => ?_⟩
    · unfold started
      rw [hboot, hhanded, List.append_nil, List.append_assoc, List.append_assoc]
      exact List.perm_append_comm.append_left _
    · rw [hinits, hboot, h.boot, List.map_append]
    · rw [hhanded, h.returned]
    · obtain ⟨horder,hold⟩ := hkept image hread hacyclic
      obtain ⟨hnew,-⟩ := leavesFirst_new (hacyclic _) hread horder hreg.collected
      obtain ⟨hfirst,hrest⟩ := h.leavesFirst hacyclic
      rw [hboot, hhanded]
      refine ⟨List.pairwise_append.mpr ⟨hfirst,hnew,fun t ht t' ht' hneeds => ?_⟩,hrest⟩
      obtain ⟨dep,hdep,hfind⟩ := hneeds
      obtain ⟨c,hc,hpath,-,-⟩ := exists_collected hreg.collected ht'
      exact hold t ht dep hdep c hc (hpath ▸ hfind)

lemma Consistent.target (h : Consistent host s) {guestPath path : String} {image : ExecutableImage}
    (hread : host.read path = .image image)
    (hlinks : TargetLinks host order s.process guestPath path image)
    (horder : (∀ dir, Acyclic host dir) → InOrder host (targetDir path) [libName guestPath]
      (s.process.targetSet host guestPath path image))
    {p' : Process} {result : Except ℕ (ℕ × List ℕ)}
    (hstep : loadTarget host order s.process guestPath path image = (p',result)) :
    Consistent host ⟨p',record s.returned result⟩ := by
  obtain ⟨new,linked,own,hreg,hhands⟩ := loadTarget_hands host order s.process guestPath path image
  have hmapped := loadTarget_mapped host order s.process guestPath path image
  have hlen : s.process.history.boot.length = s.process.moduleInits.length := by
    rw [h.boot, List.length_map]
  rw [hstep] at hreg hhands hmapped
  have hboot := hhands.boot hlen
  have hhanded := hhands.handed hlen
  cases result with
  | error e =>
    have hnone : new = [] := by
      rcases hlinks with hsame | ⟨handle,hok⟩
      · rw [hreg.mapped, hsame] at hmapped
        simpa using hmapped
      · obtain ⟨r,hr⟩ := loadTarget_ok hok
        rw [hstep] at hr
        cases hr
    subst hnone
    refine ⟨h.accounted.registers [] hreg (.inl rfl) (by simp) ?_,?_,?_,?_⟩
    · unfold started
      rw [hboot, hhanded]
      simp
    · rw [hhands.inits, hboot]
      exact h.boot
    · rw [hhanded]
      exact h.returned
    · rw [hboot, hhanded]
      exact h.leavesFirst
  | ok r =>
    obtain ⟨handle,starts⟩ := r
    obtain ⟨hhanded,rfl⟩ := hhanded
    refine ⟨h.accounted.registers _ hreg hhands.top hhands.entries ?_,?_,?_,fun hacyclic => ?_⟩
    · unfold started
      rw [hboot, hhanded]
      simp
    · rw [hhands.inits, hboot]
      exact h.boot
    · dsimp only [record]
      rw [hhanded, h.returned]
      simp
    · obtain ⟨hnew,hlast⟩ := leavesFirst_new (hacyclic _) hread (horder hacyclic) hreg.collected
      obtain ⟨hfirst,hrest⟩ := h.leavesFirst hacyclic
      rw [hboot, hhanded]
      have hown : ∀ t ∈ own, t.mapped.path = path := by
        intro t ht
        rcases hhands.top with rfl | htop
        · cases ht
        · have hmem := List.mem_map_of_mem (f := Started.mapped) ht
          rcases hreg.top with rfl | ⟨handle',rfl⟩
          · simp [htop] at hmem
          · rw [htop, List.mem_singleton] at hmem
            rw [hmem]
      have hsingle : own.Pairwise fun a b => ¬a.mapped.Needs host b.mapped := by
        rcases own with _ | ⟨t,_ | ⟨t',rest⟩⟩
        · exact .nil
        · exact List.pairwise_singleton _ _
        · rcases hreg.top with rfl | ⟨handle',rfl⟩ <;> simpa using hhands.top
      exact ⟨hfirst,leavesFirst_concat hrest (List.pairwise_append.mpr
        ⟨hnew,hsingle,fun t ht t' ht' => hlast t ht t'.mapped (hown t' ht')⟩)⟩

lemma Consistent.step (h : Consistent host s) {call : LoadCall} (hkept : Kept host order s call)
    (hstep : step host order s call = some s') : Consistent host s' := by
  cases call with
  | executable filename =>
    obtain rfl := Option.some.inj hstep
    exact h.executable hkept
  | startModule guestPath =>
    dsimp only [StartRun.step] at hstep
    rcases loadStartModule_cases host order s.process guestPath with
      ⟨hsame,hinits,hboot,hhands⟩ | ⟨path,image,hcached,hread,heq⟩
    · generalize loadStartModule host order s.process guestPath = r at hstep hsame hinits hboot hhands
      obtain ⟨p',result⟩ := r
      have hflatten : p'.history.handed.flatten = s.process.history.handed.flatten := by
        cases result with
        | error e => rw [show p'.history.handed = _ from hhands]
        | ok r => rw [show p'.history.handed = _ from hhands.1]; simp
      have haccounted := h.accounted.same ⟨p',s'.returned⟩ hsame (by
        unfold started
        rw [hboot, hflatten])
      cases result with
      | error e =>
        obtain rfl := Option.some.inj hstep
        refine ⟨haccounted,?_,?_,?_⟩
        · rw [hinits, hboot]
          exact h.boot
        · rw [show p'.history.handed = _ from hhands]
          exact h.returned
        · rw [hboot, show p'.history.handed = _ from hhands]
          exact h.leavesFirst
      | ok r =>
        obtain ⟨handle,starts⟩ := r
        obtain ⟨hhanded,rfl⟩ := hhands
        obtain rfl := Option.some.inj hstep
        refine ⟨haccounted,?_,?_,fun hacyclic => ?_⟩
        · rw [hinits, hboot]
          exact h.boot
        · dsimp only [record] at hhanded ⊢
          rw [hhanded, h.returned]
          simp
        · obtain ⟨hfirst,hrest⟩ := h.leavesFirst hacyclic
          dsimp only at hboot hhanded ⊢
          rw [hboot, hhanded]
          exact ⟨hfirst,leavesFirst_concat hrest .nil⟩
    · obtain ⟨hlinks,horder⟩ := hkept path image hcached hread
      rw [heq] at hstep
      obtain rfl := Option.some.inj hstep
      exact h.target hread hlinks horder rfl

/-- Where the targets link, every start is handed out once, after those it needs. -/
theorem kept_startedOnce (hs : Reach (step host order) Initial (Kept host order) s) :
    StartedOnce host s := by
  have hconsistent : Consistent host s := by
    apply hs.invariant
    · rintro s ⟨hp,hreturned⟩
      refine ⟨⟨⟨[],by simp,by simp [started, hp.history]⟩,?_,?_,?_⟩,?_,?_,fun _ => ?_⟩
      all_goals simp [sources, started, hp.history, hp.inits, hreturned, LeavesFirst]
    · exact fun s call s' h hok hstep => h.step hok hstep
  exact ⟨hconsistent.boot,hconsistent.returned,hconsistent.accounted.entries,
    fun m hm => hconsistent.accounted.count hm,hconsistent.leavesFirst⟩

lemma initial_bare : Initial ⟨bare,[]⟩ := ⟨Process.initial_bare,rfl⟩

lemma namesApart_fooBar : NamesApart fooBar "/g" := by
  intro name hname lib hfind
  have hexists := List.find?_some hfind
  have hnames : fooBar.names = ["foo"] := by decide +kernel
  rw [hnames, List.mem_singleton] at hname
  rw [hname] at hexists
  exact absurd hexists (by decide +kernel)

theorem kept_startedOnce_bar : StartedOnce fooBar
    ⟨(loadStartModule fooBar .inserted bare "/app0/bar.prx").1,[[0x400000,0x404000]]⟩ := by
  have hrecord : record [] (loadStartModule fooBar .inserted bare "/app0/bar.prx").2 =
      [[0x400000,0x404000]] := by decide +kernel
  rw [← hrecord]
  suffices hkept : Kept fooBar .inserted ⟨bare,[]⟩ (.startModule "/app0/bar.prx") by
    have hreach : Reach (step fooBar .inserted) Initial (Kept fooBar .inserted)
        ⟨(loadStartModule fooBar .inserted bare "/app0/bar.prx").1,
          record [] (loadStartModule fooBar .inserted bare "/app0/bar.prx").2⟩ :=
      .step (l := .startModule "/app0/bar.prx") (.start initial_bare) hkept rfl
    exact kept_startedOnce hreach
  intro path image hcached hread
  obtain ⟨rfl,rfl⟩ := read_bar hcached hread
  have hdir : targetDir "/g/bar.prx" = "/g" := by decide +kernel
  exact ⟨.inr ⟨2,by decide +kernel⟩,fun _ => ⟨hdir ▸ namesApart_fooBar,by decide +kernel⟩⟩

/-- A module whose relocation leaves the arena, and one that it needs. -/
def brokenTarget : Host :=
  .ofImages [("/g/lib.prx",needing []),("/g/foo.prx",{ needing ["lib"] with
    relocations := [⟨2^60,.relative,0,none,none⟩] })]

/-- When the target does not link, the starts of what was mapped for it are lost. -/
theorem not_startedOnce_broken : ¬∀ host order s,
    Reach (step host order) Initial (fun _ _ => True) s → StartedOnce host s := by
  intro h
  have hs : Reach (step brokenTarget .inserted) Initial (fun _ _ => True)
      ⟨(loadStartModule brokenTarget .inserted bare "/app0/foo.prx").1,
        record [] (loadStartModule brokenTarget .inserted bare "/app0/foo.prx").2⟩ :=
    .step (l := .startModule "/app0/foo.prx") (.start initial_bare) trivial rfl
  have hcount := (h _ _ _ hs).once ⟨1,"/g/lib.prx","/g",needing []⟩ (by decide +kernel)
  exact absurd hcount (by decide +kernel)

end StartRun

end Unemups4.Loader

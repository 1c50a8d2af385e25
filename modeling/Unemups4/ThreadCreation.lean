import Unemups4.ThreadLocals

/-! The creation of a thread as the guest's call sees it: the stack and the storage are mapped, the
storage is written, the thread goes into the table, and its host thread starts. Nothing takes back
what went before a step that fails. -/
namespace Unemups4.Memory.VmMemoryManager

variable {m : VmMemoryManager} {size base : ℕ} {prot : MemoryProtection} {name : Option String}

/-- A request for any place that goes through. -/
def Gives (m : VmMemoryManager) (size base : ℕ) : Prop :=
  (m.locate 0 size 0).2 = .ok base ∧ (m.staleChunks base size).all fun c => m.vm.accepts c.1 c.2

/-- What it leaves. -/
def mapped (m : VmMemoryManager) (size base : ℕ) (prot : MemoryProtection) (name : Option String) :
    VmMemoryManager :=
  { m.noteEverMapped base (base+size) with
    allocations := insertKey base (region base size prot name) m.allocations
    heapCursor := (m.locate 0 size 0).1
    stores := zeroed (m.staleChunks base size) ++ m.stores }

@[simp] lemma mapped_allocations : (m.mapped size base prot name).allocations =
    insertKey base (region base size prot name) m.allocations := rfl

@[simp] lemma mapped_vm : (m.mapped size base prot name).vm = m.vm := rfl

lemma Gives.located (h : m.Gives size base) : Located m 0 size base :=
  locate_ok (show m.locate 0 size 0 = ((m.locate 0 size 0).1,.ok base) by rw [← h.1])

lemma Gives.unique {base' : ℕ} (h : m.Gives size base) (h' : m.Gives size base') : base = base' :=
  Except.ok.inj (h.1.symm.trans h'.1)

lemma map_gives (prot : MemoryProtection) (name : Option String) (h : m.Gives size base) :
    m.map 0 size prot name = (m.mapped size base prot name,.ok base) := by
  obtain ⟨hlocate,hchunks⟩ := h
  unfold map
  rw [mapAligned_eq, show m.locate 0 size 0 = ((m.locate 0 size 0).1,.ok base) by rw [← hlocate]]
  dsimp only
  rw [place_closed]
  exact if_pos hchunks

lemma map_refuses (prot : MemoryProtection) (name : Option String) (h : ∀ base, ¬m.Gives size base) :
    ∃ e, (m.map 0 size prot name).2 = .error e := by
  unfold map
  rw [mapAligned_eq]
  cases hlocate : m.locate 0 size 0 with
  | mk cursor result =>
    cases result with
    | error e => exact ⟨e,rfl⟩
    | ok base =>
      have hchunks : ¬(m.staleChunks base size).all fun c => m.vm.accepts c.1 c.2 :=
        fun hall => h base ⟨by rw [hlocate],hall⟩
      dsimp only
      rw [place_closed]
      exact ⟨_,congrArg Prod.snd (if_neg hchunks)⟩

end Unemups4.Memory.VmMemoryManager

namespace Unemups4.Kernel
open Memory VmMemoryManager

def genericError : ℕ := 0x80020001

/-- What the guest's call comes to; `starts` tells whether the host thread does. -/
def bridged (starts : Bool) : ThreadManager × VmMemoryManager × Except ThreadError Thread →
    ThreadManager × VmMemoryManager × Except ℕ ℕ
  | (threads,m,.ok thread) => (threads,m,if starts then .ok thread.id else .error genericError)
  | (threads,m,.error _) => (threads,m,.error genericError)

def bridgeCreateThread (starts : Bool) (threads : ThreadManager) (m : VmMemoryManager)
    (tls : Option TlsInfo) (entryPoint arg : ℕ) : ThreadManager × VmMemoryManager × Except ℕ ℕ :=
  bridged starts (createThread threads m tls entryPoint arg)

/-- The tables are as they were when the call fails. -/
def LeavesNothing (threads : ThreadManager) (m : VmMemoryManager)
    (result : ThreadManager × VmMemoryManager × Except ℕ ℕ) : Prop :=
  ∀ e, result.2.2 = .error e →
    result.2.1.allocations = m.allocations ∧ result.1.threads = threads.threads

def readWrite : MemoryProtection := ⟨true,true,false⟩

/-- The size and the alignment of the data of a template, if there is one. -/
def tlsShape (tls : Option TlsInfo) : ℕ × ℕ := tls.elim (0,16) fun t => (t.memSize.toNat,t.align.toNat)

def tlsBlock (tls : Option TlsInfo) : ℕ := allocSize (tlsShape tls).1 (tlsShape tls).2

def tlsAligned (tls : Option TlsInfo) : ℕ := alignedTlsSize (tlsShape tls).1 (tlsShape tls).2

/-- The ranges of a template can be written. -/
def Templated (vm : GuestVm) (base : ℕ) (t : TlsInfo) : Prop :=
  vm.accepts base t.data.length ∧ (0 < t.memSize.toNat-t.data.length →
    vm.accepts (wrap (base+t.data.length)) (t.memSize.toNat-t.data.length))

/-- The writes to the storage at `base` go through. -/
structure Fillable (vm : GuestVm) (base aligned : ℕ) (tls : Option TlsInfo) : Prop where
  template : ∀ t ∈ tls, Templated vm base t
  self : guestBase ≤ wrap (base+aligned) ∧ wrap (base+aligned) < vm.span
  errno : guestBase ≤ wrap (wrap (base+aligned)+tcbSize) ∧ wrap (wrap (base+aligned)+tcbSize) < vm.span

lemma Fillable.iff {vm : GuestVm} {base aligned : ℕ} {tls : Option TlsInfo} :
    Fillable vm base aligned tls ↔ (∀ t ∈ tls, Templated vm base t) ∧
      (guestBase ≤ wrap (base+aligned) ∧ wrap (base+aligned) < vm.span) ∧
      guestBase ≤ wrap (wrap (base+aligned)+tcbSize) ∧
      wrap (wrap (base+aligned)+tcbSize) < vm.span :=
  ⟨fun h => ⟨h.template,h.self,h.errno⟩,fun h => ⟨h.1,h.2.1,h.2.2⟩⟩

def stackName (tid : ℕ) : Option String := some ("Stack_TID_" ++ toString tid)
def storageName (tid : ℕ) : Option String := some ("TLS_TID_" ++ toString tid)

/-- The state between the two requests. -/
def withStack (threads : ThreadManager) (m : VmMemoryManager) (size stackBase : ℕ) : VmMemoryManager :=
  m.mapped size stackBase readWrite (stackName threads.nextTid)

/-- The stack and then the storage are given places, and the storage can be written. -/
def Completes (threads : ThreadManager) (m : VmMemoryManager) (size : ℕ) (tls : Option TlsInfo) : Prop :=
  ∃ stackBase base, m.Gives size stackBase ∧
    (withStack threads m size stackBase).Gives (tlsBlock tls) base ∧
    Fillable m.vm base (tlsAligned tls) tls

section Spec

variable {m : VmMemoryManager} {threads : ThreadManager} {tls : Option TlsInfo}
  {base aligned stackBase : ℕ}

/-- Nothing but what is stored may differ. -/
structure SameTable (m m' : VmMemoryManager) : Prop where
  allocations : m'.allocations = m.allocations
  vm : m'.vm = m.vm

lemma SameTable.refl (m : VmMemoryManager) : SameTable m m := ⟨rfl,rfl⟩

lemma SameTable.trans {m₁ m₂ m₃ : VmMemoryManager} (h : SameTable m₁ m₂) (h' : SameTable m₂ m₃) :
    SameTable m₁ m₃ := ⟨h'.allocations.trans h.allocations,h'.vm.trans h.vm⟩

/-- A step that leaves the table alone, and goes through if and only if `goes` holds. -/
structure Writes {α : Type} (m : VmMemoryManager) (goes : Prop)
    (result : VmMemoryManager × Except ThreadError α) : Prop where
  same : SameTable m result.1
  ok_iff : (∃ v, result.2 = .ok v) ↔ goes

/-- One step after the other. -/
lemma Writes.andThen {α β : Type} {goes goes' : Prop} {first : VmMemoryManager × Except ThreadError α}
    {result : VmMemoryManager × Except ThreadError β} (h : Writes m goes first)
    (hfail : ∀ m' e, first = (m',.error e) → result = (m',.error e))
    (hgo : ∀ m' v, first = (m',.ok v) → SameTable m m' → Writes m' goes' result) :
    Writes m (goes ∧ goes') result := by
  obtain ⟨m₁,outcome⟩ := first
  cases outcome with
  | error e =>
    obtain rfl := hfail m₁ e rfl
    have hnot : ¬goes := fun hgoes => by simpa using h.ok_iff.mpr hgoes
    exact ⟨h.same,by simp [hnot]⟩
  | ok v =>
    have hgoes : goes := h.ok_iff.mp ⟨v,rfl⟩
    have hrest := hgo m₁ v rfl h.same
    exact ⟨h.same.trans hrest.same,by simp [hrest.ok_iff,hgoes]⟩

lemma writes_done {α : Type} (m : VmMemoryManager) (v : α) : Writes m True (m,.ok v) :=
  ⟨.refl m,by simp⟩

lemma put_writes (m : VmMemoryManager) (s : Store) (goes : Bool) (text : String) :
    Writes m goes (put m s goes text) := by
  cases goes with
  | true => exact ⟨⟨rfl,rfl⟩,by simp [put]⟩
  | false => exact ⟨⟨rfl,rfl⟩,by simp [put]⟩

lemma putWord_writes (m : VmMemoryManager) (addr value : ℕ) (text : String) :
    Writes m (guestBase ≤ addr ∧ addr < m.vm.span) (putWord m addr value text) := by
  have h := put_writes m (.write addr (Loader.wordBytes value)) (guestBase ≤ addr ∧ addr < m.vm.span)
    (text ++ "Segmentation Fault (write<T>)")
  rwa [decide_eq_true_eq] at h

lemma fillTemplate_writes (m : VmMemoryManager) (base : ℕ) (t : TlsInfo) :
    Writes m (Templated m.vm base t) (fillTemplate m base t) := by
  have hdata := put_writes m (.write base t.data) (m.vm.accepts base t.data.length)
    "TLS Write failed: guest write_bytes failed"
  refine hdata.andThen (fun m₁ e h => ?_) fun m₁ v h hsame => ?_
  · rw [fillTemplate,h]
  · rw [fillTemplate,h]
    dsimp only
    rw [← hsame.vm]
    split_ifs with hzeroes
    · simpa [hzeroes] using put_writes m₁ (.zero (wrap (base+t.data.length))
        (t.memSize.toNat-t.data.length)) _ _
    · simpa [hzeroes] using writes_done m₁ ()

/-- So do the writes of the whole storage. -/
lemma fillBlock_writes (m : VmMemoryManager) (base aligned : ℕ) (tls : Option TlsInfo) :
    Writes m (Fillable m.vm base aligned tls) (fillBlock m base aligned tls) := by
  have htemplate : Writes m (∀ t ∈ tls, Templated m.vm base t)
      (tls.elim (m,.ok ()) (fillTemplate m base)) := by
    cases tls with
    | none => simpa using writes_done m ()
    | some t => simpa using fillTemplate_writes m base t
  rw [Fillable.iff]
  refine htemplate.andThen (fun m₁ e h => ?_) fun m₁ v h hsame => ?_
  · rw [fillBlock,h]
  · rw [fillBlock,h,← hsame.vm]
    dsimp only
    have hself := putWord_writes m₁ (wrap (base+aligned)) (wrap (base+aligned)) "TCB Init failed: "
    refine hself.andThen (fun m₂ e h => ?_) fun m₂ v h hsame => ?_
    · rw [h]
    · rw [h,← hsame.vm]
      dsimp only
      have herrno := putWord_writes m₂ (wrap (wrap (base+aligned)+tcbSize)) 0
        "errno slot init failed: "
      rw [← and_true (guestBase ≤ wrap (wrap (base+aligned)+tcbSize) ∧ _)]
      refine herrno.andThen (fun m₃ e h => ?_) fun m₃ v h _ => ?_
      · rw [h]
      · rw [h]
        exact writes_done m₃ _

/-- The region of a request that goes through is new. -/
lemma not_mem_of_gives {size : ℕ} (prot : MemoryProtection) (name : Option String)
    (h : m.Gives size base) : (base,region base size prot name) ∉ m.allocations := by
  intro hmem
  have hpos := h.located.pos
  have hapart := h.located.apart hmem
  simp only [region] at hapart
  omega

/-- What a request is given does not start where a region does. -/
lemma gives_apart {m₁ : VmMemoryManager} {size block start : ℕ} {prot : MemoryProtection}
    {name : Option String} (h : m₁.Gives block base) (h' : m.Gives size start)
    (hmem : (start,region start size prot name) ∈ m₁.allocations) : start ≠ base := by
  have hpos := h'.located.pos
  have hpos' := h.located.pos
  have hapart := h.located.apart hmem
  simp only [region] at hapart
  omega

lemma mapped_ne {size : ℕ} {prot : MemoryProtection} {name : Option String} (h : m.Gives size base) :
    (m.mapped size base prot name).allocations ≠ m.allocations := by
  intro hsame
  refine not_mem_of_gives prot name h ?_
  rw [← hsame,mapped_allocations]
  exact mem_insertKey.mpr (.inl rfl)

variable {entryPoint arg : ℕ}

lemma map_error {size : ℕ} (prot : MemoryProtection) (name : Option String)
    (h : ∀ base, ¬m.Gives size base) :
    ∃ m' e, m.map 0 size prot name = (m',.error e) ∧ m'.allocations = m.allocations := by
  obtain ⟨e,he⟩ := map_refuses prot name h
  obtain ⟨e',he',hrefuses⟩ | ⟨b,hb,-⟩ := mapAligned_cases m 0 size 0 prot name
  · exact ⟨_,e',pair_eq he',hrefuses.allocations⟩
  · exact absurd (he.symm.trans hb) (by simp)

lemma mapBlocks_eq (tid size block : ℕ) : mapBlocks m tid size block =
    match m.map 0 size readWrite (stackName tid) with
    | (m,.error e) => (m,.error e)
    | (m,.ok stackBase) =>
        match m.map 0 block readWrite (storageName tid) with
        | (m,.error e) => (m,.error e)
        | (m,.ok base) => (m,.ok (stackBase,base)) := rfl

def nextThread (threads : ThreadManager) : ThreadManager :=
  { threads with nextTid := (threads.nextTid+1) % 2^32 }

lemma createThreadWith_eq (size : ℕ) : createThreadWith size threads m tls entryPoint arg =
    match mapBlocks m threads.nextTid size (tlsBlock tls) with
    | (m,.error e) => (nextThread threads,m,.error (.map e))
    | (m,.ok (stackBase,base)) =>
        match fillBlock m base (tlsAligned tls) tls with
        | (m,.error e) => (nextThread threads,m,.error e)
        | (m,.ok (fsBase,errnoBase)) =>
            let thread : Thread := ⟨threads.nextTid,stackBase,size,fsBase,errnoBase,entryPoint,arg,
              threads.nextTid = 1,"Thread-" ++ toString threads.nextTid⟩
            ({ nextThread threads with threads := insertKey threads.nextTid thread threads.threads },m,
              .ok thread) := by
  -- Kept apart from what they stand for, so that no comparison below opens the two steps.
  obtain ⟨blocks,hblocks⟩ : ∃ f, mapBlocks m = f := ⟨_,rfl⟩
  obtain ⟨fill,hfill⟩ : ∃ f, fillBlock = f := ⟨_,rfl⟩
  obtain ⟨shape,hshape⟩ : ∃ s, tls.elim (0,16) (fun t => (t.memSize.toNat,t.align.toNat)) = s :=
    ⟨_,rfl⟩
  unfold createThreadWith
  rw [hblocks,hfill]
  unfold tlsBlock tlsAligned tlsShape
  rw [hshape]
  obtain ⟨length,align⟩ := shape
  rfl

/-- A request that goes through after another leaves the region of both. -/
lemma storage_ne {size block : ℕ} (h : m.Gives size stackBase)
    (h' : (withStack threads m size stackBase).Gives block base) :
    ((withStack threads m size stackBase).mapped block base readWrite
      (storageName threads.nextTid)).allocations ≠ m.allocations := by
  intro hsame
  have hstack : (stackBase,region stackBase size readWrite (stackName threads.nextTid)) ∈
      (withStack threads m size stackBase).allocations := by
    rw [withStack,mapped_allocations]
    exact mem_insertKey.mpr (.inl rfl)
  refine not_mem_of_gives readWrite (stackName threads.nextTid) h ?_
  rw [← hsame,mapped_allocations]
  exact mem_insertKey.mpr (.inr ⟨hstack,gives_apart h' h hstack⟩)

/-- A creation fails with nothing mapped, or changes the table and then ends as its steps do. -/
lemma createThreadWith_cases (threads : ThreadManager) (m : VmMemoryManager) (size : ℕ)
    (tls : Option TlsInfo) (entryPoint arg : ℕ) :
    ((∀ base, ¬m.Gives size base) ∧ ∃ m' e, m'.allocations = m.allocations ∧
      createThreadWith size threads m tls entryPoint arg = (nextThread threads,m',.error e)) ∨
    ((∃ base, m.Gives size base) ∧ ∃ threads' m' result, m'.allocations ≠ m.allocations ∧
      createThreadWith size threads m tls entryPoint arg = (threads',m',result) ∧
      ((∃ thread, result = .ok thread) ↔ Completes threads m size tls)) := by
  rw [createThreadWith_eq,mapBlocks_eq]
  by_cases hstack : ∃ base, m.Gives size base
  · right
    refine ⟨hstack,?_⟩
    obtain ⟨stackBase,hstack⟩ := hstack
    rw [map_gives _ _ hstack]
    dsimp only
    by_cases hblock : ∃ base, (withStack threads m size stackBase).Gives (tlsBlock tls) base
    · obtain ⟨base,hblock⟩ := hblock
      have hne := storage_ne hstack hblock
      have hmap := map_gives readWrite (storageName threads.nextTid) hblock
      rw [withStack] at hmap
      rw [hmap]
      dsimp only
      have hiff : Completes threads m size tls ↔ Fillable m.vm base (tlsAligned tls) tls := by
        constructor
        · rintro ⟨stackBase',base',hstack',hblock',hfill⟩
          rw [hstack'.unique hstack] at hblock'
          rwa [hblock'.unique hblock] at hfill
        · exact fun hfill => ⟨stackBase,base,hstack,hblock,hfill⟩
      have hwrites := fillBlock_writes ((m.mapped size stackBase readWrite
        (stackName threads.nextTid)).mapped (tlsBlock tls) base readWrite
        (storageName threads.nextTid)) base (tlsAligned tls) tls
      rw [hiff]
      generalize fillBlock _ base (tlsAligned tls) tls = filled at hwrites ⊢
      obtain ⟨m',outcome⟩ := filled
      have hchanged : m'.allocations ≠ m.allocations := hwrites.same.allocations ▸ hne
      cases outcome with
      | error e =>
        refine ⟨_,m',_,hchanged,rfl,?_⟩
        simpa using hwrites.ok_iff
      | ok bases =>
        refine ⟨_,m',_,hchanged,rfl,?_⟩
        simpa using hwrites.ok_iff
    · obtain ⟨m',e,hmap,hsame⟩ := map_error readWrite (storageName threads.nextTid)
        (not_exists.mp hblock)
      rw [withStack] at hmap
      rw [hmap]
      refine ⟨_,m',_,hsame ▸ mapped_ne hstack,rfl,?_⟩
      have hnot : ¬Completes threads m size tls := by
        rintro ⟨stackBase',base,hstack',hgives,-⟩
        rw [hstack'.unique hstack] at hgives
        exact hblock ⟨base,hgives⟩
      simp [hnot]
  · left
    obtain ⟨m',e,hmap,hsame⟩ := map_error readWrite (stackName threads.nextTid)
      (not_exists.mp hstack)
    rw [hmap]
    exact ⟨not_exists.mp hstack,m',_,hsame,rfl⟩

end Spec

lemma leavesNothing_cases (starts : Bool) (size : ℕ) {threads : ThreadManager} {m : VmMemoryManager}
    {tls : Option TlsInfo} {entryPoint arg : ℕ} : LeavesNothing threads m
      (bridged starts (createThreadWith size threads m tls entryPoint arg)) ↔
      (∀ base, ¬m.Gives size base) ∨ Completes threads m size tls ∧ starts := by
  obtain ⟨hnone,m',e,hsame,heq⟩ | ⟨hstack,threads',m',result,hne,heq,hiff⟩ :=
    createThreadWith_cases threads m size tls entryPoint arg
  · rw [heq]
    have hleft : LeavesNothing threads m (bridged starts (nextThread threads,m',.error e)) :=
      fun _ _ => ⟨hsame,rfl⟩
    simpa [hnone] using hleft
  · rw [heq]
    have hplace : ¬∀ base, ¬m.Gives size base := by simpa using hstack
    have hfails : ¬LeavesNothing threads m (threads',m',.error genericError) :=
      fun h => hne (h _ rfl).1
    cases result with
    | error e =>
      have hnot : ¬Completes threads m size tls := fun h => by simpa using hiff.mpr h
      simpa [bridged,hplace,hnot] using hfails
    | ok thread =>
      have hdone : Completes threads m size tls := hiff.mp ⟨thread,rfl⟩
      cases starts with
      | true =>
        have hok : LeavesNothing threads m (threads',m',.ok thread.id) := fun e h => by cases h
        simpa [bridged,hplace,hdone] using hok
      | false => simpa [bridged,hplace,hdone] using hfails

/-- The tables are as they were behind each failure if and only if there is no place for the stack, or
every step goes through and the host thread starts. -/
theorem createThread_leavesNothing_iff (starts : Bool) (threads : ThreadManager) (m : VmMemoryManager)
    (tls : Option TlsInfo) (entryPoint arg : ℕ) :
    LeavesNothing threads m (bridgeCreateThread starts threads m tls entryPoint arg) ↔
      (∀ base, ¬m.Gives stackSize base) ∨ Completes threads m stackSize tls ∧ starts :=
  leavesNothing_cases starts stackSize

/-- A template that is larger than the arena leaves the stack of a thread that never is. -/
theorem createThread_leaves_stack : ¬∀ (starts : Bool) (threads : ThreadManager) (m : VmMemoryManager)
    (tls : Option TlsInfo) (entryPoint arg : ℕ),
    LeavesNothing threads m (bridgeCreateThread starts threads m tls entryPoint arg) := by
  intro h
  let t : TlsInfo := ⟨[],2^40,16⟩
  have hfails : (bridgeCreateThread true ⟨[],1⟩ (new TableRun.defaultVm) (some t) 0x400000 0).2.2 =
      .error genericError := by decide +kernel
  have htable : (bridgeCreateThread true ⟨[],1⟩ (new TableRun.defaultVm) (some t)
      0x400000 0).2.1.allocations.length = 2 := by decide +kernel
  have hsame := (h true ⟨[],1⟩ (new TableRun.defaultVm) (some t) 0x400000 0 _ hfails).1
  rw [hsame] at htable
  exact absurd htable (by decide)

end Unemups4.Kernel

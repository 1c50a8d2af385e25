import Unemups4.ImageContents

/-! Which protection the pages of an image are left with. A segment is mapped writable, page by page
around the pages that are taken; its protection comes back on the region that has exactly its span. -/
namespace Unemups4.Memory
open Transition (Reach)
open VmMemoryManager

/-- The size of a region is that of its range. -/
def Sized (m : VmMemoryManager) : Prop :=
  ∀ entry ∈ m.allocations, entry.2.stop = entry.2.start+entry.2.size

lemma Sized.mapAligned {m : VmMemoryManager} (h : Sized m) (addr size align : ℕ) (prot : MemoryProtection)
    (name : Option String) : Sized (m.mapAligned addr size align prot name).1 := by
  intro entry he
  rcases mapAligned_cases m addr size align prot name with ⟨e,-,hrefuses⟩ | ⟨base,-,hlands⟩
  · rw [hrefuses.allocations] at he
    exact h entry he
  · rw [hlands.allocations] at he
    rcases mem_insertKey.mp he with rfl | ⟨he,-⟩
    · rfl
    · exact h entry he

lemma Sized.protect {m : VmMemoryManager} (h : Sized m) (addr size : ℕ) (prot : MemoryProtection) :
    Sized (m.protect addr size prot) := by
  intro entry he
  obtain ⟨old,hold,rfl⟩ := List.mem_map.mp he
  have hsize := h old hold
  dsimp only
  split_ifs <;> exact hsize

lemma TableRun.reach_sized {vm : GuestVm} {s : TableRun}
    (hs : Reach step (Initial vm) (fun _ _ => True) s) : Sized s.manager := by
  apply hs.invariant
  · rintro s rfl entry he
    obtain rfl := List.mem_singleton.mp he
    rfl
  · intro s call s' h _ hstep
    cases call with
    | map addr size prot name =>
      obtain rfl := Option.some.inj hstep
      rw [mapped_manager]
      exact Sized.mapAligned h addr size 0 prot name
    | mapAligned addr size align prot name =>
      obtain rfl := Option.some.inj hstep
      rw [mapped_manager]
      exact Sized.mapAligned h addr size align prot name
    | unmap addr size =>
      obtain rfl := Option.some.inj hstep
      dsimp only [VmMemoryManager.unmap]
      split_ifs
      · exact h
      · exact fun entry he => h entry (List.mem_filter.mp he).1
    | protect addr size prot =>
      obtain rfl := Option.some.inj hstep
      exact Sized.protect h addr size prot

end Unemups4.Memory

namespace Unemups4.Loader
open Memory VmMemoryManager Words
open Transition (Reach)

instance (base : ℕ) (seg : LoadableSegment) (start stop : ℕ) : Decidable (Spans base seg start stop) :=
  inferInstanceAs (Decidable (_ = _))

/-- A page meets a segment when it is one of those that the segment takes. -/
def LoadableSegment.Occupies (base : ℕ) (seg : LoadableSegment) (q : ℕ) : Prop :=
  ∃ start stop, Spans base seg start stop ∧ start ≤ q ∧ q < stop

/-- Every byte of the page lies in a region with the protection. -/
def Protected (m : VmMemoryManager) (p : ℕ) (prot : MemoryProtection) : Prop :=
  ∀ a, p ≤ a → a < p+page → ∃ entry ∈ m.allocations,
    entry.2.start ≤ a ∧ a < entry.2.stop ∧ entry.2.protection = prot

/-- The region is exactly the segment's span, which is given its protection unless that is to read and
to write. -/
def LoadableSegment.Restores (base : ℕ) (seg : LoadableSegment) (entry : ℕ × MemoryVma) : Prop :=
  seg.protection ≠ ⟨true,true,false⟩ ∧ Spans base seg entry.2.start entry.2.stop

/-- What is asked of a page that only one segment meets, `pre` before it. A page that was free keeps
the permission to write unless the segment could be mapped as a whole; one that was taken has the
protection of the regions from before. -/
def Restored (m : VmMemoryManager) (base : ℕ) (pre : List LoadableSegment) (seg : LoadableSegment)
    (p : ℕ) : Prop :=
  FreePage m p ∧ (seg.protection.write = true ∨ ∀ q, page ∣ q → seg.Occupies base q →
    FreePage m q ∧ ∀ other ∈ pre, ¬other.Occupies base q) ∨
  ¬FreePage m p ∧ ∀ a, p ≤ a → a < p+page → ∃ entry ∈ m.allocations,
    entry.2.start ≤ a ∧ a < entry.2.stop ∧
      (entry.2.protection = seg.protection ∨ seg.Restores base entry)

/-- What may happen between the mapping of a module and its relocation: the module stays registered,
and the regions on the page stay what they are. -/
structure LoadState.Keeps (st st' : LoadState) (handle p : ℕ) : Prop where
  registered : st'.manager.getModule handle = st.manager.getModule handle
  regions : ∀ entry : ℕ × MemoryVma, ¬(entry.2.stop ≤ p ∨ p+page ≤ entry.2.start) →
    (entry ∈ st'.memory.allocations ↔ entry ∈ st.memory.allocations)

section Restore

/-- What a region becomes when the protection of a segment comes back. -/
def LoadableSegment.restore (base : ℕ) (seg : LoadableSegment) (entry : ℕ × MemoryVma) :
    ℕ × MemoryVma :=
  if seg.protection ≠ ⟨true,true,false⟩ ∧ Spans base seg entry.1 (entry.1+entry.2.size) then
    (entry.1,{ entry.2 with protection := seg.protection }) else entry

variable {m : VmMemoryManager} {base p : ℕ} {seg : LoadableSegment} {entry : ℕ × MemoryVma}
  {segs pre post : List LoadableSegment}

@[simp] lemma restore_key : (seg.restore base entry).1 = entry.1 := by
  unfold LoadableSegment.restore
  split_ifs <;> rfl

@[simp] lemma restore_start : (seg.restore base entry).2.start = entry.2.start := by
  unfold LoadableSegment.restore
  split_ifs <;> rfl

@[simp] lemma restore_stop : (seg.restore base entry).2.stop = entry.2.stop := by
  unfold LoadableSegment.restore
  split_ifs <;> rfl

@[simp] lemma restore_size : (seg.restore base entry).2.size = entry.2.size := by
  unfold LoadableSegment.restore
  split_ifs <;> rfl

lemma protectSegment_allocations (base : ℕ) (m : VmMemoryManager) (seg : LoadableSegment) :
    (protectSegment base m seg).allocations = m.allocations.map (seg.restore base) := by
  have hnone : (∀ start stop, seg.protection ≠ ⟨true,true,false⟩ → ¬Spans base seg start stop) →
      m.allocations = m.allocations.map (seg.restore base) := by
    intro hspan
    have hself : seg.restore base = id := funext fun entry => if_neg fun h => hspan _ _ h.1 h.2
    rw [hself, List.map_id]
  unfold protectSegment
  split
  · rename_i hword
    refine hnone fun start stop _ hspan => ?_
    unfold Spans segmentSpan at hspan
    split_ifs at hspan
    omega
  · split
    · rename_i hempty
      refine hnone fun start stop _ hspan => ?_
      rw [Spans, hempty] at hspan
      cases hspan
    · rename_i start stop hspan
      split_ifs with hprot
      · exact hnone fun _ _ hne => absurd hprot hne
      · obtain ⟨-,-,-,hle,-⟩ := segmentSpan_eq hspan
        refine List.map_congr_left fun entry _ => ?_
        have hiff : (seg.protection ≠ ⟨true,true,false⟩ ∧ Spans base seg entry.1 (entry.1+entry.2.size)) ↔
            entry.1 = start ∧ entry.2.size = stop-start := by
          unfold Spans
          rw [hspan, and_iff_right hprot, Option.some.injEq, Prod.mk.injEq]
          omega
        simp only [LoadableSegment.restore, hiff]

/-- The protections come back segment after segment. -/
lemma foldl_protectSegment (base : ℕ) (m : VmMemoryManager) (segs : List LoadableSegment) :
    (segs.foldl (protectSegment base) m).allocations =
      m.allocations.map fun entry => segs.foldl (fun e seg => seg.restore base e) entry := by
  induction segs generalizing m with
  | nil => simp
  | cons seg segs ih => simp [ih, protectSegment_allocations]

lemma foldl_restore_range (base : ℕ) (segs : List LoadableSegment) (entry : ℕ × MemoryVma) :
    (segs.foldl (fun e seg => seg.restore base e) entry).2.start = entry.2.start ∧
      (segs.foldl (fun e seg => seg.restore base e) entry).2.stop = entry.2.stop := by
  induction segs generalizing entry with
  | nil => simp
  | cons seg segs ih => simp [ih]

lemma foldl_restore_eq_self (h : ∀ seg ∈ segs, seg.restore base entry = entry) :
    segs.foldl (fun e seg => seg.restore base e) entry = entry := by
  induction segs with
  | nil => rfl
  | cons seg segs ih =>
    obtain ⟨hseg,hsegs⟩ := List.forall_mem_cons.mp h
    rw [List.foldl_cons, hseg]
    exact ih hsegs

/-- A segment that a page does not meet leaves the regions on it. -/
lemma restore_eq_self (hkey : entry.1 = entry.2.start) (hsize : entry.2.stop = entry.2.start+entry.2.size)
    (hp : page ∣ p) (hmeets : ¬(entry.2.stop ≤ p ∨ p+page ≤ entry.2.start))
    (hnone : ¬seg.Occupies base p) : seg.restore base entry = entry := by
  refine if_neg ?_
  rintro ⟨-,hspan⟩
  rw [hkey, ← hsize] at hspan
  obtain ⟨hstart,hstop,-⟩ := segmentSpan_eq hspan
  have hwhole := whole_of_meets hstart hstop hp hmeets
  exact hnone ⟨_,_,hspan,hwhole.1,not_le.mp fun hcon => hmeets (.inl hcon)⟩

/-- On a page that only one segment meets it is this one that counts. -/
lemma foldl_restore (hkey : entry.1 = entry.2.start) (hsize : entry.2.stop = entry.2.start+entry.2.size)
    (hp : page ∣ p) (hmeets : ¬(entry.2.stop ≤ p ∨ p+page ≤ entry.2.start))
    (halone : ∀ other ∈ pre++post, ¬other.Occupies base p) :
    (pre++seg :: post).foldl (fun e seg => seg.restore base e) entry = seg.restore base entry := by
  have hpre : ∀ other ∈ pre, other.restore base entry = entry := fun other hother =>
    restore_eq_self hkey hsize hp hmeets (halone other (List.mem_append_left _ hother))
  have hpost : ∀ other ∈ post, other.restore base (seg.restore base entry) = seg.restore base entry := by
    intro other hother
    refine restore_eq_self ?_ ?_ hp ?_ (halone other (List.mem_append_right _ hother))
    · simpa using hkey
    · simpa using hsize
    · simpa using hmeets
  rw [List.foldl_append, foldl_restore_eq_self hpre, List.foldl_cons, foldl_restore_eq_self hpost]

lemma restore_protection_iff (hkey : entry.1 = entry.2.start)
    (hsize : entry.2.stop = entry.2.start+entry.2.size) :
    (seg.restore base entry).2.protection = seg.protection ↔
      entry.2.protection = seg.protection ∨ seg.Restores base entry := by
  unfold LoadableSegment.restore LoadableSegment.Restores
  rw [hkey, ← hsize]
  split_ifs with h
  · simp [h]
  · simp [h]

end Restore

section Relocate

variable {m m' : VmMemoryManager} {linker linker' : LinkerState} {resolve : String → Option ℕ}
  {base handle p : ℕ} {r : Relocation} {rs : List Relocation}

lemma writeBytes_allocations (m : VmMemoryManager) (addr : ℕ) (data : List UInt8) :
    (writeBytes m addr data).1.allocations = m.allocations := by
  unfold writeBytes
  split_ifs <;> rfl

lemma allocMissingStub_allocations (m : VmMemoryManager) (linker : LinkerState) :
    (allocMissingStub m linker).1.allocations = m.allocations := by
  unfold allocMissingStub
  split_ifs
  · rfl
  · rfl
  · have hcode := writeBytes_allocations m (linker.stubsBase+linker.stubsCursor)
      (stubCode (0xC0000000 ||| linker.missing))
    dsimp only
    split
    all_goals
      rename_i hwrite
      rwa [hwrite] at hcode

lemma writeSlot_allocations (base handle value : ℕ) (m : VmMemoryManager) (linker : LinkerState)
    (r : Relocation) (stub : Bool) :
    (writeSlot base handle m linker r value stub).1.allocations = m.allocations := by
  unfold writeSlot writeWord
  split_ifs <;> rfl

lemma applyRelocation_allocations (resolve : String → Option ℕ) (base handle : ℕ) (m : VmMemoryManager)
    (linker : LinkerState) (r : Relocation) :
    (applyRelocation resolve base handle m linker r).1.allocations = m.allocations := by
  unfold applyRelocation
  split
  · rfl
  · exact writeSlot_allocations ..
  · have hstub := allocMissingStub_allocations m linker
    split
    all_goals
      rename_i halloc
      rw [halloc] at hstub
    · exact hstub
    · rw [writeSlot_allocations]
      exact hstub

/-- Relocations write to memory only. -/
lemma applyRelocations_allocations
    (h : applyRelocations resolve base handle m linker rs = (m',linker',.ok ())) :
    m'.allocations = m.allocations := by
  induction rs generalizing m linker with
  | nil =>
    obtain ⟨rfl,-⟩ := Prod.mk.inj h
    rfl
  | cons r rs ih =>
    have hone := applyRelocation_allocations resolve base handle m linker r
    rw [applyRelocations] at h
    split at h
    · cases h
    · rename_i hfirst
      rw [hfirst] at hone
      exact (ih h).trans hone

end Relocate

section Pages

variable {m m₁ m₂ m' : VmMemoryManager} {base p : ℕ} {name : String} {seg : LoadableSegment}
  {segs pre post : List LoadableSegment} {entry : ℕ × MemoryVma}

/-- A region on a page that no segment meets is one from before. -/
lemma SegmentsMapped.mem_of_meets (h : SegmentsMapped base name m m' segs)
    (hbased : ∀ seg ∈ segs, Based base seg) (hp : page ∣ p)
    (hnone : ∀ seg ∈ segs, ¬seg.Occupies base p) (he : entry ∈ m'.allocations)
    (hmeets : ¬(entry.2.stop ≤ p ∨ p+page ≤ entry.2.start)) : entry ∈ m.allocations := by
  rcases h.fresh entry he with he | ⟨seg,hseg,start,stop,lo,hi,hspan,hfresh,hin⟩
  · exact he
  · rw [hfresh.start_eq, hfresh.stop_eq] at hmeets
    have hwhole := whole_of_meets hfresh.lo_dvd hfresh.hi_dvd hp hmeets
    have hplace := (hbased seg hseg).span hspan
    refine absurd ⟨start,stop,hspan,?_,?_⟩ (hnone seg hseg)
    · omega
    · omega

/-- The pages that are free once segments are mapped. -/
lemma SegmentsMapped.freePage_iff (h : SegmentsMapped base name m m' segs)
    (hbased : ∀ seg ∈ segs, Based base seg) (hp : page ∣ p) :
    FreePage m' p ↔ FreePage m p ∧ ∀ seg ∈ segs, ¬seg.Occupies base p := by
  constructor
  · intro hfree
    refine ⟨hfree.of_kept h.kept,?_⟩
    rintro seg hseg ⟨start,stop,hspan,hlo,hhi⟩
    have hplace := (hbased seg hseg).span hspan
    exact h.covered seg hseg start stop hspan (by omega) p hp hlo hhi hfree
  · rintro ⟨hfree,hnone⟩ entry he
    by_contra hmeets
    exact hmeets (hfree entry (h.mem_of_meets hbased hp hnone he hmeets))

lemma SegmentsMapped.sized (h : SegmentsMapped base name m m' segs) (hm : Sized m) : Sized m' := by
  intro entry he
  rcases h.fresh entry he with he | ⟨seg,-,start,stop,lo,hi,-,hfresh,-⟩
  · exact hm entry he
  · rw [hfresh.entry_eq]
    rfl

lemma Spans.occupies_iff {start stop : ℕ} (h : Spans base seg start stop) :
    seg.Occupies base p ↔ start ≤ p ∧ p < stop := by
  constructor
  · rintro ⟨start',stop',h',hin⟩
    obtain ⟨rfl,rfl⟩ := Prod.mk.inj (Option.some.inj (h'.symm.trans h))
    exact hin
  · exact fun hin => ⟨start,stop,h,hin⟩

/-- A segment none of whose pages was taken is mapped in one region. -/
lemma mapSegment_whole (hm : Laid m) (hbased : Based base seg) (hp : page ∣ p)
    (h : mapSegment base name m seg = (m',.ok ())) (hin : seg.Occupies base p)
    (hfree : ∀ q, page ∣ q → seg.Occupies base q → FreePage m q) :
    ∃ entry ∈ m'.allocations, Spans base seg entry.2.start entry.2.stop ∧
      entry.2.start ≤ p ∧ p+page ≤ entry.2.stop := by
  obtain ⟨start,stop,hspan,hlo,hhi⟩ := hin
  obtain ⟨_,_,m₁,hspan',hpages,hfill,-⟩ := mapSegment_ok hm h
  obtain ⟨rfl,rfl⟩ := Prod.mk.inj (Option.some.inj (hspan'.symm.trans hspan))
  obtain ⟨hstart,hstop,-,hle,-,hword⟩ := segmentSpan_eq hspan
  have hplace := hbased.span hspan
  have hwhole := mapFreePages_whole hm hstop hword hstart (by omega) (by omega) hspan.fuel
    (fun q hq hge hlt => hfree q hq ⟨_,_,hspan,hge,hlt⟩) hpages
  rw [← (fillSegment_allocations hfill).1] at hwhole
  refine ⟨_,hwhole,?_,hlo,?_⟩
  · unfold region
    dsimp only
    rwa [Nat.add_sub_cancel' hle]
  · have hend := add_le_of_dvd_of_lt hp hstop hhi
    exact hend.trans_eq (Nat.add_sub_cancel' hle).symm

/-- The mapping of segments in a row, looked at from one of them. -/
structure MappedAround (base : ℕ) (name : String) (m m₁ m₂ m' : VmMemoryManager)
    (pre : List LoadableSegment) (seg : LoadableSegment) (post : List LoadableSegment) : Prop where
  before : SegmentsMapped base name m m₁ pre
  own : mapSegment base name m₁ seg = (m₂,.ok ())
  after : SegmentsMapped base name m₂ m' post
  based : ∀ other ∈ pre++seg :: post, Based base other

namespace MappedAround

lemma basedBefore (h : MappedAround base name m m₁ m₂ m' pre seg post) : ∀ other ∈ pre, Based base other :=
  fun other hother => h.based other (by simp [hother])

lemma basedOwn (h : MappedAround base name m m₁ m₂ m' pre seg post) : Based base seg :=
  h.based seg (by simp)

lemma kept (h : MappedAround base name m m₁ m₂ m' pre seg post) (he : entry ∈ m.allocations) :
    entry ∈ m'.allocations :=
  h.after.kept entry ((mapSegment_mapped h.before.laid h.own).kept entry (h.before.kept entry he))

/-- The regions on a page that no other segment meets: those from before, or a new one of this
segment. -/
lemma mem_or_fresh (h : MappedAround base name m m₁ m₂ m' pre seg post) (hp : page ∣ p)
    (halone : ∀ other ∈ pre++post, ¬other.Occupies base p) (he : entry ∈ m'.allocations)
    (hmeets : ¬(entry.2.stop ≤ p ∨ p+page ≤ entry.2.start)) : entry ∈ m.allocations ∨
      ∃ lo hi, FreshRegion m₁ { seg.protection with write := true } name lo hi entry := by
  have hafter := h.after.mem_of_meets (fun other hother => h.based other (by simp [hother])) hp
    (fun other hother => halone other (by simp [hother])) he hmeets
  rcases (mapSegment_mapped h.before.laid h.own).fresh entry hafter with
    hold | ⟨other,hother,_,_,lo,hi,-,hfresh,-⟩
  · exact .inl (h.before.mem_of_meets h.basedBefore hp
      (fun other hother => halone other (by simp [hother])) hold hmeets)
  · obtain rfl := List.mem_singleton.mp hother
    exact .inr ⟨lo,hi,hfresh⟩

/-- If regions met it before, it keeps those. -/
lemma mem_of_taken (h : MappedAround base name m m₁ m₂ m' pre seg post) (hp : page ∣ p)
    (halone : ∀ other ∈ pre++post, ¬other.Occupies base p) (htaken : ¬FreePage m p)
    (he : entry ∈ m'.allocations) (hmeets : ¬(entry.2.stop ≤ p ∨ p+page ≤ entry.2.start)) :
    entry ∈ m.allocations := by
  refine (h.mem_or_fresh hp halone he hmeets).resolve_right ?_
  rintro ⟨lo,hi,hfresh⟩
  refine htaken fun old hold => ?_
  have hapart := hfresh.apart old (h.before.kept old hold)
  rw [hfresh.start_eq, hfresh.stop_eq] at hmeets
  have hwhole := whole_of_meets hfresh.lo_dvd hfresh.hi_dvd hp hmeets
  omega

/-- If none did, it lies in a new one. -/
lemma fresh_of_free (h : MappedAround base name m m₁ m₂ m' pre seg post) (hp : page ∣ p)
    (halone : ∀ other ∈ pre++post, ¬other.Occupies base p) (hfree : FreePage m p)
    (he : entry ∈ m'.allocations) (hmeets : ¬(entry.2.stop ≤ p ∨ p+page ≤ entry.2.start)) :
    ∃ lo hi, FreshRegion m₁ { seg.protection with write := true } name lo hi entry ∧
      lo ≤ p ∧ p+page ≤ hi := by
  obtain ⟨lo,hi,hfresh⟩ := (h.mem_or_fresh hp halone he hmeets).resolve_left
    fun hold => hmeets (hfree entry hold)
  rw [hfresh.start_eq, hfresh.stop_eq] at hmeets
  exact ⟨lo,hi,hfresh,whole_of_meets hfresh.lo_dvd hfresh.hi_dvd hp hmeets⟩

/-- On a page that was free the region is writable, and the protection comes back to it if it is the
whole span of the segment. -/
lemma free_iff (h : MappedAround base name m m₁ m₂ m' pre seg post) (hp : page ∣ p)
    (hin : seg.Occupies base p) (halone : ∀ other ∈ pre++post, ¬other.Occupies base p)
    (hfree : FreePage m p) :
    (∀ a, p ≤ a → a < p+page → ∃ entry ∈ m'.allocations, entry.2.start ≤ a ∧ a < entry.2.stop ∧
      (entry.2.protection = seg.protection ∨ seg.Restores base entry)) ↔
    seg.protection.write = true ∨ ∀ q, page ∣ q → seg.Occupies base q →
      FreePage m q ∧ ∀ other ∈ pre, ¬other.Occupies base q := by
  constructor
  · intro hall
    obtain ⟨entry,he,hlo,hhi,hprot⟩ := hall p le_rfl (Nat.lt_add_of_pos_right (by decide))
    obtain ⟨lo,hi,hfresh,-⟩ := h.fresh_of_free hp halone hfree he (by unfold page; omega)
    rcases hprot with hprot | ⟨-,hspan⟩
    · left
      rw [← hprot, hfresh.entry_eq]
      rfl
    · right
      rintro q hq ⟨_,_,hspan',hge,hlt⟩
      obtain ⟨rfl,rfl⟩ := Prod.mk.inj (Option.some.inj (hspan'.symm.trans hspan))
      refine (h.before.freePage_iff h.basedBefore hq).mp fun old hold => ?_
      have hapart := hfresh.apart old hold
      rw [hfresh.start_eq] at hge
      rw [hfresh.stop_eq] at hlt
      have hend := add_le_of_dvd_of_lt hq hfresh.hi_dvd hlt
      omega
  · intro hcond a hlo hhi
    by_cases hwrite : seg.protection.write = true
    · have htaken : ¬FreePage m₂ p := fun hcon =>
        (((mapSegment_mapped h.before.laid h.own).freePage_iff (by simpa using h.basedOwn) hp).mp hcon).2
          seg (by simp) hin
      unfold FreePage at htaken
      push Not at htaken
      obtain ⟨entry,he,hmeets⟩ := htaken
      have hkept := h.after.kept entry he
      obtain ⟨lo,hi,hfresh,hstart,hstop⟩ := h.fresh_of_free hp halone hfree hkept (by omega)
      rw [← hfresh.start_eq] at hstart
      rw [← hfresh.stop_eq] at hstop
      refine ⟨entry,hkept,hstart.trans hlo,hhi.trans_le hstop,.inl ?_⟩
      rw [hfresh.entry_eq, ← hwrite]
      rfl
    · have hprot : seg.protection ≠ ⟨true,true,false⟩ := fun hcon => hwrite (by rw [hcon])
      have hwhole := hcond.resolve_left hwrite
      obtain ⟨entry,he,hspan,hstart,hstop⟩ := mapSegment_whole h.before.laid h.basedOwn hp h.own hin
        fun q hq hocc => (h.before.freePage_iff h.basedBefore hq).mpr (hwhole q hq hocc)
      exact ⟨entry,h.after.kept entry he,hstart.trans hlo,hhi.trans_le hstop,.inr ⟨hprot,hspan⟩⟩

end MappedAround

/-- Every byte of the page is in a region that has the protection, or to which it comes back. -/
lemma mapSegments_restored_iff (hm : Laid m) (hbased : ∀ other ∈ pre++seg :: post, Based base other)
    (hp : page ∣ p) (hin : seg.Occupies base p) (halone : ∀ other ∈ pre++post, ¬other.Occupies base p)
    (h : mapSegments base name m (pre++seg :: post) = (m',.ok ())) :
    (∀ a, p ≤ a → a < p+page → ∃ entry ∈ m'.allocations, entry.2.start ≤ a ∧ a < entry.2.stop ∧
      (entry.2.protection = seg.protection ∨ seg.Restores base entry)) ↔ Restored m base pre seg p := by
  obtain ⟨m₁,m₂,hpre,hmid,hpost⟩ := mapSegments_split h
  have hfirst := mapSegments_mapped hm hpre
  have hlast := mapSegments_mapped (mapSegment_mapped hfirst.laid hmid).laid hpost
  have haround : MappedAround base name m m₁ m₂ m' pre seg post := ⟨hfirst,hmid,hlast,hbased⟩
  unfold Restored
  by_cases hfree : FreePage m p
  · simp only [hfree, true_and, not_true, false_and, or_false]
    exact haround.free_iff hp hin halone hfree
  · simp only [hfree, false_and, not_false_iff, true_and, false_or]
    refine forall₃_congr fun a hlo hhi => ⟨?_,?_⟩
    · rintro ⟨entry,he,hstart,hstop,hprot⟩
      exact ⟨entry,haround.mem_of_taken hp halone hfree he (by omega),hstart,hstop,hprot⟩
    · rintro ⟨entry,he,hrest⟩
      exact ⟨entry,haround.kept he,hrest⟩

end Pages

section Load

variable {st st₁ st₂ st' : LoadState} {name : String} {handle p : ℕ} {order : MapOrder}
  {seg : LoadableSegment} {pre post : List LoadableSegment}

/-- What the relocation of a module leaves of the regions on the page. -/
lemma relocateImage_protected_iff {image : ExecutableImage} {base : ℕ} {m : Module}
    (hsegs : image.segments = pre++seg :: post) (hp : page ∣ p)
    (halone : ∀ other ∈ pre++post, ¬other.Occupies base p) (hkeyed : ∀ entry ∈ st₁.memory.allocations,
      entry.1 = entry.2.start) (hsized : Sized st₁.memory) (hkeeps : st₁.Keeps st₂ handle p)
    (hm : st₁.manager.getModule handle = some m) (hbase : m.baseAddr = base)
    (hreloc : relocateImage order st₂ image handle = (st',.ok ())) :
    Protected st'.memory p seg.protection ↔
      ∀ a, p ≤ a → a < p+page → ∃ entry ∈ st₁.memory.allocations, entry.2.start ≤ a ∧ a < entry.2.stop ∧
        (entry.2.protection = seg.protection ∨ seg.Restores base entry) := by
  obtain ⟨m',memory,hm',happly,-,hmemory⟩ := relocateImage_ok hreloc
  obtain rfl := Option.some.inj (hm'.symm.trans (hkeeps.registered.trans hm))
  have hallocs : st'.memory.allocations = st₂.memory.allocations.map
      fun entry => image.segments.foldl (fun e seg => seg.restore base e) entry := by
    rw [hmemory, foldl_protectSegment, applyRelocations_allocations happly, hbase]
  have hprot : ∀ entry ∈ st₁.memory.allocations, ¬(entry.2.stop ≤ p ∨ p+page ≤ entry.2.start) →
      ((image.segments.foldl (fun e seg => seg.restore base e) entry).2.protection = seg.protection ↔
        entry.2.protection = seg.protection ∨ seg.Restores base entry) := by
    intro entry he hmeets
    rw [hsegs, foldl_restore (hkeyed entry he) (hsized entry he) hp hmeets halone]
    exact restore_protection_iff (hkeyed entry he) (hsized entry he)
  refine forall₃_congr fun a hlo hhi => ?_
  constructor
  · rintro ⟨entry',he',hstart,hstop,hprot'⟩
    rw [hallocs] at he'
    obtain ⟨entry,he,rfl⟩ := List.mem_map.mp he'
    rw [(foldl_restore_range base _ entry).1] at hstart
    rw [(foldl_restore_range base _ entry).2] at hstop
    have hmeets : ¬(entry.2.stop ≤ p ∨ p+page ≤ entry.2.start) := by omega
    have he₁ := (hkeeps.regions entry hmeets).mp he
    exact ⟨entry,he₁,hstart,hstop,(hprot entry he₁ hmeets).mp hprot'⟩
  · rintro ⟨entry,he,hstart,hstop,hcond⟩
    have hmeets : ¬(entry.2.stop ≤ p ∨ p+page ≤ entry.2.start) := by omega
    refine ⟨_,?_,?_,?_,(hprot entry he hmeets).mpr hcond⟩
    · rw [hallocs]
      exact List.mem_map_of_mem ((hkeeps.regions entry hmeets).mpr he)
    · rwa [(foldl_restore_range base _ entry).1]
    · rwa [(foldl_restore_range base _ entry).2]

/-- A page that only one segment meets is left with the protection of that segment exactly when it was
free, and the segment is writable or no page of its span was taken, by a region or by an earlier segment;
or when the regions that it had before have that protection. -/
theorem page_protected_iff {image : ParsedImage} {vm : GuestVm} {s : TableRun} {stores : List Store}
    (hs : Reach TableRun.step (TableRun.Initial vm) (fun _ _ => True) s)
    (hstart : st.memory = { s.manager with stores := stores })
    (hbase : page ≤ st.manager.allocator.currentAddr)
    (hsegs : image.executable.segments = pre++seg :: post) (hp : page ∣ p)
    (hin : seg.Occupies (loadBase st image.executable) p)
    (halone : ∀ other ∈ pre++post, ¬other.Occupies (loadBase st image.executable) p)
    (hmap : mapImage st image.executable name = (st₁,.ok handle)) (hkeeps : st₁.Keeps st₂ handle p)
    (hreloc : relocateImage order st₂ image.executable handle = (st',.ok ())) :
    Protected st'.memory p seg.protection ↔
      Restored st.memory (loadBase st image.executable) pre seg p := by
  obtain ⟨hkeyed,hspan,hordered⟩ := TableRun.reach_laid hs
  have hlaid : Laid st.memory := by
    rw [hstart]
    exact ⟨hkeyed,hspan,hordered⟩
  have hsized : Sized st.memory := by
    rw [hstart]
    exact TableRun.reach_sized hs
  obtain ⟨-,-,hmapped,-,hmodule⟩ := mapImage_ok hmap
  have hafter := mapSegments_mapped hlaid hmapped
  rw [relocateImage_protected_iff hsegs hp halone hafter.laid.keyed (hafter.sized hsized) hkeeps hmodule
    rfl hreloc]
  rw [hsegs] at hmapped
  exact mapSegments_restored_iff hlaid (hsegs ▸ based_of_executable hbase) hp hin halone hmapped

/-- Code, and read-only data that begins on the last page of the code. -/
def tight : ParsedImage :=
  ⟨[⟨0,[0xC3],⟨true,false,true⟩,0x17FF⟩,⟨0x1800,[0x2A],⟨true,false,false⟩,0x17FF⟩],0,[],[],[]⟩

def tightCode : LoadableSegment := ⟨0,[0xC3],⟨true,false,true⟩,0x17FF⟩

def tightData : LoadableSegment := ⟨0x1800,[0x2A],⟨true,false,false⟩,0x17FF⟩

def tightMapped : LoadState := (mapImage (startWith (.new arenaVm)) tight.executable "eboot.bin").1

def tightLoaded : LoadState := (relocateImage .inserted tightMapped tight.executable 1).1

lemma tight_mapped :
    mapImage (startWith (.new arenaVm)) tight.executable "eboot.bin" = (tightMapped,.ok 1) := by
  have hok : (mapImage (startWith (.new arenaVm)) tight.executable "eboot.bin").2 = .ok 1 := by
    decide +kernel
  rw [tightMapped, ← hok]

lemma tight_relocated : relocateImage .inserted tightMapped tight.executable 1 = (tightLoaded,.ok ()) := by
  have hok : (relocateImage .inserted tightMapped tight.executable 1).2 = .ok () := by decide +kernel
  rw [tightLoaded, ← hok]

lemma tight_base : loadBase (startWith (.new arenaVm)) tight.executable = 0x400000 := by decide

lemma tightCode_spans : Spans 0x400000 tightCode 0x400000 0x402000 := by decide

lemma tightData_spans : Spans 0x400000 tightData 0x401000 0x403000 := by decide

lemma LoadState.Keeps.refl (st : LoadState) (handle p : ℕ) : st.Keeps st handle p :=
  ⟨rfl,fun _ _ => Iff.rfl⟩

/-- The code is mapped as a whole, and loses the permission to write. -/
theorem page_protected_iff_code : Protected tightLoaded.memory 0x400000 tightCode.protection := by
  have hs : Reach TableRun.step (TableRun.Initial arenaVm) (fun _ _ => True) ⟨.new arenaVm,[]⟩ :=
    .start rfl
  have hin : tightCode.Occupies 0x400000 0x400000 := tightCode_spans.occupies_iff.mpr (by decide)
  have halone : ∀ other ∈ []++[tightData], ¬other.Occupies 0x400000 0x400000 := by
    intro other hother
    obtain rfl := List.mem_singleton.mp hother
    rw [tightData_spans.occupies_iff]
    decide
  have hfree : ∀ q, page ∣ q → tightCode.Occupies 0x400000 q →
      FreePage (startWith (.new arenaVm)).memory q := by
    intro q _ hocc entry he
    obtain rfl := List.mem_singleton.mp he
    have hgadget : 0x31000 ≤ q := le_trans (by decide) (tightCode_spans.occupies_iff.mp hocc).1
    exact .inl hgadget
  have hiff := page_protected_iff hs rfl (by decide) (show _ = []++tightCode :: [tightData] from rfl)
    (by decide) (tight_base.symm ▸ hin) (tight_base.symm ▸ halone) tight_mapped (.refl _ _ _) tight_relocated
  rw [tight_base] at hiff
  refine hiff.mpr (.inl ⟨hfree 0x400000 (by decide) hin,.inr fun q hq hocc => ?_⟩)
  exact ⟨hfree q hq hocc,fun _ hother => absurd hother List.not_mem_nil⟩

/-- The data is mapped from its second page on, and stays writable there. -/
theorem not_protected_data : ¬∀ (vm : GuestVm) (s : TableRun) (stores : List Store) (st st₁ st' : LoadState)
    (image : ParsedImage) (name : String) (handle p : ℕ) (order : MapOrder) (seg : LoadableSegment)
    (pre post : List LoadableSegment),
    Reach TableRun.step (TableRun.Initial vm) (fun _ _ => True) s →
    st.memory = { s.manager with stores := stores } → page ≤ st.manager.allocator.currentAddr →
    image.executable.segments = pre++seg :: post → page ∣ p →
    seg.Occupies (loadBase st image.executable) p →
    (∀ other ∈ pre++post, ¬other.Occupies (loadBase st image.executable) p) →
    mapImage st image.executable name = (st₁,.ok handle) →
    relocateImage order st₁ image.executable handle = (st',.ok ()) →
    Protected st'.memory p seg.protection := by
  intro h
  have hin : tightData.Occupies 0x400000 0x402000 := tightData_spans.occupies_iff.mpr (by decide)
  have halone : ∀ other ∈ [tightCode]++[], ¬other.Occupies 0x400000 0x402000 := by
    intro other hother
    obtain rfl := List.mem_singleton.mp hother
    rw [tightCode_spans.occupies_iff]
    decide
  obtain ⟨entry,he,hlo,hhi,hprot⟩ := h arenaVm ⟨.new arenaVm,[]⟩ [] _ _ _ tight "eboot.bin" 1 0x402000
    .inserted tightData [tightCode] [] (.start rfl) rfl (by decide) rfl (by decide)
    (tight_base.symm ▸ hin) (tight_base.symm ▸ halone) tight_mapped tight_relocated 0x402000 le_rfl
    (by decide)
  have hwritable : ∀ entry ∈ tightLoaded.memory.allocations, entry.2.start ≤ 0x402000 →
      0x402000 < entry.2.stop → entry.2.protection ≠ tightData.protection := by decide +kernel
  exact hwritable entry he hlo hhi hprot

end Load

end Unemups4.Loader

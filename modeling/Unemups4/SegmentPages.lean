import Unemups4.LinkSums
import Unemups4.StoredBytes

/-! Which regions the mapping of segments leaves: those from before, and new ones of whole pages that
no region met, inside the span of the segment that they are mapped for. -/
namespace Unemups4.Loader
open Memory VmMemoryManager Words

/-- No region meets the page. -/
def FreePage (m : VmMemoryManager) (q : ℕ) : Prop :=
  ∀ entry ∈ m.allocations, entry.2.stop ≤ q ∨ q+page ≤ entry.2.start

/-- A region of whole pages, none of which was met by another one. -/
structure FreshRegion (m : VmMemoryManager) (prot : MemoryProtection) (name : String) (lo hi : ℕ)
    (entry : ℕ × MemoryVma) : Prop where
  entry_eq : entry = (lo,region lo (hi-lo) prot (some name))
  lo_dvd : page ∣ lo
  hi_dvd : page ∣ hi
  lt : lo < hi
  apart : ∀ old ∈ m.allocations, old.2.stop ≤ lo ∨ hi ≤ old.2.start

/-- What the mapping of the free pages of a range does to the table. A range from address zero is
mapped wherever there is room. -/
structure PagesMapped (m m' : VmMemoryManager) (addr stop : ℕ) (prot : MemoryProtection)
    (name : String) : Prop where
  laid : Laid m'
  kept : ∀ entry ∈ m.allocations, entry ∈ m'.allocations
  fresh : ∀ entry ∈ m'.allocations, entry ∈ m.allocations ∨
    ∃ lo hi, FreshRegion m prot name lo hi entry ∧ (addr = 0 ∧ 0 < stop ∨ addr ≤ lo ∧ hi ≤ stop)
  covered : addr ≠ 0 → ∀ q, page ∣ q → addr ≤ q → q < stop → ¬FreePage m' q

section Pages

variable {m m' m'' : VmMemoryManager} {addr mid stop fuel base size q lo hi : ℕ}
  {prot : MemoryProtection} {name : String} {entry : ℕ × MemoryVma}

lemma isMemoryFree_page (hq : q+page < 2^64) : m.isMemoryFree q page ↔ FreePage m q := by
  rw [isMemoryFree_iff, wrap, Nat.mod_eq_of_lt hq]
  rfl

lemma FreePage.of_kept (h : FreePage m' q) (hkept : ∀ entry ∈ m.allocations, entry ∈ m'.allocations) :
    FreePage m q := fun entry he => h entry (hkept entry he)

/-- A page that is met by a region of whole pages lies in it. -/
lemma whole_of_meets (hlo : page ∣ lo) (hhi : page ∣ hi) (hq : page ∣ q)
    (hmeets : ¬(hi ≤ q ∨ q+page ≤ lo)) : lo ≤ q ∧ q+page ≤ hi := by
  obtain ⟨hlt,hge⟩ := not_or.mp hmeets
  have hstart : ¬q < lo := fun hcon => hge (add_le_of_dvd_of_lt hq hlo hcon)
  exact ⟨not_lt.mp hstart,add_le_of_dvd_of_lt hq hhi (not_le.mp hlt)⟩

lemma FreshRegion.of_kept (h : FreshRegion m' prot name lo hi entry)
    (hkept : ∀ entry ∈ m.allocations, entry ∈ m'.allocations) : FreshRegion m prot name lo hi entry :=
  ⟨h.entry_eq,h.lo_dvd,h.hi_dvd,h.lt,fun old hold => h.apart old (hkept old hold)⟩

lemma FreshRegion.start_eq (h : FreshRegion m prot name lo hi entry) : entry.2.start = lo := by
  rw [h.entry_eq]
  rfl

lemma FreshRegion.stop_eq (h : FreshRegion m prot name lo hi entry) : entry.2.stop = hi := by
  have hlt := h.lt
  rw [h.entry_eq]
  exact Nat.add_sub_cancel' hlt.le

lemma PagesMapped.refl (hm : Laid m) (hle : stop ≤ addr) : PagesMapped m m addr stop prot name := by
  refine ⟨hm,fun entry he => he,fun entry he => .inl he,fun _ q _ hlo hhi => ?_⟩
  omega

/-- Two ranges in a row. -/
lemma PagesMapped.trans (h : PagesMapped m m' addr mid prot name)
    (h' : PagesMapped m' m'' mid stop prot name) (hlo : addr ≤ mid) (hhi : mid ≤ stop) :
    PagesMapped m m'' addr stop prot name := by
  refine ⟨h'.laid,fun entry he => h'.kept entry (h.kept entry he),fun entry he => ?_,?_⟩
  · rcases h'.fresh entry he with he | ⟨lo,hi,hfresh,hin⟩
    · rcases h.fresh entry he with he | ⟨lo,hi,hfresh,hin⟩
      · exact .inl he
      · exact .inr ⟨lo,hi,hfresh,by omega⟩
    · exact .inr ⟨lo,hi,hfresh.of_kept h.kept,by omega⟩
  · intro haddr q hq hge hlt hfree
    by_cases hmid : q < mid
    · exact h.covered haddr q hq hge hmid (hfree.of_kept h'.kept)
    · exact h'.covered (by omega) q hq (not_lt.mp hmid) hlt hfree

/-- One request. -/
lemma pagesMapped_map (hm : Laid m) (haddr : page ∣ addr) (hmid : page ∣ mid) (hlt : addr < mid)
    (hmap : m.map addr (mid-addr) prot (some name) = (m',.ok base)) :
    PagesMapped m m' addr mid prot name ∧
      (addr ≠ 0 → (addr,region addr (mid-addr) prot (some name)) ∈ m'.allocations) := by
  have hlaid := hm.mapAligned addr (mid-addr) 0 prot (some name)
  have hcases := Tracked.mapAligned_cases ⟨hm.keyed,hm.belowSpan⟩ addr (mid-addr) (.inl rfl) prot (some name)
  rw [show m.mapAligned addr (mid-addr) 0 prot (some name) = _ from hmap] at hlaid hcases
  rcases hcases with ⟨e,herr,-⟩ | ⟨_,hok,hmaps⟩
  · cases herr
  obtain rfl := Except.ok.inj hok
  have hfits := hmaps.fits
  have hpos := hfits.pos
  have hbase : page ∣ base := by
    by_cases hzero : addr = 0
    · exact Nat.dvd_trans (by decide) (hfits.anywhere hzero).2
    · exact (hfits.explicit hzero).1 ▸ haddr
  have hmem : ∀ entry, entry ∈ m'.allocations ↔
      entry = (base,region base (mid-addr) prot (some name)) ∨ entry ∈ m.allocations := by
    intro entry
    rw [hmaps.allocations, mem_insertKey]
    refine or_congr_right (and_iff_left_of_imp fun he heq => ?_)
    -- a region under the same start would meet the new one
    have hapart := hfits.apart he
    have hkey := hm.keyed entry he
    have hne := hm.ordered.nonempty entry he
    omega
  have hnew : addr ≠ 0 → (addr,region addr (mid-addr) prot (some name)) ∈ m'.allocations := by
    intro hzero
    exact (hmem _).mpr (.inl (by rw [(hfits.explicit hzero).1]))
  refine ⟨⟨hlaid,fun entry he => (hmem entry).mpr (.inr he),fun entry he => ?_,?_⟩,hnew⟩
  · rcases (hmem entry).mp he with rfl | he
    · refine .inr ⟨base,base+(mid-addr),⟨by rw [Nat.add_sub_cancel_left],hbase,?_,by omega,?_⟩,?_⟩
      · exact (Nat.dvd_add_right hbase).mpr (Nat.dvd_sub hmid haddr)
      · exact fun old hold => hfits.apart hold
      · by_cases hzero : addr = 0
        · exact .inl ⟨hzero,by omega⟩
        · have heq := (hfits.explicit hzero).1
          exact .inr (by omega)
    · exact .inl he
  · intro hzero q hq hge hlt' hfree
    have hapart := hfree _ (hnew hzero)
    have hend := add_le_of_dvd_of_lt hq hmid hlt'
    unfold region page at *
    dsimp only at hapart
    omega

lemma lt_freeRun (hlt : addr < stop) (hstop : page ∣ stop) (haddr : page ∣ addr)
    (hfree : m.isMemoryFree addr page) : addr < freeRun m stop (fuel+1) addr := by
  have hnext := add_le_of_dvd_of_lt haddr hstop hlt
  have hbounds := @freeRun_bounds m stop (addr+page) fuel hstop
    ((Nat.dvd_add_right haddr).mpr (dvd_refl page)) hnext
  rw [freeRun, if_pos ⟨hlt,hfree⟩]
  exact lt_of_lt_of_le (Nat.lt_add_of_pos_right (by decide)) hbounds.2.1

/-- A run of free pages ends where they do. -/
lemma freeRun_eq (hstop : page ∣ stop) (hword : stop < 2^64) (haddr : page ∣ addr) (hle : addr ≤ stop)
    (hfuel : stop ≤ addr+fuel*page) (hfree : ∀ q, page ∣ q → addr ≤ q → q < stop → FreePage m q) :
    freeRun m stop fuel addr = stop := by
  induction fuel generalizing addr with
  | zero =>
    rw [freeRun]
    omega
  | succ fuel ih =>
    rw [freeRun]
    split_ifs with hnext
    · have hle' := add_le_of_dvd_of_lt haddr hstop hnext.1
      refine ih ((Nat.dvd_add_right haddr).mpr (dvd_refl page)) hle' ?_ ?_
      · rw [Nat.succ_mul] at hfuel
        omega
      · exact fun q hq hge hlt => hfree q hq (by omega) hlt
    · by_contra hne
      have hlt : addr < stop := by omega
      have hend := add_le_of_dvd_of_lt haddr hstop hlt
      exact hnext ⟨hlt,(isMemoryFree_page (by omega)).mpr (hfree addr haddr le_rfl hlt)⟩

/-- The loop over the pages of a range. -/
lemma mapFreePages_mapped (hm : Laid m) (hstop : page ∣ stop) (hword : stop < 2^64) (haddr : page ∣ addr)
    (hle : addr ≤ stop) (hfuel : stop ≤ addr+fuel*page)
    (h : mapFreePages stop prot name fuel m addr = (m',.ok ())) :
    PagesMapped m m' addr stop prot name := by
  induction fuel generalizing m addr with
  | zero =>
    obtain ⟨rfl,-⟩ := Prod.mk.inj h
    exact .refl hm (by omega)
  | succ fuel ih =>
    rw [mapFreePages] at h
    rw [Nat.succ_mul] at hfuel
    split_ifs at h with hlt hfree
    · dsimp only at h
      split at h
      · cases h
      · rename_i m₁ base hmap
        obtain ⟨hdvd,hge,hend⟩ := @freeRun_bounds m stop addr (fuel+1) hstop haddr hle
        have hgt : addr < freeRun m stop (fuel+1) addr := lt_freeRun hlt hstop haddr hfree
        have hnext := add_le_of_dvd_of_lt haddr hdvd hgt
        have hfirst := (pagesMapped_map hm haddr hdvd hgt hmap).1
        exact hfirst.trans (ih hfirst.laid hdvd hend (by omega) h) hge hend
    · have hend := add_le_of_dvd_of_lt haddr hstop hlt
      have hrest := ih hm ((Nat.dvd_add_right haddr).mpr (dvd_refl page)) hend (by omega) h
      refine PagesMapped.trans ⟨hm,fun _ he => he,fun _ he => .inl he,?_⟩ hrest
        (Nat.le_add_right addr page) hend
      intro _ q hq hge hlt' hcon
      obtain rfl : q = addr := by
        by_contra hne
        have hfar := add_le_of_dvd_of_lt haddr hq (by omega)
        omega
      exact hfree ((isMemoryFree_page (by omega)).mpr hcon)
    · obtain ⟨rfl,-⟩ := Prod.mk.inj h
      exact .refl hm (not_lt.mp hlt)

/-- A range that is free becomes one region. -/
lemma mapFreePages_whole (hm : Laid m) (hstop : page ∣ stop) (hword : stop < 2^64) (haddr : page ∣ addr)
    (hzero : addr ≠ 0) (hlt : addr < stop) (hfuel : stop ≤ addr+fuel*page)
    (hfree : ∀ q, page ∣ q → addr ≤ q → q < stop → FreePage m q)
    (h : mapFreePages stop prot name fuel m addr = (m',.ok ())) :
    (addr,region addr (stop-addr) prot (some name)) ∈ m'.allocations := by
  have hend := add_le_of_dvd_of_lt haddr hstop hlt
  cases fuel with
  | zero => omega
  | succ fuel =>
    have hrun := freeRun_eq hstop hword haddr hlt.le hfuel hfree
    have hfirst := (isMemoryFree_page (by omega)).mpr (hfree addr haddr le_rfl hlt)
    rw [mapFreePages, if_pos hlt, if_pos hfirst] at h
    dsimp only at h
    rw [hrun] at h
    split at h
    · cases h
    · rename_i m₁ base hmap
      obtain ⟨hmapped,hnew⟩ := pagesMapped_map hm haddr hstop hlt hmap
      have hrest := mapFreePages_mapped hmapped.laid hstop hword hstop le_rfl (Nat.le_add_right _ _) h
      exact hrest.kept _ (hnew hzero)

end Pages

/-- The pages that a segment takes. -/
def Spans (base : ℕ) (seg : LoadableSegment) (start stop : ℕ) : Prop :=
  segmentSpan (base+seg.offset) seg.data.length seg.bssSize = some (start,stop)

/-- What the mapping of segments in a row does to the table. -/
structure SegmentsMapped (base : ℕ) (name : String) (m m' : VmMemoryManager)
    (segs : List LoadableSegment) : Prop where
  laid : Laid m'
  kept : ∀ entry ∈ m.allocations, entry ∈ m'.allocations
  fresh : ∀ entry ∈ m'.allocations, entry ∈ m.allocations ∨
    ∃ seg ∈ segs, ∃ start stop lo hi, Spans base seg start stop ∧
      FreshRegion m { seg.protection with write := true } name lo hi entry ∧
      (start = 0 ∧ 0 < stop ∨ start ≤ lo ∧ hi ≤ stop)
  covered : ∀ seg ∈ segs, ∀ start stop, Spans base seg start stop → start ≠ 0 →
    ∀ q, page ∣ q → start ≤ q → q < stop → ¬FreePage m' q

section Segments

variable {m m' m'' : VmMemoryManager} {base start stop vaddr data bss q a : ℕ} {name : String}
  {seg : LoadableSegment} {segs segs' : List LoadableSegment} {contents : ℕ → UInt8}

lemma segmentSpan_bounds (h : segmentSpan vaddr data bss = some (start,stop)) :
    start ≤ vaddr ∧ stop < vaddr+data+bss+page := by
  unfold segmentSpan at h
  split_ifs at h
  obtain ⟨rfl,rfl⟩ := Prod.mk.inj (Option.some.inj h)
  rw [show 0xFFF = 2^12-1 from rfl, andNot_eq, andNot_eq]
  have hstop := Nat.div_mul_le_self (vaddr+data+bss+(2^12-1)) (2^12)
  refine ⟨Nat.div_mul_le_self vaddr (2^12),?_⟩
  unfold page
  omega

/-- A segment takes the pages of its bytes. -/
lemma Spans.of_holds (h : Spans base seg start stop) (hholds : seg.Holds base a) (hq : page ∣ q)
    (hlo : q ≤ a) (hhi : a < q+page) : start ≤ q ∧ q < stop := by
  obtain ⟨hstart,-,-,-,hend,-⟩ := segmentSpan_eq h
  have hbounds := segmentSpan_bounds h
  unfold LoadableSegment.Holds at hholds
  refine ⟨?_,by omega⟩
  by_contra hcon
  have hfar := add_le_of_dvd_of_lt hq hstart (not_le.mp hcon)
  omega

/-- Above the first page, or without pages. -/
lemma Based.span (hbased : Based base seg) (h : Spans base seg start stop) : start ≠ 0 ∨ stop = 0 := by
  obtain ⟨-,hstop,hnear,-,-,-⟩ := segmentSpan_eq h
  have hbounds := segmentSpan_bounds h
  rcases hbased with hbase | hnone
  · left
    omega
  · right
    exact Nat.eq_zero_of_dvd_of_lt hstop (by omega)

/-- The pages of a span are looked at one by one. -/
lemma Spans.fuel (h : Spans base seg start stop) : stop ≤ start+(stop-start)/page*page := by
  obtain ⟨hstart,hstop,-,hle,-⟩ := segmentSpan_eq h
  rw [Nat.div_mul_cancel (Nat.dvd_sub hstop hstart)]
  omega

lemma fillSegment_allocations (h : fillSegment m vaddr seg = (m',.ok ())) :
    m'.allocations = m.allocations ∧ m'.vm = m.vm := by
  unfold fillSegment at h
  split at h
  · cases h
  · rename_i m₁ hdata
    have hfirst : m₁.allocations = m.allocations ∧ m₁.vm = m.vm := by
      unfold writeBytes at hdata
      split_ifs at hdata <;> cases hdata <;> exact ⟨rfl,rfl⟩
    unfold zeroMemory at h
    split_ifs at h <;> cases h <;> exact hfirst

/-- The mapping of one segment: its pages, and then its bytes. -/
lemma mapSegment_ok (hm : Laid m) (h : mapSegment base name m seg = (m',.ok ())) :
    ∃ start stop m₁, Spans base seg start stop ∧
      mapFreePages stop { seg.protection with write := true } name ((stop-start)/page) m start =
        (m₁,.ok ()) ∧
      fillSegment m₁ (base+seg.offset) seg = (m',.ok ()) ∧
      PagesMapped m m' start stop { seg.protection with write := true } name := by
  unfold mapSegment at h
  dsimp only at h
  split_ifs at h
  · cases h
  · split at h
    · cases h
    · rename_i start stop hspan
      split at h
      · cases h
      · rename_i m₁ hpages
        obtain ⟨hstart,hstop,-,hle,-,hword⟩ := segmentSpan_eq hspan
        have hfuel : stop ≤ start+(stop-start)/page*page := Spans.fuel hspan
        have hmapped := mapFreePages_mapped hm hstop hword hstart hle hfuel hpages
        obtain ⟨hallocs,hvm⟩ := fillSegment_allocations h
        obtain ⟨hlaid,hkept,hfresh,hcovered⟩ := hmapped
        refine ⟨start,stop,m₁,hspan,hpages,h,⟨?_,?_,?_⟩,hallocs ▸ hkept,hallocs ▸ hfresh,?_⟩
        · exact hallocs ▸ hlaid.keyed
        · rw [hallocs, hvm]
          exact hlaid.belowSpan
        · exact hallocs ▸ hlaid.ordered
        · unfold FreePage at *
          rwa [hallocs]

lemma SegmentsMapped.nil (hm : Laid m) : SegmentsMapped base name m m [] :=
  ⟨hm,fun _ he => he,fun _ he => .inl he,fun _ hseg => absurd hseg List.not_mem_nil⟩

lemma SegmentsMapped.trans (h : SegmentsMapped base name m m' segs)
    (h' : SegmentsMapped base name m' m'' segs') : SegmentsMapped base name m m'' (segs++segs') := by
  refine ⟨h'.laid,fun entry he => h'.kept entry (h.kept entry he),fun entry he => ?_,?_⟩
  · rcases h'.fresh entry he with he | ⟨seg,hseg,start,stop,lo,hi,hspan,hfresh,hin⟩
    · rcases h.fresh entry he with he | ⟨seg,hseg,hrest⟩
      · exact .inl he
      · exact .inr ⟨seg,List.mem_append_left _ hseg,hrest⟩
    · exact .inr ⟨seg,List.mem_append_right _ hseg,start,stop,lo,hi,hspan,hfresh.of_kept h.kept,hin⟩
  · intro seg hseg start stop hspan hstart q hq hlo hhi hfree
    rcases List.mem_append.mp hseg with hseg | hseg
    · exact h.covered seg hseg start stop hspan hstart q hq hlo hhi (hfree.of_kept h'.kept)
    · exact h'.covered seg hseg start stop hspan hstart q hq hlo hhi hfree

lemma mapSegment_mapped (hm : Laid m) (h : mapSegment base name m seg = (m',.ok ())) :
    SegmentsMapped base name m m' [seg] := by
  obtain ⟨start,stop,-,hspan,-,-,hmapped⟩ := mapSegment_ok hm h
  refine ⟨hmapped.laid,hmapped.kept,fun entry he => ?_,?_⟩
  · rcases hmapped.fresh entry he with he | ⟨lo,hi,hfresh,hin⟩
    · exact .inl he
    · exact .inr ⟨seg,List.mem_singleton_self seg,start,stop,lo,hi,hspan,hfresh,hin⟩
  · intro seg' hseg start' stop' hspan'
    obtain rfl := List.mem_singleton.mp hseg
    obtain ⟨rfl,rfl⟩ := Prod.mk.inj (Option.some.inj (hspan'.symm.trans hspan))
    exact hmapped.covered

lemma mapSegments_mapped (hm : Laid m) (h : mapSegments base name m segs = (m',.ok ())) :
    SegmentsMapped base name m m' segs := by
  induction segs generalizing m with
  | nil =>
    obtain ⟨rfl,-⟩ := Prod.mk.inj h
    exact .nil hm
  | cons seg segs ih =>
    rw [mapSegments] at h
    split at h
    · cases h
    · rename_i m₁ hseg
      have hfirst := mapSegment_mapped hm hseg
      exact hfirst.trans (ih hfirst.laid h)

lemma mapSegments_split {pre post : List LoadableSegment}
    (h : mapSegments base name m (pre++seg :: post) = (m',.ok ())) :
    ∃ m₁ m₂, mapSegments base name m pre = (m₁,.ok ()) ∧ mapSegment base name m₁ seg = (m₂,.ok ()) ∧
      mapSegments base name m₂ post = (m',.ok ()) := by
  induction pre generalizing m with
  | nil =>
    rw [List.nil_append, mapSegments] at h
    split at h
    · cases h
    · rename_i m₂ hseg
      exact ⟨m,m₂,rfl,hseg,h⟩
  | cons first pre ih =>
    rw [List.cons_append, mapSegments] at h
    split at h
    · cases h
    · rename_i hfirst
      obtain ⟨m₁,m₂,hpre,hseg,hpost⟩ := ih h
      refine ⟨m₁,m₂,?_,hseg,hpost⟩
      rw [mapSegments, hfirst]
      exact hpre

/-- A page that was free before and is not any more is mapped as a whole. -/
lemma SegmentsMapped.mapped (h : SegmentsMapped base name m m' segs) (hq : page ∣ q)
    (hfree : FreePage m q) (htaken : ¬FreePage m' q) (hlo : q ≤ a) (hhi : a < q+page) :
    Mapped m' a := by
  unfold FreePage at htaken
  push Not at htaken
  obtain ⟨entry,he,hmeets⟩ := htaken
  rcases h.fresh entry he with hold | ⟨seg,-,start,stop,lo,hi,-,hfresh,-⟩
  · have hapart := hfree entry hold
    omega
  · have hstart := hfresh.start_eq
    have hstop := hfresh.stop_eq
    have hwhole := whole_of_meets hfresh.lo_dvd hfresh.hi_dvd hq (by omega)
    exact ⟨entry,he,by omega,by omega⟩

end Segments

end Unemups4.Loader

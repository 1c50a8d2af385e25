import Unemups4.SegmentPages

/-! What memory holds once an image is mapped: the bytes of each segment and the zeroes behind them,
on pages that are mapped as a whole. -/
namespace Unemups4.Loader
open Memory VmMemoryManager Words
open Transition (Reach)

/-- What lies below the arena is never mapped, and no write to it goes through. -/
def Guarded (vm : GuestVm) : Prop := ∀ addr len, 0 < len → vm.accepts addr len → guestBase ≤ addr

/-- The bytes of two segments. -/
def LoadableSegment.Apart (a b : LoadableSegment) : Prop :=
  BytesApart a.offset (a.data.length+a.bssSize) b.offset (b.data.length+b.bssSize)

/-- The bytes of the pages that a segment meets. -/
def LoadableSegment.Meets (base : ℕ) (seg : LoadableSegment) (a : ℕ) : Prop :=
  ∃ b, seg.Holds base b ∧ b/page = a/page

section Fill

variable {m m' : VmMemoryManager} {vaddr base : ℕ} {seg : LoadableSegment} {contents : ℕ → UInt8}

lemma fillSegment_holds (h : fillSegment m vaddr seg = (m',.ok ())) :
    Holds contents m'.stores vaddr (seg.data++List.replicate seg.bssSize 0) := by
  unfold fillSegment at h
  split at h
  · cases h
  · rename_i m₁ hdata
    have hfirst : Holds contents m₁.stores vaddr seg.data := by
      split_ifs at hdata with hnil
      · simp [hnil]
      · unfold writeBytes at hdata
        split_ifs at hdata <;> cases hdata
        exact holds_write
    split_ifs at h with hbss
    · unfold zeroMemory at h
      split_ifs at h <;> cases h
      refine (hfirst.cons fun i hi => ?_).concat holds_zero
      unfold Store.Covers
      omega
    · cases h
      simpa [Nat.eq_zero_of_not_pos hbss] using hfirst

/-- A segment that has bytes lies in the arena. -/
lemma fillSegment_inside (hguard : Guarded m.vm) (hpos : 0 < seg.data.length+seg.bssSize)
    (h : fillSegment m vaddr seg = (m',.ok ())) : guestBase ≤ vaddr := by
  unfold fillSegment at h
  by_cases hnil : seg.data = []
  · have hbss : 0 < seg.bssSize := by simpa [hnil] using hpos
    simp only [hnil, if_true, if_pos hbss, List.length_nil, Nat.add_zero, zeroMemory] at h
    split_ifs at h with haccepts <;> cases h
    exact hguard _ _ hbss haccepts
  · by_cases haccepts : m.vm.accepts vaddr seg.data.length
    · exact hguard _ _ (List.length_pos_of_ne_nil hnil) haccepts
    · rw [if_neg hnil, writeBytes, if_neg haccepts] at h
      cases h

/-- A page that a segment meets is free when nothing is mapped there. -/
lemma freePage_of_unmapped (hm : Laid m) {q b : ℕ} (hholds : seg.Holds base b) (hq : q = b/page*page)
    (hfree : ∀ a, seg.Meets base a → ¬Mapped m a) : FreePage m q := by
  intro entry he
  by_contra hmeets
  have hlt := hm.ordered.nonempty entry he
  rw [hm.keyed entry he] at hlt
  have hsame : b/page = max q entry.2.start/page := by
    have hdiv := Nat.div_add_mod' b page
    unfold page at *
    omega
  exact hfree _ ⟨b,hholds,hsame⟩ ⟨entry,he,le_max_right _ _,by omega⟩

end Fill

section Meets

variable {m m₁ m₂ : VmMemoryManager} {base : ℕ} {name : String} {seg : LoadableSegment}
  {pre : List LoadableSegment}

/-- A segment is mapped after others, and so are the pages that it meets. -/
lemma mapSegment_meets (hm : Laid m) (hguard : Guarded m.vm)
    (hfree : ∀ a, seg.Meets base a → ¬Mapped m a) (hpre : mapSegments base name m pre = (m₁,.ok ()))
    (hmid : mapSegment base name m₁ seg = (m₂,.ok ())) : ∀ a, seg.Meets base a → Mapped m₂ a := by
  have hfirst := mapSegments_mapped hm hpre
  have hboth := hfirst.trans (mapSegment_mapped hfirst.laid hmid)
  obtain ⟨start,stop,m₃,hspan,hpages,hfill,-⟩ := mapSegment_ok hfirst.laid hmid
  have hvm : m₃.vm = m.vm := by
    have hpre' : Frame (fun _ => False) m m₁ _ :=
      frame_mapSegments ⟨hm.keyed,hm.belowSpan⟩ (fun _ => False.elim) hpre
    have hpages' : Frame (fun _ => False) m₁ m₃ _ :=
      frame_mapFreePages ⟨hfirst.laid.keyed,hfirst.laid.belowSpan⟩ (fun _ => False.elim) hpages
    exact hpages'.vm.trans hpre'.vm
  rintro a ⟨b,hholds,hpage⟩
  have hpos : 0 < seg.data.length+seg.bssSize := by
    unfold LoadableSegment.Holds at hholds
    omega
  -- a segment with bytes starts above the first page, so that it is mapped in its place
  have hinside := fillSegment_inside (hvm ▸ hguard) hpos hfill
  obtain ⟨-,-,hnear,-⟩ := segmentSpan_eq hspan
  have hzero : start ≠ 0 := by
    unfold guestBase at hinside
    unfold page at hnear
    omega
  have hq : page ∣ b/page*page := Nat.dvd_mul_left page _
  have hdiv := Nat.div_add_mod' b page
  have hmod := Nat.mod_lt b (y := page) (by decide)
  have hdiv' := Nat.div_add_mod' a page
  have hmod' := Nat.mod_lt a (y := page) (by decide)
  rw [← hpage] at hdiv'
  obtain ⟨hlo,hhi⟩ := hspan.of_holds hholds hq (by omega) (by omega)
  have htaken := hboth.covered seg (by simp) start stop hspan hzero _ hq hlo hhi
  exact hboth.mapped hq (freePage_of_unmapped hm hholds rfl hfree) htaken (by omega) (by omega)

end Meets

section Load

variable {st st' : LoadState} {image : ExecutableImage} {name : String} {handle : ℕ}

/-- Whatever segments share pages and in whichever order they come: where their bytes are apart and
nothing is mapped on their pages, the mapping of an image leaves the data of each at its place, zeroes
behind it, and its pages mapped. -/
theorem mapImage_contents {vm : GuestVm} {s : TableRun} {stores : List Store}
    (hs : Reach TableRun.step (TableRun.Initial vm) (fun _ _ => True) s)
    (hstart : st.memory = { s.manager with stores := stores }) (hguard : Guarded st.memory.vm)
    (hapart : image.segments.Pairwise LoadableSegment.Apart)
    (hfree : ∀ seg ∈ image.segments, ∀ a, seg.Meets (loadBase st image) a → ¬Mapped st.memory a)
    (h : mapImage st image name = (st',.ok handle)) (contents : ℕ → UInt8) :
    ∀ seg ∈ image.segments,
      Holds contents st'.memory.stores (loadBase st image+seg.offset)
        (seg.data++List.replicate seg.bssSize 0) ∧
      ∀ a, seg.Meets (loadBase st image) a → Mapped st'.memory a := by
  have hlaid : Laid st.memory := by
    obtain ⟨hkeyed,hspan,hordered⟩ := TableRun.reach_laid hs
    rw [hstart]
    exact ⟨hkeyed,hspan,hordered⟩
  intro seg hseg
  obtain ⟨pre,post,hsplit⟩ := List.append_of_mem hseg
  obtain ⟨-,-,hsegs,-⟩ := mapImage_ok h
  rw [hsplit] at hsegs hapart
  obtain ⟨m₁,m₂,hpre,hmid,hpost⟩ := mapSegments_split hsegs
  have hfirst := mapSegments_mapped hlaid hpre
  have hboth := hfirst.trans (mapSegment_mapped hfirst.laid hmid)
  obtain ⟨_,_,_,-,-,hfill,-⟩ := mapSegment_ok hfirst.laid hmid
  have hmapped := mapSegment_meets hlaid hguard (hfree seg hseg) hpre hmid
  have hrest : Frame (seg.Holds (loadBase st image)) m₂ st'.memory _ :=
    frame_mapSegments ⟨hboth.laid.keyed,hboth.laid.belowSpan⟩ (fun a ha => hmapped a ⟨a,ha,rfl⟩) hpost
  refine ⟨?_,fun a ha => hrest.mapped a (hmapped a ha)⟩
  obtain ⟨-,-,-,new,hnew,hiff⟩ := hrest
  rw [hnew]
  refine (fillSegment_holds hfill).append fun store hstore i hi hcovers => ?_
  rw [List.length_append, List.length_replicate] at hi
  have hholds : seg.Holds (loadBase st image) (loadBase st image+seg.offset+i) := by
    unfold LoadableSegment.Holds
    omega
  obtain ⟨other,hother,hholds'⟩ := (hiff _ hholds).mp ⟨store,hstore,hcovers⟩
  have hsep : seg.Apart other :=
    (List.pairwise_cons.mp (List.pairwise_append.mp hapart).2.1).1 other hother
  unfold LoadableSegment.Apart BytesApart at hsep
  unfold LoadableSegment.Holds at hholds'
  omega

/-- An arena of the default span, outside of which no write goes through. -/
def arenaVm : GuestVm :=
  { TableRun.defaultVm with accepts := fun addr len => guestBase ≤ addr ∧ addr+len ≤ 0x1000000000 }

/-- Data, and code before it whose bss ends on the same page. -/
def abutting : ExecutableImage :=
  ⟨0x1010,[⟨0x1008,[0xCC],⟨true,true,false⟩,7⟩,⟨0,[0xC3],⟨true,false,true⟩,0x1000⟩],0,[],[],[]⟩

lemma abutting_base : loadBase (startWith (.new arenaVm)) abutting = 0x400000 := by decide

lemma abutting_free : ∀ seg ∈ abutting.segments, ∀ a, seg.Meets 0x400000 a →
    ¬Mapped (startWith (.new arenaVm)).memory a := by
  rintro seg - a ⟨b,⟨hlo,-⟩,hpage⟩ ⟨entry,he,-,hstop⟩
  obtain rfl := List.mem_singleton.mp he
  have hgadget : a < 0x31000 := hstop
  unfold page at hpage
  omega

/-- The code does not erase the data that was there before it. -/
theorem mapImage_contents_abutting :
    Holds (fun _ => 0xAA) (mapImage (startWith (.new arenaVm)) abutting "foo.prx").1.memory.stores
      0x401008 [0xCC,0,0,0,0,0,0,0] ∧
    Mapped (mapImage (startWith (.new arenaVm)) abutting "foo.prx").1.memory 0x400FFF := by
  have hs : Reach TableRun.step (TableRun.Initial arenaVm) (fun _ _ => True) ⟨.new arenaVm,[]⟩ :=
    .start rfl
  have hguard : Guarded (startWith (.new arenaVm)).memory.vm :=
    fun addr len _ haccepts => (of_decide_eq_true haccepts).1
  have hload : mapImage (startWith (.new arenaVm)) abutting "foo.prx" =
      ((mapImage (startWith (.new arenaVm)) abutting "foo.prx").1,.ok 1) := by
    have hok : (mapImage (startWith (.new arenaVm)) abutting "foo.prx").2 = .ok 1 := by decide +kernel
    rw [← hok]
  have hapart : abutting.segments.Pairwise LoadableSegment.Apart := by
    unfold LoadableSegment.Apart BytesApart
    decide
  have hall := mapImage_contents hs rfl hguard hapart (abutting_base ▸ abutting_free) hload fun _ => 0xAA
  rw [abutting_base] at hall
  have hdata := hall ⟨0x1008,[0xCC],⟨true,true,false⟩,7⟩ (by decide)
  have hcode := hall ⟨0,[0xC3],⟨true,false,true⟩,0x1000⟩ (by decide)
  exact ⟨hdata.1,hcode.2 0x400FFF ⟨0x400000,⟨by decide,by decide⟩,by decide⟩⟩

end Load

end Unemups4.Loader

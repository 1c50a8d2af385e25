import Unemups4.VmaTable

/-! The table of guest mappings over every sequence of requests: its regions stay apart and inside
the arena as long as no placement starts from a cursor that has wrapped around. -/
namespace Unemups4.Memory
open Transition (Reach)
open VmMemoryManager

def Apart (a b : ℕ × MemoryVma) : Prop := a.2.stop ≤ b.2.start ∨ b.2.stop ≤ a.2.start

lemma Apart.symm {a b : ℕ × MemoryVma} (h : Apart a b) : Apart b a := Or.symm h

structure WellFormed (m : VmMemoryManager) : Prop where
  keyed : ∀ entry ∈ m.allocations, entry.1 = entry.2.start
  nonempty : ∀ entry ∈ m.allocations, entry.2.start < entry.2.stop
  apart : m.allocations.Pairwise Apart
  inside : ∀ entry ∈ m.allocations, guestBase ≤ entry.2.start ∧ entry.2.stop ≤ m.vm.span
  gadget : ∃ entry ∈ m.allocations, entry.2.start = gadgetAddr ∧ entry.2.stop = gadgetAddr+0x1000

section Steps

variable {m m' : VmMemoryManager} {base size addr align : ℕ} {prot : MemoryProtection}
  {name : Option String}

lemma WellFormed.tracked (h : WellFormed m) : Tracked m :=
  ⟨h.keyed,fun entry he => (h.inside entry he).2⟩

/-- A request goes through above the base. -/
lemma WellFormed.aboveBase (h : WellFormed m) (hfits : Fits m addr size align base)
    (hcursor : addr = 0 → m.Unwrapped size align m.heapCursor) : guestBase ≤ base := by
  by_cases haddr : addr = 0
  · apply hfits.aboveBase haddr _ (hcursor haddr)
    intro entry he
    have hbase := (h.inside entry he).1
    exact ⟨hbase,hbase.trans_lt (h.nonempty entry he)⟩
  · exact (hfits.explicit haddr).2

/-- A region that fits goes in. -/
lemma WellFormed.maps (h : WellFormed m) (hmaps : Maps m m' addr size align base prot name)
    (hbase : guestBase ≤ base) : WellFormed m' := by
  obtain ⟨hvm,hallocs,-,hfits⟩ := hmaps
  have hpos := hfits.pos
  have hnew : ∀ entry ∈ m'.allocations,
      entry = (base,region base size prot name) ∨ entry ∈ m.allocations := by
    intro entry he
    rw [hallocs, mem_insertKey] at he
    exact he.imp_right And.left
  refine ⟨?_,?_,?_,?_,?_⟩
  · intro entry he
    rcases hnew entry he with rfl | he
    · rfl
    · exact h.keyed entry he
  · intro entry he
    rcases hnew entry he with rfl | he
    · exact Nat.lt_add_of_pos_right hpos
    · exact h.nonempty entry he
  · rw [hallocs, insertKey_perm.pairwise_iff Apart.symm]
    refine List.pairwise_cons.mpr ⟨?_,h.apart.filter _⟩
    intro entry he
    exact (hfits.apart (List.mem_filter.mp he).1).symm
  · intro entry he
    rw [hvm]
    rcases hnew entry he with rfl | he
    · exact ⟨hbase,hfits.belowSpan⟩
    · exact h.inside entry he
  · obtain ⟨entry,he,hstart,hstop⟩ := h.gadget
    have hkey := h.keyed entry he
    have hapart := hfits.apart he
    refine ⟨entry,?_,hstart,hstop⟩
    rw [hallocs, mem_insertKey]
    exact .inr ⟨he,by omega⟩

lemma WellFormed.rejects (h : WellFormed m) (hrejects : Rejects m m') : WellFormed m' := by
  obtain ⟨hvm,hallocs⟩ := hrejects
  obtain ⟨hkeyed,hnonempty,hapart,hinside,hgadget⟩ := h
  constructor <;> simpa only [hvm, hallocs]

lemma WellFormed.unmap (h : WellFormed m) (addr size : ℕ) : WellFormed (m.unmap addr size) := by
  unfold VmMemoryManager.unmap
  dsimp only
  split_ifs
  · exact h
  · refine ⟨?_,?_,h.apart.filter _,?_,?_⟩
    · exact fun entry he => h.keyed entry (List.mem_filter.mp he).1
    · exact fun entry he => h.nonempty entry (List.mem_filter.mp he).1
    · exact fun entry he => h.inside entry (List.mem_filter.mp he).1
    · obtain ⟨entry,he,hstart,hstop⟩ := h.gadget
      have hkey := h.keyed entry he
      refine ⟨entry,List.mem_filter.mpr ⟨he,?_⟩,hstart,hstop⟩
      simp [hkey, hstart]

lemma WellFormed.protect (h : WellFormed m) (addr size : ℕ) (prot : MemoryProtection) :
    WellFormed (m.protect addr size prot) := by
  obtain ⟨f,hallocs,hf⟩ := protect_allocations m addr size prot
  have hkeep : ∀ entry ∈ (m.protect addr size prot).allocations, ∃ entry' ∈ m.allocations,
      entry.1 = entry'.1 ∧ entry.2.start = entry'.2.start ∧ entry.2.stop = entry'.2.stop := by
    intro entry he
    rw [hallocs] at he
    obtain ⟨entry',he',rfl⟩ := List.mem_map.mp he
    exact ⟨entry',he',hf entry'⟩
  refine ⟨?_,?_,?_,?_,?_⟩
  · intro entry he
    obtain ⟨entry',he',hkey,hstart,-⟩ := hkeep entry he
    rw [hkey, hstart, h.keyed entry' he']
  · intro entry he
    obtain ⟨entry',he',-,hstart,hstop⟩ := hkeep entry he
    rw [hstart, hstop]
    exact h.nonempty entry' he'
  · rw [hallocs]
    refine List.pairwise_map.mpr (h.apart.imp fun {a b} hab => ?_)
    simpa only [Apart, (hf a).2, (hf b).2] using hab
  · intro entry he
    obtain ⟨entry',he',-,hstart,hstop⟩ := hkeep entry he
    rw [hstart, hstop]
    exact h.inside entry' he'
  · obtain ⟨entry,he,hstart,hstop⟩ := h.gadget
    refine ⟨f entry,hallocs ▸ List.mem_map_of_mem he,?_,?_⟩
    · rw [(hf entry).2.1, hstart]
    · rw [(hf entry).2.2, hstop]

end Steps

inductive MapCall where
  | map (addr size : ℕ) (prot : MemoryProtection) (name : Option String)
  | mapAligned (addr size align : ℕ) (prot : MemoryProtection) (name : Option String)
  | unmap (addr size : ℕ)
  | protect (addr size : ℕ) (prot : MemoryProtection)

/-- What an allocate-anywhere request was given. -/
structure Placement where
  base : ℕ
  size : ℕ
  align : ℕ

def Placement.Sound (p : Placement) : Prop :=
  (directMemoryPoolEnd ≤ p.base ∨ p.base+p.size ≤ directMemoryPoolBase) ∧ max p.align 0x4000 ∣ p.base

/-- The manager, and the placements it has made so far. -/
structure TableRun where
  manager : VmMemoryManager
  placed : List Placement

namespace TableRun

def mapped (s : TableRun) (addr size align : ℕ) (prot : MemoryProtection) (name : Option String) :
    TableRun :=
  let (m,result) := s.manager.mapAligned addr size align prot name
  match addr,result with
  | 0,.ok base => ⟨m,⟨base,size,align⟩ :: s.placed⟩
  | _,_ => ⟨m,s.placed⟩

def step (s : TableRun) : MapCall → Option TableRun
  | .map addr size prot name => some (s.mapped addr size 0 prot name)
  | .mapAligned addr size align prot name => some (s.mapped addr size align prot name)
  | .unmap addr size => some ⟨s.manager.unmap addr size,s.placed⟩
  | .protect addr size prot => some ⟨s.manager.protect addr size prot,s.placed⟩

def Initial (vm : GuestVm) (s : TableRun) : Prop := s = ⟨new vm,[]⟩

def Admits (s : TableRun) : MapCall → Prop
  | .mapAligned _ _ align _ _ => IsAlign s.manager.vm align
  | _ => True

/-- No placement begins with a free place below the arena, where only a wrapped cursor leads. -/
def Careful (s : TableRun) (call : MapCall) : Prop :=
  s.Admits call ∧ match call with
    | .map addr size _ _ => addr = 0 → s.manager.Unwrapped size 0 s.manager.heapCursor
    | .mapAligned addr size align _ _ =>
        addr = 0 → s.manager.Unwrapped size align s.manager.heapCursor
    | _ => True

structure Sound (s : TableRun) : Prop where
  table : WellFormed s.manager
  placed : ∀ p ∈ s.placed, p.Sound

variable {s s' : TableRun} {vm : GuestVm}

lemma wellFormed_new (vm : GuestVm) : WellFormed (new vm) := by
  have hpage := vm.gadgetPage
  refine ⟨?_,?_,List.pairwise_singleton _ _,?_,⟨_,List.mem_singleton_self _,rfl,rfl⟩⟩
  · rintro entry he
    obtain rfl := List.mem_singleton.mp he
    rfl
  · rintro entry he
    obtain rfl := List.mem_singleton.mp he
    decide
  · rintro entry he
    obtain rfl := List.mem_singleton.mp he
    exact ⟨by decide,hpage⟩

lemma mapped_of_error {addr size align : ℕ} {prot : MemoryProtection} {name : Option String}
    {m : VmMemoryManager} {e : MapError}
    (h : s.manager.mapAligned addr size align prot name = (m,.error e)) :
    s.mapped addr size align prot name = ⟨m,s.placed⟩ := by
  rw [mapped, h]
  cases addr <;> rfl

lemma mapped_manager (addr size align : ℕ) (prot : MemoryProtection) (name : Option String) :
    (s.mapped addr size align prot name).manager =
      (s.manager.mapAligned addr size align prot name).1 := by
  rw [mapped]
  generalize s.manager.mapAligned addr size align prot name = r
  obtain ⟨m,result⟩ := r
  cases addr <;> cases result <;> rfl

lemma Sound.mapped (h : s.Sound) {addr size align : ℕ} (prot : MemoryProtection)
    (name : Option String) (halign : IsAlign s.manager.vm align)
    (hcursor : addr = 0 → s.manager.Unwrapped size align s.manager.heapCursor) :
    (s.mapped addr size align prot name).Sound := by
  have hcases := h.table.tracked.mapAligned_cases addr size halign prot name
  unfold TableRun.mapped
  generalize s.manager.mapAligned addr size align prot name = r at hcases
  obtain ⟨m,result⟩ := r
  rcases hcases with ⟨e,rfl,hrejects⟩ | ⟨base,rfl,hmaps⟩
  · cases addr <;> exact ⟨h.table.rejects hrejects,h.placed⟩
  · have htable := h.table.maps hmaps (h.table.aboveBase hmaps.fits hcursor)
    cases addr with
    | zero =>
      refine ⟨htable,fun p hp => ?_⟩
      rcases List.mem_cons.mp hp with rfl | hp
      · exact hmaps.fits.anywhere rfl
      · exact h.placed p hp
    | succ addr => exact ⟨htable,h.placed⟩

lemma Sound.step (h : s.Sound) {call : MapCall} (hok : s.Careful call)
    (hstep : s.step call = some s') : s'.Sound := by
  cases call with
  | map addr size prot name =>
    obtain rfl := Option.some.inj hstep
    exact h.mapped prot name (.inl rfl) hok.2
  | mapAligned addr size align prot name =>
    obtain rfl := Option.some.inj hstep
    exact h.mapped prot name hok.1 hok.2
  | unmap addr size =>
    obtain rfl := Option.some.inj hstep
    exact ⟨h.table.unmap addr size,h.placed⟩
  | protect addr size prot =>
    obtain rfl := Option.some.inj hstep
    exact ⟨h.table.protect addr size prot,h.placed⟩

/-- The table stays well formed over every sequence of requests whose placements start in the
arena. -/
theorem sound_of_careful (hs : Reach step (Initial vm) Careful s) : s.Sound := by
  apply hs.invariant
  · rintro s rfl
    exact ⟨wellFormed_new vm,fun p hp => absurd hp List.not_mem_nil⟩
  · exact fun s call s' h hok hstep => h.step hok hstep

lemma mapAligned_tracked {m : VmMemoryManager} (h : Tracked m) (addr size align : ℕ)
    (prot : MemoryProtection) (name : Option String) :
    Tracked (m.mapAligned addr size align prot name).1 := by
  have hplace : ∀ (m' : VmMemoryManager) base, m'.vm = m.vm → m'.allocations = m.allocations →
      base+size ≤ m'.vm.span → Tracked (m'.place base size prot name).1 := by
    intro m' base hvm hallocs hspan
    obtain ⟨hvm',-,-⟩ := place_placedIn m' base size prot name
    have hmem : ∀ entry ∈ (m'.place base size prot name).1.allocations,
        entry = (base,region base size prot name) ∨ entry ∈ m.allocations := by
      intro entry he
      rcases place_cases m' base size prot name with ⟨-,h'⟩ | ⟨-,h'⟩
      · rw [h', mem_insertKey, hallocs] at he
        exact he.imp_right And.left
      · exact .inr (hallocs ▸ h' ▸ he)
    constructor
    · intro entry he
      rcases hmem entry he with rfl | he
      · rfl
      · exact h.keyed entry he
    · intro entry he
      rw [hvm']
      rcases hmem entry he with rfl | he
      · exact hspan
      · exact hvm ▸ h.belowSpan entry he
  unfold mapAligned findFreeRegionAligned
  dsimp only
  split_ifs with h₁ h₂ h₃ h₄ h₅
  all_goals first
    | exact h
    | exact ⟨h.keyed,h.belowSpan⟩
    | exact hplace _ _ rfl rfl (by first | omega | (dsimp only at *; omega))

/-- Whatever was asked for, the regions stand under their start and end in the arena. -/
lemma reach_tracked (hs : Reach step (Initial vm) (fun _ _ => True) s) : Tracked s.manager := by
  apply hs.invariant
  · rintro s rfl
    exact (wellFormed_new vm).tracked
  · intro s call s' h _ hstep
    cases call with
    | map addr size prot name =>
      obtain rfl := Option.some.inj hstep
      rw [mapped_manager]
      exact mapAligned_tracked h ..
    | mapAligned addr size align prot name =>
      obtain rfl := Option.some.inj hstep
      rw [mapped_manager]
      exact mapAligned_tracked h ..
    | unmap addr size =>
      obtain rfl := Option.some.inj hstep
      dsimp only [VmMemoryManager.unmap]
      split_ifs
      · exact h
      · exact ⟨fun entry he => h.keyed entry (List.mem_filter.mp he).1,
          fun entry he => h.belowSpan entry (List.mem_filter.mp he).1⟩
    | protect addr size prot =>
      obtain rfl := Option.some.inj hstep
      exact h.protect addr size prot

/-- An arena of the default span, all of whose writes go through. -/
def defaultVm : GuestVm := ⟨0x1000000000,fun _ _ => true,by decide,by decide⟩

def readWrite : MemoryProtection := ⟨true,true,false⟩

theorem sound_of_careful_heap :
    ((⟨new defaultVm,[]⟩ : TableRun).mapped 0 0x1000 0x100000 readWrite none).Sound := by
  have hreach : Reach step (Initial defaultVm) Careful
      ((⟨new defaultVm,[]⟩ : TableRun).mapped 0 0x1000 0x100000 readWrite none) :=
    .step (l := .mapAligned 0 0x1000 0x100000 readWrite none) (.start rfl)
      ⟨.inr ⟨20,by decide,by decide⟩,fun _ h => absurd h (by decide)⟩ rfl
  exact sound_of_careful hreach

section Wrap

/-- A cursor that requests too large to fit have moved. -/
def withCursor (cursor : ℕ) : VmMemoryManager := { new defaultVm with heapCursor := cursor }

lemma withCursor_span (cursor : ℕ) : (withCursor cursor).vm.span = 0x1000000000 := rfl

lemma withCursor_largest (cursor : ℕ) :
    (withCursor cursor).vm.span-guestBase = 0xFFFFF0000 := by
  rw [withCursor_span, guestBase]

/-- A placement at the cursor, when it is free there. -/
lemma findFree_of_free (m : VmMemoryManager) (base size : ℕ) (hcand : candidate m.heapCursor 0 = base)
    (hpool : inPool base size = false) (hfree : m.isMemoryFree base size) :
    m.findFreeRegionAligned size 0 = ({ m with heapCursor := wrap (base+size) },base) := by
  subst hcand
  rw [findFreeRegionAligned, show searchFuel = (2^64-1)+1 from rfl, search,
    if_neg (Bool.not_eq_true _ ▸ hpool), if_pos hfree]

lemma candidate_of_dvd {cursor : ℕ} (hdvd : 0x4000 ∣ cursor) (hlt : cursor+0x4000 ≤ 2^64) :
    candidate cursor 0 = cursor := by
  obtain ⟨k,rfl⟩ := hdvd
  rw [candidate_eq (k := 14) rfl, wrap]
  omega

/-- Past the pool a request that does not fit moves the cursor all the same. -/
lemma map_past_pool {cursor size : ℕ} (hdvd : 0x4000 ∣ cursor) (hpool : directMemoryPoolEnd ≤ cursor)
    (hlt : cursor+0x4000 ≤ 2^64) (hpos : 0 < size) (hsize : size ≤ 0xFFFFF0000)
    (hspan : 0x1000000000 < cursor+size) :
    ∃ e, (withCursor cursor).mapAligned 0 size 0 readWrite none =
      (withCursor (wrap (cursor+size)),.error e) := by
  have hcand : candidate (withCursor cursor).heapCursor 0 = cursor := candidate_of_dvd hdvd hlt
  have hfree : (withCursor cursor).isMemoryFree cursor size := by
    refine isMemoryFree_iff.mpr fun entry he => .inl ?_
    obtain rfl := List.mem_singleton.mp he
    exact le_trans (by decide) hpool
  have hfind := findFree_of_free _ _ _ hcand (inPool_eq_false.mpr (.inl hpool)) hfree
  unfold mapAligned
  rw [if_neg (Nat.pos_iff_ne_zero.mp hpos), if_pos rfl, withCursor_largest,
    if_neg (not_lt.mpr hsize), hfind]
  dsimp only
  split_ifs with hover hbeyond
  · exact ⟨_,rfl⟩
  · exact ⟨_,rfl⟩
  · exact absurd hspan hbeyond

lemma reach_mapped {s : TableRun} (h : Reach step (Initial vm) Admits s) (addr size : ℕ) :
    Reach step (Initial vm) Admits (s.mapped addr size 0 readWrite none) :=
  .step (l := .map addr size readWrite none) h trivial rfl

lemma reach_withCursor {cursor : ℕ} (size : ℕ) (hdvd : 0x4000 ∣ cursor)
    (hpool : directMemoryPoolEnd ≤ cursor) (hlt : cursor+0x4000 ≤ 2^64) (hpos : 0 < size)
    (hsize : size ≤ 0xFFFFF0000) (hspan : 0x1000000000 < cursor+size)
    (h : Reach step (Initial defaultVm) Admits ⟨withCursor cursor,[]⟩) :
    Reach step (Initial defaultVm) Admits ⟨withCursor (wrap (cursor+size)),[]⟩ := by
  obtain ⟨e,he⟩ := map_past_pool hdvd hpool hlt hpos hsize hspan
  have hreach := reach_mapped h 0 size
  rwa [mapped_of_error (s := ⟨withCursor cursor,[]⟩) he] at hreach

/-- The first request jumps over the pool, and each one after it climbs. -/
lemma reach_climbed {largest : ℕ} (hlargest : largest = 0xFFFFF0000) (n : ℕ)
    (hn : 0xA40000000+(n+1)*largest < 2^64) :
    Reach step (Initial defaultVm) Admits ⟨withCursor (0xA40000000+(n+1)*largest),[]⟩ := by
  have hend : directMemoryPoolEnd = 0xA40000000 := rfl
  induction n with
  | zero =>
    have hfind : (new defaultVm).findFreeRegionAligned 0xFFFFF0000 0 =
        (withCursor (0xA40000000+0xFFFFF0000),0xA40000000) := by
      rw [findFreeRegionAligned, show searchFuel = (2^64-2)+1+1 from rfl, search,
        if_pos (by decide), search, if_neg (by decide), if_pos (by decide)]
      rw [show candidate directMemoryPoolEnd 0 = 0xA40000000 by decide]
      rfl
    have hfirst : (new defaultVm).mapAligned 0 0xFFFFF0000 0 readWrite none =
        (withCursor (0xA40000000+0xFFFFF0000),.error .beyondSpan) := by
      rw [mapAligned, if_neg (by decide), if_pos rfl, if_neg (by decide), hfind]
      dsimp only
      rw [if_neg (by decide), withCursor_span, if_pos (by decide)]
    have hreach := reach_mapped (.start (rfl : Initial defaultVm ⟨new defaultVm,[]⟩)) 0 0xFFFFF0000
    rw [mapped_of_error (s := ⟨new defaultVm,[]⟩) hfirst] at hreach
    rwa [hlargest, Nat.zero_add, Nat.one_mul]
  | succ n ih =>
    rw [Nat.succ_mul, ← Nat.add_assoc] at hn ⊢
    have hdvd : 0x4000 ∣ (n+1)*largest := Dvd.dvd.mul_left (hlargest ▸ by decide) _
    have hnext := reach_withCursor largest (by omega) (by omega) (by omega) (by omega)
      (by omega) (by omega) (ih (by omega))
    rwa [wrap, Nat.mod_eq_of_lt (by omega)] at hnext

/-- At the top of the address space the cursor wraps, and the next request is given address 0. -/
theorem not_sound_wrapped : ¬∀ vm s, Reach step (Initial vm) Admits s → s.Sound := by
  intro h
  have htop := reach_climbed rfl 268435710 (by decide)
  have hwrapped := reach_withCursor 0x5C0FF0000 (by decide) (by decide) (by decide)
    (by decide) (by decide) (by decide) htop
  rw [show wrap (0xA40000000+(268435710+1)*0xFFFFF0000+0x5C0FF0000) = 0 by decide] at hwrapped
  have hinside := (h _ _ (reach_mapped hwrapped 0 0x1000)).table.inside
  have hfind := findFree_of_free (withCursor 0) 0 0x1000 (by decide)
    (by decide) (by decide)
  rw [show wrap (0+0x1000) = 0x1000 by decide] at hfind
  have hmapped : (withCursor 0).mapAligned 0 0x1000 0 readWrite none =
      (withCursor 0x1000).place 0 0x1000 readWrite none := by
    rw [mapAligned, if_neg (by decide), if_pos rfl, if_neg (by decide), hfind]
    dsimp only
    rw [if_neg (by decide), withCursor_span, if_neg (by decide)]
    rfl
  have hregion : (0,region 0 0x1000 readWrite none) ∈
      ((withCursor 0x1000).place 0 0x1000 readWrite none).1.allocations := by decide
  rw [mapped_manager, hmapped] at hinside
  exact absurd (hinside _ hregion).1 (by decide)

end Wrap

end TableRun

end Unemups4.Memory

import Unemups4.Intervals
import Unemups4.VmaRuns

/-! What a request for a mapping comes to, whatever alignment it asks for: the place that it is given,
the cursor that it leaves, and what it zeroes and notes there. The regions of the table stay in order
and apart over every sequence of requests. -/
namespace Unemups4.Memory
open Transition (Reach)
open Intervals (Ordered)

namespace VmMemoryManager

variable {m : VmMemoryManager} {addr size align base cursor : ℕ} {prot : MemoryProtection}
  {name : Option String}

lemma zeroFill_closed (m : VmMemoryManager) (cs : List (ℕ × ℕ)) :
    m.zeroFill cs = ({ m with stores := ((cs.takeWhile fun c => m.vm.accepts c.1 c.2).map
      fun c => Store.zero c.1 c.2).reverse ++ m.stores },cs.all fun c => m.vm.accepts c.1 c.2) := by
  induction cs generalizing m with
  | nil => rfl
  | cons c cs ih =>
    rw [zeroFill]
    split_ifs with h
    · rw [ih]
      simp [h]
    · simp [h]

/-- What a placement zeroes: the chunks of what was mapped in its range before. -/
def staleChunks (m : VmMemoryManager) (addr size : ℕ) : List (ℕ × ℕ) :=
  (m.previouslyMappedParts addr (addr+size)).flatMap fun part => chunks part.1 part.2

def zeroed (cs : List (ℕ × ℕ)) : List Store := (cs.map fun c => Store.zero c.1 c.2).reverse

lemma place_closed (m : VmMemoryManager) (addr size : ℕ) (prot : MemoryProtection)
    (name : Option String) : m.place addr size prot name =
      if (m.staleChunks addr size).all fun c => m.vm.accepts c.1 c.2 then
        ({ m.noteEverMapped addr (addr+size) with
          allocations := insertKey addr (region addr size prot name) m.allocations
          stores := zeroed (m.staleChunks addr size) ++ m.stores },.ok addr)
      else
        ({ m with stores := zeroed ((m.staleChunks addr size).takeWhile
          fun c => m.vm.accepts c.1 c.2) ++ m.stores },.error .zeroFill) := by
  unfold place
  dsimp only
  rw [zeroFill_closed]
  dsimp only
  by_cases h : (m.staleChunks addr size).all fun c => m.vm.accepts c.1 c.2
  · have htake : (m.staleChunks addr size).takeWhile (fun c => m.vm.accepts c.1 c.2) =
        m.staleChunks addr size := List.takeWhile_eq_self_iff.mpr (List.all_eq_true.mp h)
    unfold staleChunks at *
    rw [if_pos h, if_pos h, htake]
    rfl
  · unfold staleChunks at *
    rw [if_neg h, if_neg h]
    rfl

/-- The cursor that a request leaves, and the place that it is given. -/
def locate (m : VmMemoryManager) (addr size align : ℕ) : ℕ × Except MapError ℕ :=
  if size = 0 then (m.heapCursor,.error .zeroLength)
  else if addr = 0 then
    if m.vm.span-guestBase < size then (m.heapCursor,.error .beyondSpan)
    else
      let found := m.search size align searchFuel m.heapCursor
      (found.2,if 2^64 ≤ found.1+size then .error .sizeOverflow
        else if m.vm.span < found.1+size then .error .beyondSpan else .ok found.1)
  else
    (m.heapCursor,if addr < guestBase then .error .belowGuestBase
      else if 2^64 ≤ addr+size then .error .sizeOverflow
      else if m.vm.span < addr+size then .error .beyondSpan
      else if ¬m.isMemoryFree addr size then .error .collision else .ok addr)

/-- A request moves the cursor, and what it is placed at does not depend on that. -/
lemma mapAligned_eq (m : VmMemoryManager) (addr size align : ℕ) (prot : MemoryProtection)
    (name : Option String) : m.mapAligned addr size align prot name =
      match m.locate addr size align with
      | (cursor,.error e) => ({ m with heapCursor := cursor },.error e)
      | (cursor,.ok base) => { m with heapCursor := cursor }.place base size prot name := by
  unfold mapAligned locate findFreeRegionAligned
  dsimp only
  split_ifs <;> rfl

/-- A search that comes to a place comes to a free one. -/
lemma search_open (m : VmMemoryManager) (size align fuel cursor : ℕ) :
    (m.search size align fuel cursor).1 = 2^64 ∨
      (m.isMemoryFree (m.search size align fuel cursor).1 size ∧
        inPool (m.search size align fuel cursor).1 size = false ∧
        (m.search size align fuel cursor).2 = wrap ((m.search size align fuel cursor).1+size)) := by
  induction fuel generalizing cursor with
  | zero => exact .inl rfl
  | succ fuel ih =>
    rw [search]
    split_ifs with hpool hfree
    · exact ih _
    · exact .inr ⟨hfree,by simpa using hpool,rfl⟩
    · exact ih _

/-- Where a request that is given a place is given it. -/
structure Located (m : VmMemoryManager) (addr size base : ℕ) : Prop where
  pos : 0 < size
  belowSpan : base+size ≤ m.vm.span
  free : m.isMemoryFree base size
  explicit : addr ≠ 0 → base = addr ∧ guestBase ≤ base
  anywhere : addr = 0 → inPool base size = false

lemma locate_ok (h : m.locate addr size align = (cursor,.ok base)) : Located m addr size base := by
  have hspan := m.vm.userSpace
  unfold locate at h
  dsimp only at h
  split_ifs at h with hzero haddr hbig hover hbeyond hbase hover hbeyond hfree
  all_goals cases h
  · rcases m.search_open size align searchFuel m.heapCursor with hnone | ⟨hfree,hpool,-⟩
    · omega
    · exact ⟨Nat.pos_of_ne_zero hzero,not_lt.mp hbeyond,hfree,fun hcon => absurd haddr hcon,
        fun _ => hpool⟩
  · exact ⟨Nat.pos_of_ne_zero hzero,not_lt.mp hbeyond,hfree,fun _ => ⟨rfl,not_lt.mp hbase⟩,
      fun hcon => absurd hcon haddr⟩

lemma Located.apart (h : Located m addr size base) {entry : ℕ × MemoryVma}
    (he : entry ∈ m.allocations) : entry.2.stop ≤ base ∨ base+size ≤ entry.2.start := by
  have hspan := h.belowSpan.trans m.vm.userSpace
  have hfree := isMemoryFree_iff.mp h.free entry he
  rwa [wrap, Nat.mod_eq_of_lt (by omega)] at hfree

end VmMemoryManager

open VmMemoryManager

/-- A request that goes through: its region goes in, and what was mapped there before is zeroed. -/
structure Lands (m m' : VmMemoryManager) (addr size base : ℕ) (prot : MemoryProtection)
    (name : Option String) : Prop where
  vm : m'.vm = m.vm
  allocations : m'.allocations = insertKey base (region base size prot name) m.allocations
  everMapped : m'.everMapped = (m.noteEverMapped base (base+size)).everMapped
  stores : m'.stores = zeroed (m.staleChunks base size) ++ m.stores
  located : Located m addr size base

/-- One that does not: all that it may leave is the cursor, and zeroes where nothing is mapped. -/
structure Refuses (m m' : VmMemoryManager) : Prop where
  vm : m'.vm = m.vm
  allocations : m'.allocations = m.allocations
  everMapped : m'.everMapped = m.everMapped
  stores : ∃ cs, m'.stores = zeroed cs ++ m.stores

lemma mapAligned_cases (m : VmMemoryManager) (addr size align : ℕ) (prot : MemoryProtection)
    (name : Option String) :
    (∃ e, (m.mapAligned addr size align prot name).2 = .error e ∧
      Refuses m (m.mapAligned addr size align prot name).1) ∨
    ∃ base, (m.mapAligned addr size align prot name).2 = .ok base ∧
      Lands m (m.mapAligned addr size align prot name).1 addr size base prot name := by
  rw [mapAligned_eq]
  cases hlocate : m.locate addr size align with
  | mk cursor result =>
    cases result with
    | error e => exact .inl ⟨e,rfl,rfl,rfl,rfl,[],rfl⟩
    | ok base =>
      dsimp only
      rw [place_closed]
      split_ifs
      · exact .inr ⟨base,rfl,rfl,rfl,rfl,rfl,locate_ok hlocate⟩
      · exact .inl ⟨_,rfl,rfl,rfl,rfl,_,rfl⟩

/-- The regions stand under their starts, in order and apart, and end in the arena. -/
structure Laid (m : VmMemoryManager) : Prop where
  keyed : ∀ entry ∈ m.allocations, entry.1 = entry.2.start
  belowSpan : ∀ entry ∈ m.allocations, entry.2.stop ≤ m.vm.span
  ordered : Ordered Prod.fst (fun entry => entry.2.stop) m.allocations

section Laid

variable {m m' : VmMemoryManager} {addr size base : ℕ} {prot : MemoryProtection} {name : Option String}

lemma Laid.refuses (h : Laid m) (hrefuses : Refuses m m') : Laid m' := by
  obtain ⟨hvm,hallocs,-,-⟩ := hrefuses
  obtain ⟨hkeyed,hspan,hordered⟩ := h
  constructor <;> simpa only [hvm, hallocs]

lemma Laid.lands (h : Laid m) (hlands : Lands m m' addr size base prot name) : Laid m' := by
  obtain ⟨hvm,hallocs,-,-,hlocated⟩ := hlands
  have hpos := hlocated.pos
  have hnew : ∀ entry ∈ m'.allocations,
      entry = (base,region base size prot name) ∨ entry ∈ m.allocations := by
    intro entry he
    rw [hallocs, mem_insertKey] at he
    exact he.imp_right And.left
  have hkeyed : ∀ entry ∈ m'.allocations, entry.1 = entry.2.start := by
    intro entry he
    rcases hnew entry he with rfl | he
    · rfl
    · exact h.keyed entry he
  refine ⟨hkeyed,?_,Intervals.ordered_of_sorted ?_ ?_ ?_⟩
  · intro entry he
    rw [hvm]
    rcases hnew entry he with rfl | he
    · exact hlocated.belowSpan
    · exact h.belowSpan entry he
  · intro entry he
    rcases hnew entry he with rfl | he
    · exact Nat.lt_add_of_pos_right hpos
    · exact h.ordered.nonempty entry he
  · rw [hallocs]
    exact insertKey_sorted (h.ordered.lo_lt.imp le_of_lt)
  · rw [hallocs, insertKey_perm.pairwise_iff fun {_ _} => Or.symm]
    refine List.pairwise_cons.mpr ⟨fun entry he => ?_,(h.ordered.apart.imp Or.inl).filter _⟩
    have hmem := (List.mem_filter.mp he).1
    rw [h.keyed entry hmem]
    exact (hlocated.apart hmem).symm

lemma Laid.unmap (h : Laid m) (addr size : ℕ) : Laid (m.unmap addr size) := by
  dsimp only [VmMemoryManager.unmap]
  split_ifs
  · exact h
  · exact ⟨fun entry he => h.keyed entry (List.mem_filter.mp he).1,
      fun entry he => h.belowSpan entry (List.mem_filter.mp he).1,
      fun entry he => h.ordered.nonempty entry (List.mem_filter.mp he).1,h.ordered.apart.filter _⟩

lemma Laid.protect (h : Laid m) (addr size : ℕ) (prot : MemoryProtection) :
    Laid (m.protect addr size prot) := by
  obtain ⟨f,hallocs,hf⟩ := protect_allocations m addr size prot
  obtain ⟨hkeyed,hspan⟩ := Tracked.protect ⟨h.keyed,h.belowSpan⟩ addr size prot
  refine ⟨hkeyed,hspan,?_,?_⟩
  · intro entry he
    rw [hallocs] at he
    obtain ⟨entry',he',rfl⟩ := List.mem_map.mp he
    rw [(hf entry').1, (hf entry').2.2]
    exact h.ordered.nonempty entry' he'
  · rw [hallocs]
    refine List.pairwise_map.mpr (h.ordered.apart.imp fun {a b} hab => ?_)
    rw [(hf a).2.2, (hf b).1]
    exact hab

lemma laid_new (vm : GuestVm) : Laid (new vm) := by
  have hpage := vm.gadgetPage
  refine ⟨?_,?_,?_,List.pairwise_singleton _ _⟩
  all_goals
    intro entry he
    obtain rfl := List.mem_singleton.mp he
  · rfl
  · exact hpage
  · exact Nat.lt_add_of_pos_right (by decide)

lemma Laid.mapAligned (h : Laid m) (addr size align : ℕ) (prot : MemoryProtection)
    (name : Option String) : Laid (m.mapAligned addr size align prot name).1 := by
  rcases mapAligned_cases m addr size align prot name with ⟨e,-,hrefuses⟩ | ⟨base,-,hlands⟩
  · exact h.refuses hrefuses
  · exact h.lands hlands

end Laid

/-- Whatever was asked for, the regions are laid out in order and apart. -/
theorem TableRun.reach_laid {vm : GuestVm} {s : TableRun}
    (hs : Reach step (Initial vm) (fun _ _ => True) s) : Laid s.manager := by
  apply hs.invariant
  · rintro s rfl
    exact laid_new vm
  · intro s call s' h _ hstep
    cases call with
    | map addr size prot name =>
      obtain rfl := Option.some.inj hstep
      rw [mapped_manager]
      exact h.mapAligned ..
    | mapAligned addr size align prot name =>
      obtain rfl := Option.some.inj hstep
      rw [mapped_manager]
      exact h.mapAligned ..
    | unmap addr size =>
      obtain rfl := Option.some.inj hstep
      exact h.unmap addr size
    | protect addr size prot =>
      obtain rfl := Option.some.inj hstep
      exact h.protect addr size prot

end Unemups4.Memory

import Unemups4.MemoryCalls

/-! The sums that the placements of a guest's mappings make, whatever addresses, lengths and alignments
it asks for. Those that the code checks are not listed; the others wrap in a release build, and a
cursor that has wrapped leads to places below the arena. -/
namespace Unemups4.Memory
open Transition (Reach)
open Words

namespace VmMemoryManager

variable (m : VmMemoryManager)

/-- The sums of a search, round by round. -/
def searchSums (size align : ℕ) : (fuel cursor : ℕ) → List Op
  | 0, _ => []
  | fuel+1, cursor =>
      let addr := candidate cursor align
      .add cursor (max align 0x4000-1) :: .add addr size ::
        if inPool addr size then searchSums size align fuel directMemoryPoolEnd
        else .add addr size ::
          if m.isMemoryFree addr size then [.add addr size]
          else .add cursor (max align 0x4000) ::
            searchSums size align fuel (wrap (cursor+max align 0x4000))

/-- The end of a placement, and that of its region. -/
def placeSums (addr size : ℕ) : List Op :=
  .add addr size ::
    if (m.staleChunks addr size).all fun c => m.vm.accepts c.1 c.2 then [.add addr size] else []

def mapAlignedSums (addr size align : ℕ) : List Op :=
  if size = 0 then []
  else if addr = 0 then
    if m.vm.span-guestBase < size then []
    else
      let found := (m.search size align searchFuel m.heapCursor).1
      .add directMemoryPoolBase directMemoryPoolSize ::
        m.searchSums size align searchFuel m.heapCursor++
        if m.vm.span < found+size then [] else m.placeSums found size
  else if addr < guestBase ∨ m.vm.span < addr+size then []
  else .add addr size :: if m.isMemoryFree addr size then m.placeSums addr size else []

/-- A place at which a search ends. -/
def Open (addr size : ℕ) : Prop := inPool addr size = false ∧ m.isMemoryFree addr size

/-- The first round of a search from a cursor is exact. -/
def RoundFits (size align cursor : ℕ) : Prop :=
  cursor+(max align 0x4000-1) < 2^64 ∧ candidate cursor align+size < 2^64

/-- No sum of a search wraps. Beyond an alignment of 2^63 only the first place that it looks at can be
given, or the first one after the pool. -/
def SearchFits (size align cursor : ℕ) : Prop :=
  RoundFits size align cursor ∧
    (max align 0x4000 ≤ 2^63 ∨ m.Open (candidate cursor align) size ∨
      (inPool (candidate cursor align) size ∧ RoundFits size align directMemoryPoolEnd ∧
        m.Open (candidate directMemoryPoolEnd align) size))

/-- A request without an address, and with a size that the arena can hold, is searched for. -/
def Fitting (addr size align : ℕ) : Prop :=
  addr = 0 → size ≠ 0 → size ≤ m.vm.span-guestBase → m.SearchFits size align m.heapCursor

end VmMemoryManager

def unmapSums : List Op := [.add directMemoryPoolBase directMemoryPoolSize,.add gadgetAddr 0x1000]

/-- What a guest asks for; a reservation is given its slot's value as the request. -/
inductive GuestCall where
  | mmap (addr len : UInt64) (prot flags : UInt32) (fd offset : ℤ)
  | munmap (addr len : UInt64)
  | reserveVirtualRange (requested length alignment : UInt64)
  | mapDirectMemory (physOff len : UInt64)

/-- The process, and the sums that its calls have made so far. -/
structure SumRun where
  process : Process
  sums : List Op

namespace Process

variable (p : Process)

def mmapAlignedSums (addr len align : ℕ) (flags : UInt32) : List Op :=
  p.memory.mapAlignedSums (targetAddr addr flags) len align

/-- The sums of a call; a file that cannot be read has its mapping taken back. -/
def sums : GuestCall → List Op
  | .mmap addr len prot flags fd offset =>
      p.mmapAlignedSums addr.toNat len.toNat 0 flags++
        if (p.mmap addr.toNat len.toNat prot flags fd offset).2 = .error 9 then unmapSums else []
  | .munmap _ _ => unmapSums
  | .reserveVirtualRange requested length alignment =>
      p.mmapAlignedSums requested.toNat length.toNat alignment.toNat 0x1002
  | .mapDirectMemory physOff len =>
      .add directMemoryPoolBase physOff.toNat ::
        p.mmapAlignedSums (DirectMemory.physToVa physOff.toNat) (max len.toNat 1) 0 0x1012

def serve : GuestCall → Process
  | .mmap addr len prot flags fd offset =>
      (p.mmap addr.toNat len.toNat prot flags fd offset).1
  | .munmap addr len => p.munmap addr.toNat len.toNat
  | .reserveVirtualRange requested length alignment =>
      (p.mmapAligned requested.toNat length.toNat alignment.toNat 3 0x1002 (-1) 0).1
  | .mapDirectMemory physOff len => (p.mapDirectMemory physOff.toNat len.toNat).1

end Process

namespace SumRun

def Initial (vm : GuestVm) (s : SumRun) : Prop := s.process.memory = .new vm ∧ s.sums = []

def step (s : SumRun) (call : GuestCall) : Option SumRun :=
  some ⟨s.process.serve call,s.process.sums call++s.sums⟩

/-- The search of a call fits, and a direct-memory offset has an address. -/
def Careful (s : SumRun) : GuestCall → Prop
  | .mmap addr len _ flags _ _ =>
      s.process.memory.Fitting (Process.targetAddr addr.toNat flags) len.toNat 0
  | .munmap _ _ => True
  | .reserveVirtualRange _ length alignment =>
      s.process.memory.Fitting 0 length.toNat alignment.toNat
  | .mapDirectMemory physOff _ => directMemoryPoolBase+physOff.toNat < 2^64

end SumRun

section Bits

lemma andNot_add (n m : ℕ) : andNot n m+m = n ||| m := by
  induction n using Nat.strong_induction_on generalizing m with
  | h n ih =>
    by_cases hn : n = 0
    · simp [hn, andNot]
    · have hhalf := ih (n/2) (by omega) (m/2)
      have hdiv : andNot n m/2 = andNot (n/2) (m/2) := by
        rw [andNot, andNot, Nat.xor_div_two, Nat.and_div_two]
      have hdiv' : (n ||| m)/2 = n/2 ||| m/2 := Nat.or_div_two
      have hmod : (andNot n m)%2 = (n+(n &&& m))%2 := Nat.xor_mod_two_eq
      have hand : (n &&& m)%2 = 1 ↔ n%2 = 1 ∧ m%2 = 1 := Nat.and_mod_two_eq_one
      have hor : (n ||| m)%2 = 1 ↔ n%2 = 1 ∨ m%2 = 1 := Nat.or_mod_two_eq_one
      omega

lemma andNot_le (n m : ℕ) : andNot n m ≤ n := by
  induction n using Nat.strong_induction_on generalizing m with
  | h n ih =>
    by_cases hn : n = 0
    · simp [hn, andNot]
    · have hhalf := ih (n/2) (by omega) (m/2)
      have hdiv : andNot n m/2 = andNot (n/2) (m/2) := by
        rw [andNot, andNot, Nat.xor_div_two, Nat.and_div_two]
      have hmod : (andNot n m)%2 = (n+(n &&& m))%2 := Nat.xor_mod_two_eq
      have hand : (n &&& m)%2 = 1 ↔ n%2 = 1 ∧ m%2 = 1 := Nat.and_mod_two_eq_one
      omega

/-- A bit above those that are taken away stays. -/
lemma le_andNot {n m k : ℕ} (hn : 2^k ≤ n) (hn' : n < 2^(k+1)) (hm : m < 2^k) : 2^k ≤ andNot n m := by
  apply Nat.ge_two_pow_of_testBit
  have hbit : n.testBit k = true := by
    rw [Nat.testBit_eq_decide_div_mod_eq, decide_eq_true_eq]
    have hdiv : n/2^k = 1 := by
      rw [Nat.div_eq_iff (Nat.two_pow_pos k)]
      rw [Nat.pow_succ] at hn'
      omega
    rw [hdiv]
  rw [andNot, Nat.testBit_xor, Nat.testBit_and, hbit, Nat.testBit_lt_two_pow hm]
  rfl

end Bits

namespace VmMemoryManager

variable {m : VmMemoryManager} {addr size align cursor fuel : ℕ}

/-- Without a wrap the candidate lies from the cursor on, and an alignment below the end. -/
lemma candidate_bounds (h : cursor+(max align 0x4000-1) < 2^64) :
    cursor ≤ candidate cursor align ∧ candidate cursor align ≤ cursor+(max align 0x4000-1) ∧
      candidate cursor align+(max align 0x4000-1) < 2^64 := by
  have hadd := andNot_add (cursor+(max align 0x4000-1)) (max align 0x4000-1)
  have hle := andNot_le (cursor+(max align 0x4000-1)) (max align 0x4000-1)
  have hge : cursor+(max align 0x4000-1) ≤ (cursor+(max align 0x4000-1)) ||| (max align 0x4000-1) :=
    Nat.left_le_or
  have hlt := Nat.or_lt_two_pow (n := 64) h ((Nat.le_add_left _ cursor).trans_lt h)
  unfold candidate
  rw [wrap, Nat.mod_eq_of_lt h]
  omega

lemma candidate_add_lt (hsize : size ≤ 2^47) (h : cursor+(max align 0x4000-1) < 2^64)
    (hlow : cursor+(max align 0x4000-1) < 2^63 ∨ 2^47 < max align 0x4000) :
    candidate cursor align+size < 2^64 := by
  obtain ⟨-,hle,hend⟩ := candidate_bounds h
  omega

lemma roundFits_poolEnd (hsize : size ≤ 2^47) (halign : max align 0x4000 ≤ 2^63) :
    RoundFits size align directMemoryPoolEnd := by
  have hpool : directMemoryPoolEnd < 2^47 := by decide
  have hsum : directMemoryPoolEnd+(max align 0x4000-1) < 2^64 := by omega
  exact ⟨hsum,candidate_add_lt hsize hsum (by omega)⟩

/-- The candidate after the pool does not meet it. -/
lemma inPool_poolEnd (h : directMemoryPoolEnd+(max align 0x4000-1) < 2^64) :
    inPool (candidate directMemoryPoolEnd align) size = false :=
  inPool_eq_false.mpr (.inl (candidate_bounds h).1)

/-- A place that is taken lies in the arena, and leaves the next round room up to a half of the
words. -/
lemma RoundFits.next (h : RoundFits size align cursor) (hsize : size ≤ 2^47)
    (halign : max align 0x4000 ≤ 2^63) (hlow : candidate cursor align < 2^47) :
    cursor+max align 0x4000 < 2^64 ∧ RoundFits size align (cursor+max align 0x4000) := by
  obtain ⟨hsum,-⟩ := h
  obtain ⟨hge,-,-⟩ := candidate_bounds hsum
  have hbit : cursor+(max align 0x4000-1) < 2^63 := by
    by_contra hcon
    have hhigh := le_andNot (k := 63) (not_lt.mp hcon) hsum (m := max align 0x4000-1) (by omega)
    rw [candidate, wrap, Nat.mod_eq_of_lt hsum] at hlow
    omega
  have hnext : cursor+max align 0x4000+(max align 0x4000-1) < 2^64 := by omega
  exact ⟨by omega,hnext,candidate_add_lt hsize hnext (by omega)⟩

lemma lt_of_taken (hregions : ∀ entry ∈ m.allocations, entry.2.stop ≤ 2^47)
    (h : ¬m.isMemoryFree addr size) : addr < 2^47 := by
  obtain ⟨entry,he,hstop,-⟩ := exists_region_of_taken h
  exact hstop.trans_le (hregions entry he)

/-- Up to an alignment of half of the words, a search whose first round fits is exact. -/
lemma searchSums_exact (hregions : ∀ entry ∈ m.allocations, entry.2.stop ≤ 2^47)
    (hsize : size ≤ 2^47) (halign : max align 0x4000 ≤ 2^63) (h : RoundFits size align cursor) :
    Exact (m.searchSums size align fuel cursor) := by
  induction fuel generalizing cursor with
  | zero => exact exact_nil
  | succ fuel ih =>
    obtain ⟨hround,hplace⟩ := h
    rw [searchSums, exact_cons, exact_cons]
    refine ⟨hround,hplace,?_⟩
    split_ifs with hpool hfree
    · exact ih (roundFits_poolEnd hsize halign)
    · simpa [Op.Exact] using hplace
    · obtain ⟨hword,hnext⟩ := RoundFits.next ⟨hround,hplace⟩ hsize halign (lt_of_taken hregions hfree)
      rw [exact_cons, exact_cons, wrap, Nat.mod_eq_of_lt hword]
      exact ⟨hplace,hword,ih hnext⟩

/-- Beyond that a round after a taken place is not. -/
lemma not_exact_next (halign : 2^63 < max align 0x4000) :
    ¬Exact (.add cursor (max align 0x4000) ::
      m.searchSums size align (fuel+1) (wrap (cursor+max align 0x4000))) := by
  rw [exact_cons, searchSums, exact_cons]
  rintro ⟨hword,hround,-⟩
  have hword' : cursor+max align 0x4000 < 2^64 := hword
  rw [wrap, Nat.mod_eq_of_lt hword'] at hround
  have hround' : cursor+max align 0x4000+(max align 0x4000-1) < 2^64 := hround
  omega

/-- A search that ends in its first round. -/
lemma searchSums_exact_of_open (h : RoundFits size align cursor)
    (hopen : m.Open (candidate cursor align) size) :
    Exact (m.searchSums size align (fuel+1) cursor) := by
  obtain ⟨hround,hplace⟩ := h
  rw [searchSums]
  rw [if_neg (by simp [hopen.1]), if_pos hopen.2]
  simpa [Op.Exact] using ⟨hround,hplace⟩

/-- A round that is exact ends the search where the alignment is beyond half of the words. -/
lemma open_of_exact (halign : 2^63 < max align 0x4000)
    (hpool : inPool (candidate cursor align) size = false)
    (h : Exact (m.searchSums size align (fuel+2) cursor)) :
    m.Open (candidate cursor align) size := by
  refine ⟨hpool,?_⟩
  by_contra hfree
  rw [searchSums] at h
  rw [if_neg (by simp [hpool]), if_neg hfree, exact_cons, exact_cons, exact_cons] at h
  exact not_exact_next halign h.2.2.2

lemma roundFits_of_exact (h : Exact (m.searchSums size align (fuel+1) cursor)) :
    RoundFits size align cursor := by
  rw [searchSums, exact_cons, exact_cons] at h
  exact ⟨h.1,h.2.1⟩

/-- Which searches make sums that are words. -/
lemma searchSums_exact_iff (hregions : ∀ entry ∈ m.allocations, entry.2.stop ≤ 2^47)
    (hsize : size ≤ 2^47) :
    Exact (m.searchSums size align (fuel+3) cursor) ↔ m.SearchFits size align cursor := by
  constructor
  · intro h
    have hround := roundFits_of_exact h
    refine ⟨hround,?_⟩
    by_cases halign : max align 0x4000 ≤ 2^63
    · exact .inl halign
    · right
      by_cases hpool : inPool (candidate cursor align) size
      · right
        rw [searchSums] at h
        rw [if_pos hpool, exact_cons, exact_cons] at h
        have hround' := roundFits_of_exact h.2.2
        exact ⟨hpool,hround',open_of_exact (not_le.mp halign) (inPool_poolEnd hround'.1) h.2.2⟩
      · exact .inl (open_of_exact (not_le.mp halign) (by simpa using hpool) h)
  · rintro ⟨hround,halign | hopen | ⟨hpool,hround',hopen⟩⟩
    · exact searchSums_exact hregions hsize halign hround
    · exact searchSums_exact_of_open hround hopen
    · rw [searchSums]
      rw [if_pos hpool, exact_cons, exact_cons]
      exact ⟨hround.1,hround.2,searchSums_exact_of_open hround' hopen⟩

/-- An exact search goes forward. -/
lemma search_forward (h : Exact (m.searchSums size align fuel cursor)) :
    min cursor (2^64) ≤ (m.search size align fuel cursor).1 ∧
      cursor ≤ (m.search size align fuel cursor).2 := by
  induction fuel generalizing cursor with
  | zero => exact ⟨min_le_right _ _,le_refl _⟩
  | succ fuel ih =>
    obtain ⟨hround,hplace⟩ := roundFits_of_exact h
    obtain ⟨hge,-,-⟩ := candidate_bounds hround
    rw [searchSums] at h
    rw [search]
    split_ifs with hpool hfree
    · have hbelow : candidate cursor align < directMemoryPoolEnd := by
        by_contra hcon
        rw [inPool_eq_false.mpr (.inl (not_lt.mp hcon))] at hpool
        cases hpool
      rw [if_pos hpool, exact_cons, exact_cons] at h
      obtain ⟨hfound,hnext⟩ := ih h.2.2
      exact ⟨by omega,by omega⟩
    · rw [wrap, Nat.mod_eq_of_lt hplace]
      exact ⟨by omega,by omega⟩
    · rw [if_neg hpool, if_neg hfree, exact_cons, exact_cons, exact_cons, exact_cons] at h
      have hword : cursor+max align 0x4000 < 2^64 := h.2.2.2.1
      have hrest := h.2.2.2.2
      rw [wrap, Nat.mod_eq_of_lt hword] at hrest ⊢
      obtain ⟨hfound,hnext⟩ := ih hrest
      exact ⟨by omega,by omega⟩

lemma placeSums_exact (m : VmMemoryManager) (h : addr+size < 2^64) :
    Exact (m.placeSums addr size) := by
  unfold placeSums
  split_ifs
  · simpa [Op.Exact] using h
  · simpa [Op.Exact] using h

/-- A request for a place of its own makes no sum that wraps. -/
lemma mapAlignedSums_exact_of_ne (m : VmMemoryManager) (haddr : addr ≠ 0) :
    Exact (m.mapAlignedSums addr size align) := by
  have hspan := m.vm.userSpace
  unfold mapAlignedSums
  rw [if_neg haddr]
  split_ifs with hzero hout hfree
  · exact exact_nil
  · exact exact_nil
  all_goals
    have hword : addr+size < 2^64 := by omega
    rw [exact_cons]
  · exact ⟨hword,placeSums_exact m hword⟩
  · exact ⟨hword,exact_nil⟩

/-- Only a search makes sums that may wrap. -/
lemma mapAlignedSums_exact_iff (hregions : ∀ entry ∈ m.allocations, entry.2.stop ≤ m.vm.span) :
    Exact (m.mapAlignedSums addr size align) ↔ m.Fitting addr size align := by
  have hspan := m.vm.userSpace
  have hpool : (Op.add directMemoryPoolBase directMemoryPoolSize).Exact := by decide
  unfold mapAlignedSums Fitting
  by_cases hzero : size = 0
  · simp [hzero]
  · by_cases haddr : addr = 0
    · by_cases hbig : m.vm.span-guestBase < size
      · simp [hzero, haddr, hbig]
      · have hsearch := @searchSums_exact_iff m size align m.heapCursor (2^64-3)
          (fun entry he => (hregions entry he).trans hspan) (by omega)
        have hplace : Exact (if m.vm.span < (m.search size align searchFuel m.heapCursor).1+size
            then [] else m.placeSums (m.search size align searchFuel m.heapCursor).1 size) := by
          split_ifs
          · exact exact_nil
          · exact placeSums_exact m (by omega)
        rw [if_neg hzero, if_pos haddr, if_neg hbig, exact_append, exact_cons]
        simp only [hpool, hplace, true_and, and_true]
        rw [show searchFuel = 2^64-3+3 from rfl, hsearch]
        exact ⟨fun h _ _ _ => h,fun h => h haddr hzero (not_lt.mp hbig)⟩
    · exact iff_of_true (m.mapAlignedSums_exact_of_ne haddr) fun hcon => absurd hcon haddr

/-- What a request does to the cursor, and where the place that it is given comes from. -/
lemma mapAligned_locate (m : VmMemoryManager) (addr size align : ℕ) (prot : MemoryProtection)
    (name : Option String) :
    (m.mapAligned addr size align prot name).1.heapCursor = (m.locate addr size align).1 ∧
      ∀ base, (m.mapAligned addr size align prot name).2 = .ok base →
        (m.locate addr size align).2 = .ok base := by
  rw [mapAligned_eq]
  cases hlocate : m.locate addr size align with
  | mk cursor result =>
    cases result with
    | error e => exact ⟨rfl,fun _ hok => hok⟩
    | ok base =>
      dsimp only
      rw [place_closed]
      split_ifs
      · exact ⟨rfl,fun _ hok => hok⟩
      · exact ⟨rfl,nofun⟩

/-- The cursor of a request that is exact goes forward, and a place that is searched for lies from the
cursor on. -/
lemma locate_forward (h : Exact (m.mapAlignedSums addr size align)) :
    m.heapCursor ≤ (m.locate addr size align).1 ∧
      ∀ base, (m.locate addr size align).2 = .ok base → addr = 0 → min m.heapCursor (2^64) ≤ base := by
  unfold mapAlignedSums at h
  unfold locate
  by_cases hzero : size = 0
  · rw [if_pos hzero]
    exact ⟨le_refl _,nofun⟩
  · rw [if_neg hzero] at h ⊢
    by_cases haddr : addr = 0
    · rw [if_pos haddr] at h ⊢
      by_cases hbig : m.vm.span-guestBase < size
      · rw [if_pos hbig]
        exact ⟨le_refl _,nofun⟩
      · rw [if_neg hbig, exact_append, exact_cons] at h
        rw [if_neg hbig]
        obtain ⟨hfound,hcursor⟩ := search_forward h.1.2
        refine ⟨hcursor,fun base hok _ => ?_⟩
        dsimp only at hok
        split_ifs at hok
        obtain rfl := Except.ok.inj hok
        exact hfound
    · rw [if_neg haddr]
      exact ⟨le_refl _,fun _ _ hcon => absurd hcon haddr⟩

end VmMemoryManager

open VmMemoryManager

/-- The regions are laid out from the guest base on, and the cursor has not wrapped. -/
structure Ahead (m : VmMemoryManager) : Prop where
  laid : Laid m
  cursor : guestBase ≤ m.heapCursor
  aboveBase : ∀ entry ∈ m.allocations, guestBase ≤ entry.2.start

section Ahead

variable {m m' : VmMemoryManager} {addr size align base : ℕ} {prot : MemoryProtection}
  {name : Option String}

lemma ahead_new (vm : GuestVm) : Ahead (new vm) := by
  refine ⟨laid_new vm,show guestBase ≤ 0x400000000 by decide,fun entry he => ?_⟩
  obtain rfl := List.mem_singleton.mp he
  decide

lemma Ahead.unmap (h : Ahead m) (addr size : ℕ) : Ahead (m.unmap addr size) := by
  refine ⟨h.laid.unmap addr size,?_,fun entry he => ?_⟩
  all_goals dsimp only [VmMemoryManager.unmap] at *; split_ifs at *
  · exact h.cursor
  · exact h.cursor
  · exact h.aboveBase entry he
  · exact h.aboveBase entry (List.mem_filter.mp he).1

lemma Ahead.mapAligned (h : Ahead m) (hexact : Exact (m.mapAlignedSums addr size align))
    (prot : MemoryProtection) (name : Option String) :
    Ahead (m.mapAligned addr size align prot name).1 := by
  obtain ⟨hforward,hplace⟩ := locate_forward hexact
  obtain ⟨hcursor,hbase⟩ := mapAligned_locate m addr size align prot name
  refine ⟨h.laid.mapAligned addr size align prot name,?_,fun entry he => ?_⟩
  · rw [hcursor]
    exact h.cursor.trans hforward
  · rcases mapAligned_cases m addr size align prot name with ⟨e,-,hrefuses⟩ | ⟨base,hok,hlands⟩
    · rw [hrefuses.allocations] at he
      exact h.aboveBase entry he
    · rw [hlands.allocations] at he
      rcases mem_insertKey.mp he with rfl | ⟨he,-⟩
      · by_cases haddr : addr = 0
        · have hfound := hplace base (hbase base hok) haddr
          exact (le_min h.cursor (by decide)).trans hfound
        · exact (hlands.located.explicit haddr).2
      · exact h.aboveBase entry he

lemma Ahead.stores (h : Ahead m) (stores : List Store) : Ahead { m with stores := stores } :=
  ⟨⟨h.laid.keyed,h.laid.belowSpan,h.laid.ordered⟩,h.cursor,h.aboveBase⟩

lemma Ahead.mmapAligned {p : Process} {addr len align : ℕ} {prot flags : UInt32} {fd offset : ℤ}
    (h : Ahead p.memory) (hexact : Exact (p.mmapAlignedSums addr len align flags)) :
    Ahead (p.mmapAligned addr len align prot flags fd offset).1.memory := by
  have hahead := h.mapAligned hexact (protectionOf prot) (some "guest_mmap")
  unfold Process.mmapAligned
  generalize p.memory.mapAligned (Process.targetAddr addr flags) len align (protectionOf prot)
    (some "guest_mmap") = r at hahead
  obtain ⟨m,result⟩ := r
  cases result with
  | error e => exact hahead
  | ok ptr =>
    dsimp only
    split_ifs
    · cases p.pread fd offset.toNat with
      | none => exact hahead.unmap ptr len
      | some data => exact hahead.stores _
    · exact hahead

end Ahead

lemma unmapSums_exact : Exact unmapSums := by decide

namespace SumRun

variable {vm : GuestVm} {s : SumRun}

/-- The sums of a call are exact on the calls that meet the condition, and on no others. -/
lemma sums_exact_iff (h : Ahead s.process.memory) (call : GuestCall) :
    Exact (s.process.sums call) ↔ s.Careful call := by
  have hregions := h.laid.belowSpan
  cases call with
  | mmap addr len prot flags fd offset =>
    have htail : Exact (if (s.process.mmap addr.toNat len.toNat prot flags fd offset).2 = .error 9
        then unmapSums else []) := by
      split_ifs
      · exact unmapSums_exact
      · exact exact_nil
    rw [Process.sums, exact_append, Process.mmapAlignedSums, mapAlignedSums_exact_iff hregions]
    exact and_iff_left htail
  | munmap addr len => exact iff_of_true unmapSums_exact trivial
  | reserveVirtualRange requested length alignment =>
    rw [Process.sums, Process.mmapAlignedSums, mapAlignedSums_exact_iff hregions]
    exact Iff.rfl
  | mapDirectMemory physOff len =>
    rw [Process.sums, exact_cons, Process.mmapAlignedSums, mapAlignedSums_exact_iff hregions]
    refine ⟨fun hsums => hsums.1,fun hword => ⟨hword,fun hzero => ?_⟩⟩
    -- the pool starts above zero, so that the address of an offset is a request of its own
    have hva : DirectMemory.physToVa physOff.toNat = directMemoryPoolBase+physOff.toNat :=
      DirectMemory.wrap_of_lt hword
    have hfixed : Process.targetAddr (directMemoryPoolBase+physOff.toNat) 0x1012 =
        directMemoryPoolBase+physOff.toNat := if_pos (by decide)
    rw [hva, hfixed] at hzero
    unfold directMemoryPoolBase at hzero
    omega

lemma Ahead.serve (h : Ahead s.process.memory) {call : GuestCall} (hcareful : s.Careful call) :
    Ahead (s.process.serve call).memory := by
  have hexact := (sums_exact_iff h call).mpr hcareful
  cases call with
  | mmap addr len prot flags fd offset => exact h.mmapAligned (exact_append.mp hexact).1
  | munmap addr len => exact h.unmap addr.toNat len.toNat
  | reserveVirtualRange requested length alignment => exact h.mmapAligned hexact
  | mapDirectMemory physOff len => exact h.mmapAligned (exact_cons.mp hexact).2

lemma exact_of_careful (hs : Reach step (Initial vm) Careful s) :
    Ahead s.process.memory ∧ Exact s.sums := by
  apply hs.invariant
  · rintro s ⟨hmemory,hsums⟩
    rw [hmemory, hsums]
    exact ⟨ahead_new vm,exact_nil⟩
  · rintro s call s' ⟨h,hsums⟩ hcareful hstep
    obtain rfl := Option.some.inj hstep
    exact ⟨Ahead.serve h hcareful,exact_append.mpr ⟨(sums_exact_iff h call).mpr hcareful,hsums⟩⟩

/-- In a run whose calls all meet the condition no sum has left the words and no region lies below
the guest base; and a call that does not meet it makes a sum that does. -/
theorem exact_and_above_base (hs : Reach step (Initial vm) Careful s) :
    Exact s.sums ∧ (∀ entry ∈ s.process.memory.allocations, guestBase ≤ entry.2.start) ∧
      ∀ call, Exact (s.process.sums call) ↔ s.Careful call := by
  obtain ⟨h,hsums⟩ := exact_of_careful hs
  exact ⟨hsums,h.aboveBase,sums_exact_iff h⟩

def startRun : SumRun :=
  ⟨⟨.new TableRun.defaultVm,.empty,fun _ => 0,fun _ _ => none⟩,[]⟩

/-- A reservation that asks for the largest alignment there is. -/
def widest : GuestCall := .reserveVirtualRange 0 1 (2^64-1)

def widestRun : SumRun := ⟨startRun.process.serve widest,startRun.process.sums widest++[]⟩

lemma widestRun_reached :
    Reach step (Initial TableRun.defaultVm) (fun _ _ => True) widestRun :=
  .step (s := startRun) (l := widest) (.start ⟨rfl,rfl⟩) trivial rfl

/-- Its first sum wraps, and the byte at address zero becomes a region. -/
theorem not_exact_widest :
    (¬∀ s, Reach step (Initial TableRun.defaultVm) (fun _ _ => True) s → Exact s.sums) ∧
    ¬∀ s, Reach step (Initial TableRun.defaultVm) (fun _ _ => True) s →
      ∀ entry ∈ s.process.memory.allocations, guestBase ≤ entry.2.start := by
  constructor
  · intro h
    exact absurd (h _ widestRun_reached) (by decide +kernel)
  · intro h
    exact absurd (h _ widestRun_reached) (by decide +kernel)

def largePages : GuestCall := .reserveVirtualRange 0x500000000 0x1000 0x100000

/-- A reservation of a page at a boundary of 1 MiB. -/
theorem exact_and_above_base_large :
    Exact (startRun.process.sums largePages++[]) ∧
      (∀ entry ∈ (startRun.process.serve largePages).memory.allocations,
        guestBase ≤ entry.2.start) ∧
      ∀ call, Exact ((startRun.process.serve largePages).sums call) ↔
        Careful ⟨startRun.process.serve largePages,startRun.process.sums largePages++[]⟩ call := by
  have hcareful : Careful startRun largePages :=
    fun _ _ _ => ⟨⟨by decide,by decide⟩,.inl (by decide)⟩
  exact exact_and_above_base (.step (s := startRun) (.start ⟨rfl,rfl⟩) hcareful rfl)

end SumRun

end Unemups4.Memory

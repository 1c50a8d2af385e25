import Unemups4.Transition

/-! The memory manager's table of guest mappings over the one arena that is host-mapped at start.
Mapping and unmapping are bookkeeping; what is written to the arena is kept as the list of stores,
the latest first. Addresses are 64-bit, and the release build lets their sums wrap. -/
namespace Unemups4.Memory
open Transition (Reach)

def guestBase : ℕ := 0x10000
def gadgetAddr : ℕ := 0x30000
def directMemoryPoolBase : ℕ := 0x900000000
def directMemoryPoolSize : ℕ := 5*1024*1024*1024
def directMemoryPoolEnd : ℕ := directMemoryPoolBase+directMemoryPoolSize

def wrap (n : ℕ) : ℕ := n % 2^64

/-- The bits of `n` without those of `m`. -/
def andNot (n m : ℕ) : ℕ := n ^^^ (n &&& m)

structure MemoryProtection where
  read : Bool
  write : Bool
  exec : Bool
  deriving DecidableEq, Repr

structure MemoryVma where
  start : ℕ
  stop : ℕ
  size : ℕ
  protection : MemoryProtection
  name : String
  deriving DecidableEq, Repr

/-- The arena from the guest base to its span, which holds the gadget page and lies in the host's
user addresses. `accepts` tells which writes go through. -/
structure GuestVm where
  span : ℕ
  accepts : (addr len : ℕ) → Bool
  gadgetPage : gadgetAddr+0x1000 ≤ span
  userSpace : span ≤ 2^47

inductive Store where
  | write (addr : ℕ) (data : List UInt8)
  | zero (addr len : ℕ)
  deriving DecidableEq, Repr

inductive MapError where
  | zeroLength
  | beyondSpan
  | sizeOverflow
  | belowGuestBase
  | collision
  | zeroFill
  deriving DecidableEq, Repr

/-- `allocations` and `everMapped` are ordered by their keys. -/
structure VmMemoryManager where
  vm : GuestVm
  allocations : List (ℕ × MemoryVma)
  heapCursor : ℕ
  everMapped : List (ℕ × ℕ)
  stores : List Store

/-- An entry of a map that is ordered by its keys goes in, in place of the one it had. -/
def insertKey {V : Type*} (key : ℕ) (value : V) (entries : List (ℕ × V)) : List (ℕ × V) :=
  (entries.filter fun entry => entry.1 ≠ key).orderedInsert (fun a b => a.1 ≤ b.1) (key,value)

namespace VmMemoryManager

def new (vm : GuestVm) : VmMemoryManager :=
  ⟨vm,[(gadgetAddr,⟨gadgetAddr,gadgetAddr+0x1000,0x1000,⟨true,false,true⟩,"hlt_gadget"⟩)],
    0x400000000,[(gadgetAddr,gadgetAddr+0x1000)],[]⟩

variable (m : VmMemoryManager)

def isMemoryFree (addr size : ℕ) : Bool :=
  m.allocations.all fun entry => ¬(addr < entry.2.stop ∧ entry.2.start < wrap (addr+size))

def previouslyMappedParts (start stop : ℕ) : List (ℕ × ℕ) :=
  let first := (((m.everMapped.filter fun e => e.1 ≤ start).getLast?.filter
    fun e => start < e.2).map Prod.fst).getD start
  let reached := (m.everMapped.filter fun e => first ≤ e.1).takeWhile fun e => e.1 < stop
  (reached.map fun e => (max e.1 start,min e.2 stop)).filter fun part => part.1 < part.2

def noteEverMapped (start stop : ℕ) : VmMemoryManager :=
  let absorbed := m.everMapped.filter fun e => e.1 ≤ stop ∧ start ≤ e.2
  let kept := m.everMapped.filter fun e => ¬(e.1 ≤ stop ∧ start ≤ e.2)
  let low := (absorbed.map Prod.fst).foldl min start
  let high := (absorbed.map Prod.snd).foldl max stop
  { m with everMapped := insertKey low high kept }

def zeroChunk : ℕ := 2^20

/-- The chunks that a fill of a range goes through in: address and length. -/
def chunks (start stop : ℕ) : List (ℕ × ℕ) :=
  (List.range ((stop-start+zeroChunk-1)/zeroChunk)).map fun i =>
    (start+i*zeroChunk,min (stop-start-i*zeroChunk) zeroChunk)

/-- A fill stops at the first chunk that does not go through. -/
def zeroFill (m : VmMemoryManager) : List (ℕ × ℕ) → VmMemoryManager × Bool
  | [] => (m,true)
  | c::cs =>
      if m.vm.accepts c.1 c.2 then zeroFill { m with stores := .zero c.1 c.2 :: m.stores } cs
      else (m,false)

/-- The candidate for a placement: the cursor, aligned. -/
def candidate (cursor align : ℕ) : ℕ :=
  andNot (wrap (cursor+(max align 0x4000-1))) (max align 0x4000-1)

def inPool (addr size : ℕ) : Bool :=
  addr < directMemoryPoolEnd ∧ directMemoryPoolBase < wrap (addr+size)

/-- The search for a free region, from the cursor on; it yields the region and the cursor, and
`fuel` bounds the rounds. A search that never ends comes to no address. -/
def search (size align : ℕ) : (fuel cursor : ℕ) → ℕ × ℕ
  | 0, cursor => (2^64,cursor)
  | fuel+1, cursor =>
      let addr := candidate cursor align
      if inPool addr size then search size align fuel directMemoryPoolEnd
      else if m.isMemoryFree addr size then (addr,wrap (addr+size))
      else search size align fuel (wrap (cursor+max align 0x4000))

/-- A search that is not over by then has come back to a cursor that it had, and never ends. -/
def searchFuel : ℕ := 2^64

def findFreeRegionAligned (size align : ℕ) : VmMemoryManager × ℕ :=
  let found := m.search size align searchFuel m.heapCursor
  ({ m with heapCursor := found.2 },found.1)

/-- A placement that was found to fit: what was mapped there before is zeroed. -/
def place (addr size : ℕ) (prot : MemoryProtection) (name : Option String) :
    VmMemoryManager × Except MapError ℕ :=
  let mapEnd := addr+size
  let parts := m.previouslyMappedParts addr mapEnd
  let (m,filled) := m.zeroFill (parts.flatMap fun part => chunks part.1 part.2)
  if filled then
    let vma : MemoryVma := ⟨addr,mapEnd,size,prot,name.getD "dynamic_alloc"⟩
    let m := m.noteEverMapped addr mapEnd
    ({ m with allocations := insertKey addr vma m.allocations },.ok addr)
  else (m,.error .zeroFill)

def mapAligned (addr size align : ℕ) (prot : MemoryProtection) (name : Option String) :
    VmMemoryManager × Except MapError ℕ :=
  if size = 0 then (m,.error .zeroLength)
  else if addr = 0 then
    if m.vm.span-guestBase < size then (m,.error .beyondSpan)
    else
      let (m,addr) := m.findFreeRegionAligned size align
      if 2^64 ≤ addr+size then (m,.error .sizeOverflow)
      else if m.vm.span < addr+size then (m,.error .beyondSpan)
      else m.place addr size prot name
  else if addr < guestBase then (m,.error .belowGuestBase)
  else if 2^64 ≤ addr+size then (m,.error .sizeOverflow)
  else if m.vm.span < addr+size then (m,.error .beyondSpan)
  else if ¬m.isMemoryFree addr size then (m,.error .collision)
  else m.place addr size prot name

def map (addr size : ℕ) (prot : MemoryProtection) (name : Option String) :
    VmMemoryManager × Except MapError ℕ := m.mapAligned addr size 0 prot name

/-- The pages that an unmap discards: whole pages outside the pool, and never the gadget's. -/
def discards (start stop : ℕ) : List Store :=
  let alignedStart := if start+0xfff < 2^64 then andNot (start+0xfff) 0xfff else 2^64-1
  let alignedEnd := andNot stop 0xfff
  let parts := [(alignedStart,min alignedEnd gadgetAddr),
    (max alignedStart (gadgetAddr+0x1000),alignedEnd)]
  if alignedStart < alignedEnd then
    (parts.filter fun part => part.1 < part.2).map fun part => .zero part.1 (part.2-part.1)
  else []

/-- Only regions that lie in the range as a whole leave the table, and none inside the pool. -/
def unmap (addr size : ℕ) : VmMemoryManager :=
  let stop := min (addr+size) (2^64-1)
  if addr < directMemoryPoolEnd ∧ directMemoryPoolBase < stop then m
  else
    let kept := m.allocations.filter fun entry =>
      ¬(entry.1 < stop ∧ entry.1 ≠ gadgetAddr ∧ addr ≤ entry.2.start ∧ entry.2.stop ≤ stop)
    { m with allocations := kept, stores := (discards addr stop).reverse ++ m.stores }

def protect (addr size : ℕ) (prot : MemoryProtection) : VmMemoryManager :=
  let allocations := m.allocations.map fun entry =>
    if entry.1 = addr ∧ entry.2.size = size then (entry.1,{ entry.2 with protection := prot })
    else entry
  { m with allocations := allocations }

end VmMemoryManager

section Insert

variable {V : Type*} {key : ℕ} {value : V} {entries : List (ℕ × V)}

lemma insertKey_perm : (insertKey key value entries).Perm
    ((key,value) :: entries.filter fun entry => entry.1 ≠ key) :=
  List.perm_orderedInsert _ _ _

lemma mem_insertKey {entry : ℕ × V} : entry ∈ insertKey key value entries ↔
    entry = (key,value) ∨ entry ∈ entries ∧ entry.1 ≠ key := by
  simp [insertKey_perm.mem_iff]

lemma insertKey_sorted (h : entries.Pairwise fun a b => a.1 ≤ b.1) :
    (insertKey key value entries).Pairwise fun a b => a.1 ≤ b.1 := by
  have htotal : Std.Total fun a b : ℕ × V => a.1 ≤ b.1 := ⟨fun a b => le_total a.1 b.1⟩
  have htrans : IsTrans (ℕ × V) fun a b => a.1 ≤ b.1 := ⟨fun _ _ _ => le_trans⟩
  exact (h.filter _).orderedInsert _ _

end Insert

section Align

open VmMemoryManager (candidate)

variable {align cursor k : ℕ}

lemma andNot_eq (n k : ℕ) : andNot n (2^k-1) = n/2^k*2^k := by
  apply Nat.eq_of_testBit_eq
  intro i
  rw [andNot, Nat.and_two_pow_sub_one_eq_mod, Nat.testBit_xor, Nat.testBit_mod_two_pow,
    Nat.testBit_mul_two_pow, Nat.testBit_div_two_pow]
  by_cases hi : i < k
  · simp [hi]
  · simp [hi, Nat.sub_add_cancel (not_lt.mp hi), not_lt.mp hi]

/-- A request aligns to nothing or to a power of two that fits the arena. -/
def IsAlign (vm : GuestVm) (align : ℕ) : Prop :=
  align = 0 ∨ ∃ k, align = 2^k ∧ align ≤ vm.span-guestBase

lemma IsAlign.exists_pow {vm : GuestVm} (h : IsAlign vm align) :
    ∃ k, max align 0x4000 = 2^k ∧ k ≤ 47 := by
  rcases h with rfl | ⟨k,rfl,hle⟩
  · exact ⟨14,by decide,by decide⟩
  · have hk : 2^k ≤ 2^47 := hle.trans ((Nat.sub_le _ _).trans vm.userSpace)
    by_cases h14 : k ≤ 14
    · have hmax : 2^k ≤ 2^14 := Nat.pow_le_pow_right (by decide) h14
      exact ⟨14,max_eq_right hmax,by decide⟩
    · have hmax : 2^14 ≤ 2^k := Nat.pow_le_pow_right (by decide) (by omega)
      exact ⟨k,max_eq_left hmax,(Nat.pow_le_pow_iff_right (by decide)).mp hk⟩

lemma candidate_eq (hk : max align 0x4000 = 2^k) :
    candidate cursor align = wrap (cursor+(2^k-1))/2^k*2^k := by
  rw [candidate, hk, andNot_eq]

lemma dvd_candidate (hk : max align 0x4000 = 2^k) :
    max align 0x4000 ∣ candidate cursor align := by
  rw [candidate_eq hk, hk]
  exact Nat.dvd_mul_left _ _

/-- Without a wrap the candidate is the first multiple from the cursor on. -/
lemma candidate_of_lt (cursor : ℕ) (hk : max align 0x4000 = 2^k) (h : cursor+2^k ≤ 2^64) :
    cursor ≤ candidate cursor align ∧ candidate cursor align < cursor+2^k := by
  have hpos : 0 < 2^k := Nat.two_pow_pos k
  rw [candidate_eq hk, wrap, Nat.mod_eq_of_lt (by omega)]
  have hdiv := Nat.div_add_mod' (cursor+(2^k-1)) (2^k)
  have hmod := Nat.mod_lt (cursor+(2^k-1)) hpos
  omega

/-- A round of the search moves the candidate by the alignment, even where the cursor wraps. -/
lemma candidate_next (cursor : ℕ) (hk : max align 0x4000 = 2^k) (hle : k ≤ 47)
    (h : candidate cursor align < 2^47) :
    candidate (wrap (cursor+2^k)) align = candidate cursor align+2^k := by
  have hpos : 0 < 2^k := Nat.two_pow_pos k
  have hpow : 2^k ≤ 2^47 := Nat.pow_le_pow_right (by decide) hle
  rw [candidate_eq hk] at h
  rw [candidate_eq hk, candidate_eq hk]
  have hdiv := Nat.div_add_mod' (wrap (cursor+(2^k-1))) (2^k)
  have hmod := Nat.mod_lt (wrap (cursor+(2^k-1))) hpos
  have hwrap : wrap (wrap (cursor+2^k)+(2^k-1)) = wrap (cursor+(2^k-1))+2^k := by
    unfold wrap at *
    omega
  rw [hwrap, Nat.add_div_right _ hpos, Nat.succ_mul]

end Align

namespace VmMemoryManager

variable {m : VmMemoryManager} {addr size align k fuel cursor : ℕ}

lemma isMemoryFree_iff : m.isMemoryFree addr size ↔
    ∀ entry ∈ m.allocations, entry.2.stop ≤ addr ∨ wrap (addr+size) ≤ entry.2.start := by
  simp only [isMemoryFree, List.all_eq_true, decide_eq_true_eq, not_and_or, not_lt]

lemma inPool_eq_false : inPool addr size = false ↔
    directMemoryPoolEnd ≤ addr ∨ wrap (addr+size) ≤ directMemoryPoolBase := by
  simp only [inPool, decide_eq_false_iff_not, not_and_or, not_lt]

/-- The first place that a request looks at is one that it leaves, or it lies in the arena. -/
def Unwrapped (m : VmMemoryManager) (size align cursor : ℕ) : Prop :=
  candidate cursor align < guestBase →
    m.isMemoryFree (candidate cursor align) size → inPool (candidate cursor align) size

structure Found (m : VmMemoryManager) (size align cursor : ℕ) (found : ℕ × ℕ) : Prop where
  next : found.2 = wrap (found.1+size)
  dvd : max align 0x4000 ∣ found.1
  outsidePool : inPool found.1 size = false
  free : m.isMemoryFree found.1 size
  base : (∀ entry ∈ m.allocations, guestBase ≤ entry.2.start ∧ guestBase < entry.2.stop) →
    m.Unwrapped size align cursor → guestBase ≤ found.1

lemma exists_region_of_taken (h : ¬m.isMemoryFree addr size) : ∃ entry ∈ m.allocations,
    addr < entry.2.stop ∧ entry.2.start < wrap (addr+size) := by
  by_contra hcon
  push Not at hcon
  refine h (isMemoryFree_iff.mpr fun entry he => ?_)
  by_cases hstop : addr < entry.2.stop
  · exact .inr (hcon entry he hstop)
  · exact .inl (not_lt.mp hstop)

/-- Below the base, a region that is in the way of a candidate is in the way of the next one. -/
lemma Unwrapped.next (hregions : ∀ entry ∈ m.allocations,
      guestBase ≤ entry.2.start ∧ guestBase < entry.2.stop) (hsize : size ≤ 2^47)
    (htaken : ¬m.isMemoryFree addr size) (hnext : candidate cursor align = addr+k) :
    m.Unwrapped size align cursor := by
  rw [Unwrapped, hnext]
  intro hlow hfree
  obtain ⟨entry,he,hstop,hstart⟩ := exists_region_of_taken htaken
  obtain ⟨hbase,hbase'⟩ := hregions entry he
  unfold guestBase at *
  have hw : wrap (addr+k+size) = addr+k+size := Nat.mod_eq_of_lt (by omega)
  have hw' : wrap (addr+size) = addr+size := Nat.mod_eq_of_lt (by omega)
  rcases isMemoryFree_iff.mp hfree entry he with h | h <;> omega

/-- The search ends: past the last region every candidate is free. -/
lemma search_found (hk : max align 0x4000 = 2^k) (hle : k ≤ 47)
    (hregions : ∀ entry ∈ m.allocations, entry.2.stop ≤ 2^47) (hsize : size ≤ 2^47)
    (hfuel : 2^47+(if candidate cursor align < directMemoryPoolEnd then 2^14 else 0) ≤
      candidate cursor align+fuel*2^14) :
    m.Found size align cursor (m.search size align (fuel+1) cursor) := by
  have hpow : 2^14 ≤ 2^k := hk ▸ le_max_right _ _
  have hpow' : 2^k ≤ 2^47 := Nat.pow_le_pow_right (by decide) hle
  have hpool : directMemoryPoolEnd < 2^47 := by decide
  induction fuel generalizing cursor with
  | zero =>
    have hcand : 2^47 ≤ candidate cursor align := by omega
    have hout : inPool (candidate cursor align) size = false :=
      inPool_eq_false.mpr (.inl (hpool.le.trans hcand))
    have hfree : m.isMemoryFree (candidate cursor align) size :=
      isMemoryFree_iff.mpr fun entry he => .inl ((hregions entry he).trans hcand)
    rw [search, if_neg (by simp [hout]), if_pos hfree]
    exact ⟨rfl,dvd_candidate hk,hout,hfree,fun _ _ => le_trans (by decide) hcand⟩
  | succ fuel ih =>
    rw [search]
    split_ifs with hin hfree
    · -- the jump over the pool, after which no candidate meets it
      obtain ⟨hge,hlt⟩ := candidate_of_lt directMemoryPoolEnd hk
        (by unfold directMemoryPoolEnd directMemoryPoolBase directMemoryPoolSize; omega)
      have hbelow : candidate cursor align < directMemoryPoolEnd := by
        by_contra hcon
        rw [inPool_eq_false.mpr (.inl (not_lt.mp hcon))] at hin
        cases hin
      obtain ⟨hcur,hdvd,hout,hfree,hbase⟩ := @ih directMemoryPoolEnd (by
        rw [if_pos hbelow] at hfuel
        rw [if_neg (by omega)]
        omega)
      refine ⟨hcur,hdvd,hout,hfree,fun hin' _ => hbase hin' fun hlow => ?_⟩
      exact absurd (hge.trans_lt (hlow.trans_le (by decide))) (lt_irrefl directMemoryPoolEnd)
    · refine ⟨rfl,dvd_candidate hk,by simpa using hin,hfree,fun _ hcursor => ?_⟩
      by_contra hcon
      exact hin (hcursor (not_le.mp hcon) hfree)
    · obtain ⟨entry,he,hstop,-⟩ := exists_region_of_taken hfree
      have hnext := candidate_next cursor hk hle (hstop.trans_le (hregions entry he))
      rw [hk]
      obtain ⟨hcur,hdvd,hout,hfree',hbase⟩ := @ih (wrap (cursor+2^k)) (by
        rw [hnext]
        split_ifs at hfuel ⊢ <;> omega)
      exact ⟨hcur,hdvd,hout,hfree',fun hin' _ => hbase hin' (.next hin' hsize hfree hnext)⟩

/-- A change of protection moves no region. -/
lemma protect_allocations (m : VmMemoryManager) (addr size : ℕ) (prot : MemoryProtection) :
    ∃ f : ℕ × MemoryVma → ℕ × MemoryVma, (m.protect addr size prot).allocations =
      m.allocations.map f ∧ ∀ entry, (f entry).1 = entry.1 ∧
        (f entry).2.start = entry.2.start ∧ (f entry).2.stop = entry.2.stop := by
  refine ⟨_,rfl,fun entry => ?_⟩
  dsimp only
  split_ifs <;> exact ⟨rfl,rfl,rfl⟩

/-- What a fill stores, and that it touches nothing else. -/
lemma zeroFill_eq (m : VmMemoryManager) (cs : List (ℕ × ℕ)) : ∃ filled : List (ℕ × ℕ),
    filled <+: cs ∧ (m.zeroFill cs).1 = { m with
      stores := (filled.map fun c => Store.zero c.1 c.2).reverse ++ m.stores } := by
  induction cs generalizing m with
  | nil => exact ⟨[],List.nil_prefix,rfl⟩
  | cons c cs ih =>
    rw [zeroFill]
    split_ifs with h
    · obtain ⟨filled,hpre,heq⟩ := ih { m with stores := .zero c.1 c.2 :: m.stores }
      exact ⟨c :: filled,List.cons_prefix_cons.mpr ⟨rfl,hpre⟩,by rw [heq]; simp⟩
    · exact ⟨[],List.nil_prefix,rfl⟩

/-- The chunks of a range lie in it. -/
lemma mem_chunks {start stop : ℕ} {c : ℕ × ℕ} (h : c ∈ chunks start stop) :
    start ≤ c.1 ∧ c.1+c.2 ≤ stop := by
  obtain ⟨i,hi,rfl⟩ := List.mem_map.mp h
  have hlt := (Nat.lt_div_iff_mul_lt (by decide)).mp (List.mem_range.mp hi)
  unfold zeroChunk at *
  constructor <;> dsimp only <;> omega

/-- So do the parts that were mapped before. -/
lemma mem_previouslyMappedParts {start stop : ℕ} {part : ℕ × ℕ}
    (h : part ∈ m.previouslyMappedParts start stop) : start ≤ part.1 ∧ part.2 ≤ stop := by
  obtain ⟨hmem,-⟩ := List.mem_filter.mp h
  obtain ⟨e,-,rfl⟩ := List.mem_map.mp hmem
  exact ⟨le_max_right _ _,min_le_right _ _⟩

/-- What a placement does: it zeroes within its range, and when all of it went through, the
region goes into the table. -/
structure PlacedIn (m m' : VmMemoryManager) (addr size : ℕ) : Prop where
  vm : m'.vm = m.vm
  cursor : m'.heapCursor = m.heapCursor
  stores : ∃ zeroed : List (ℕ × ℕ), (∀ c ∈ zeroed, addr ≤ c.1 ∧ c.1+c.2 ≤ addr+size) ∧
    m'.stores = zeroed.map (fun c => Store.zero c.1 c.2) ++ m.stores

lemma place_placedIn (m : VmMemoryManager) (addr size : ℕ) (prot : MemoryProtection)
    (name : Option String) : PlacedIn m (m.place addr size prot name).1 addr size := by
  obtain ⟨filled,hpre,heq⟩ := zeroFill_eq m
    ((m.previouslyMappedParts addr (addr+size)).flatMap fun part => chunks part.1 part.2)
  have hin : ∀ c ∈ filled.reverse, addr ≤ c.1 ∧ c.1+c.2 ≤ addr+size := by
    intro c hc
    obtain ⟨part,hpart,hmem⟩ := List.mem_flatMap.mp (hpre.subset (List.mem_reverse.mp hc))
    have hchunk := mem_chunks hmem
    have hrange := mem_previouslyMappedParts hpart
    omega
  unfold place
  dsimp only
  split_ifs
  · exact ⟨by rw [heq]; rfl,by rw [heq]; rfl,filled.reverse,hin,by rw [heq]; simp [noteEverMapped]⟩
  · exact ⟨by rw [heq],by rw [heq],filled.reverse,hin,by rw [heq]; simp⟩

/-- The region of a placement. -/
def region (addr size : ℕ) (prot : MemoryProtection) (name : Option String) : MemoryVma :=
  ⟨addr,addr+size,size,prot,name.getD "dynamic_alloc"⟩

lemma place_cases (m : VmMemoryManager) (addr size : ℕ) (prot : MemoryProtection)
    (name : Option String) :
    ((m.place addr size prot name).2 = .ok addr ∧ (m.place addr size prot name).1.allocations =
      insertKey addr (region addr size prot name) m.allocations) ∨
    ((m.place addr size prot name).2 = .error .zeroFill ∧
      (m.place addr size prot name).1.allocations = m.allocations) := by
  obtain ⟨filled,-,heq⟩ := zeroFill_eq m
    ((m.previouslyMappedParts addr (addr+size)).flatMap fun part => chunks part.1 part.2)
  unfold place
  dsimp only
  split_ifs
  · exact .inl ⟨rfl,by rw [heq]; rfl⟩
  · exact .inr ⟨rfl,by rw [heq]⟩

end VmMemoryManager

section Requests

open VmMemoryManager

variable {m : VmMemoryManager} {addr size align : ℕ}

/-- What holds of a table whatever was asked for before: regions stand under their start and end in
the arena. -/
structure Tracked (m : VmMemoryManager) : Prop where
  keyed : ∀ entry ∈ m.allocations, entry.1 = entry.2.start
  belowSpan : ∀ entry ∈ m.allocations, entry.2.stop ≤ m.vm.span

lemma Tracked.protect (h : Tracked m) (addr size : ℕ) (prot : MemoryProtection) :
    Tracked (m.protect addr size prot) := by
  obtain ⟨f,hallocs,hf⟩ := protect_allocations m addr size prot
  constructor
  · intro entry he
    rw [hallocs] at he
    obtain ⟨entry',he',rfl⟩ := List.mem_map.mp he
    rw [(hf entry').1, (hf entry').2.1]
    exact h.keyed entry' he'
  · intro entry he
    rw [hallocs] at he
    obtain ⟨entry',he',rfl⟩ := List.mem_map.mp he
    rw [(hf entry').2.2]
    exact h.belowSpan entry' he'

/-- Where a request that goes through puts its region. -/
structure Fits (m : VmMemoryManager) (addr size align base : ℕ) : Prop where
  pos : 0 < size
  belowSpan : base+size ≤ m.vm.span
  free : m.isMemoryFree base size
  explicit : addr ≠ 0 → base = addr ∧ guestBase ≤ base
  anywhere : addr = 0 → (directMemoryPoolEnd ≤ base ∨ base+size ≤ directMemoryPoolBase) ∧
    max align 0x4000 ∣ base
  aboveBase : addr = 0 →
    (∀ entry ∈ m.allocations, guestBase ≤ entry.2.start ∧ guestBase < entry.2.stop) →
    m.Unwrapped size align m.heapCursor → guestBase ≤ base

/-- A request that goes through puts its region in and zeroes within it. -/
structure Maps (m m' : VmMemoryManager) (addr size align base : ℕ) (prot : MemoryProtection)
    (name : Option String) : Prop where
  vm : m'.vm = m.vm
  allocations : m'.allocations = insertKey base (region base size prot name) m.allocations
  stores : ∃ zeroed : List (ℕ × ℕ), (∀ c ∈ zeroed, base ≤ c.1 ∧ c.1+c.2 ≤ base+size) ∧
    m'.stores = zeroed.map (fun c => Store.zero c.1 c.2) ++ m.stores
  fits : Fits m addr size align base

/-- A request that does not leaves the table. -/
structure Rejects (m m' : VmMemoryManager) : Prop where
  vm : m'.vm = m.vm
  allocations : m'.allocations = m.allocations

lemma Fits.apart {base : ℕ} (h : Fits m addr size align base) {entry : ℕ × MemoryVma}
    (he : entry ∈ m.allocations) : entry.2.stop ≤ base ∨ base+size ≤ entry.2.start := by
  have hspan := h.belowSpan.trans m.vm.userSpace
  have hw : wrap (base+size) = base+size := Nat.mod_eq_of_lt (by omega)
  rw [← hw]
  exact isMemoryFree_iff.mp h.free entry he

/-- The search of a request. -/
lemma Tracked.found (h : Tracked m) (halign : IsAlign m.vm align)
    (hsize : size ≤ m.vm.span-guestBase) :
    m.Found size align m.heapCursor (m.search size align searchFuel m.heapCursor) := by
  obtain ⟨k,hk,hle⟩ := halign.exists_pow
  have hspan := m.vm.userSpace
  rw [show searchFuel = (2^64-1)+1 from rfl]
  apply search_found hk hle _ (by omega)
  · split_ifs <;> omega
  · exact fun entry he => (h.belowSpan entry he).trans hspan

lemma Tracked.mapAligned_cases (h : Tracked m) (addr size : ℕ) (halign : IsAlign m.vm align)
    (prot : MemoryProtection) (name : Option String) :
    (∃ e, (m.mapAligned addr size align prot name).2 = .error e ∧
      Rejects m (m.mapAligned addr size align prot name).1) ∨
    ∃ base, (m.mapAligned addr size align prot name).2 = .ok base ∧
      Maps m (m.mapAligned addr size align prot name).1 addr size align base prot name := by
  have hspan := m.vm.userSpace
  unfold mapAligned
  split_ifs with hzero haddr hbig hbase hover hbeyond hfree
  · exact .inl ⟨_,rfl,rfl,rfl⟩
  · exact .inl ⟨_,rfl,rfl,rfl⟩
  · obtain ⟨-,hdvd,hout,hfree,habove⟩ := h.found halign (not_lt.mp hbig)
    generalize hsearch : m.search size align searchFuel m.heapCursor = found at *
    unfold findFreeRegionAligned
    rw [hsearch]
    dsimp only
    split_ifs with hover hbeyond
    · exact .inl ⟨_,rfl,rfl,rfl⟩
    · exact .inl ⟨_,rfl,rfl,rfl⟩
    · have hw : wrap (found.1+size) = found.1+size := Nat.mod_eq_of_lt (by omega)
      have hpool := inPool_eq_false.mp hout
      rw [hw] at hpool
      have hfits : Fits m addr size align found.1 := ⟨Nat.pos_of_ne_zero hzero,not_lt.mp hbeyond,
        hfree,fun hcon => absurd haddr hcon,fun _ => ⟨hpool,hdvd⟩,fun _ => habove⟩
      obtain ⟨hvm,-,hstores⟩ := place_placedIn { m with heapCursor := found.2 } found.1 size prot name
      rcases place_cases { m with heapCursor := found.2 } found.1 size prot name with
        ⟨hok,hallocs⟩ | ⟨herr,hallocs⟩
      · exact .inr ⟨_,hok,hvm,hallocs,hstores,hfits⟩
      · exact .inl ⟨_,herr,hvm,hallocs⟩
  · exact .inl ⟨_,rfl,rfl,rfl⟩
  · exact .inl ⟨_,rfl,rfl,rfl⟩
  · exact .inl ⟨_,rfl,rfl,rfl⟩
  · obtain ⟨hvm,-,hstores⟩ := place_placedIn m addr size prot name
    have hfits : Fits m addr size align addr := ⟨Nat.pos_of_ne_zero hzero,not_lt.mp hbeyond,hfree,
      fun _ => ⟨rfl,not_lt.mp hbase⟩,fun hcon => absurd hcon haddr,fun hcon => absurd hcon haddr⟩
    rcases place_cases m addr size prot name with ⟨hok,hallocs⟩ | ⟨herr,hallocs⟩
    · exact .inr ⟨_,hok,hvm,hallocs,hstores,hfits⟩
    · exact .inl ⟨_,herr,hvm,hallocs⟩
  · exact .inl ⟨_,rfl,rfl,rfl⟩

end Requests

end Unemups4.Memory

import Unemups4.FreshMaps
import Unemups4.MapSums

/-! Whether a requested base address is honoured. The calls that take one pass it on without
`MAP_FIXED`, so that the manager searches from its cursor; the request is met where the search
happens to come to it. -/
namespace Unemups4.Memory
open Transition (Reach)
open Loader (wordBytes fromLeBytes leBytes fromLeBytes_leBytes)
open VmMemoryManager

namespace VmMemoryManager

/-- The cursor after a round that does not end the search. -/
def nextCursor (size align cursor : ℕ) : ℕ :=
  if inPool (candidate cursor align) size then directMemoryPoolEnd
  else wrap (cursor+max align 0x4000)

/-- An address is the first place, among those that a search from the cursor looks at, that is free
and outside the pool. -/
def FirstOpen (m : VmMemoryManager) (size align cursor addr : ℕ) (rounds : ℕ) : Prop :=
  ∃ n < rounds, candidate ((nextCursor size align)^[n] cursor) align = addr ∧ m.Open addr size ∧
    ∀ k < n, ¬m.Open (candidate ((nextCursor size align)^[k] cursor) align) size

variable {m : VmMemoryManager} {size align cursor fuel addr base : ℕ}

lemma firstOpen_of_open (hopen : m.Open (candidate cursor align) size) :
    m.FirstOpen size align cursor addr (fuel+1) ↔ candidate cursor align = addr := by
  constructor
  · rintro ⟨n,-,hat,-,hbefore⟩
    cases n with
    | zero => exact hat
    | succ n => exact absurd hopen (hbefore 0 (Nat.succ_pos n))
  · rintro rfl
    exact ⟨0,Nat.succ_pos fuel,rfl,hopen,nofun⟩

lemma firstOpen_of_not_open (hopen : ¬m.Open (candidate cursor align) size) :
    m.FirstOpen size align cursor addr (fuel+1) ↔
      m.FirstOpen size align (nextCursor size align cursor) addr fuel := by
  constructor
  · rintro ⟨n,hn,hat,hplace,hbefore⟩
    cases n with
    | zero =>
      have hat' : candidate cursor align = addr := hat
      exact absurd (hat' ▸ hplace) hopen
    | succ n =>
      exact ⟨n,Nat.lt_of_succ_lt_succ hn,hat,hplace,fun k hk => hbefore (k+1) (Nat.succ_lt_succ hk)⟩
  · rintro ⟨n,hn,hat,hplace,hbefore⟩
    refine ⟨n+1,Nat.succ_lt_succ hn,hat,hplace,fun k hk => ?_⟩
    cases k with
    | zero => exact hopen
    | succ k => exact hbefore k (Nat.lt_of_succ_lt_succ hk)

/-- Where a search that comes to a place comes to. -/
lemma search_eq_iff (haddr : addr < 2^64) : (m.search size align fuel cursor).1 = addr ↔
    m.FirstOpen size align cursor addr fuel := by
  induction fuel generalizing cursor with
  | zero =>
    constructor
    · rintro rfl
      exact absurd haddr (lt_irrefl _)
    · rintro ⟨n,hn,-⟩
      exact absurd hn (Nat.not_lt_zero n)
  | succ fuel ih =>
    rw [search]
    split_ifs with hpool hfree
    · have hclosed : ¬m.Open (candidate cursor align) size := by simp [Open, hpool]
      rw [ih, firstOpen_of_not_open hclosed, nextCursor, if_pos hpool]
    · rw [firstOpen_of_open ⟨by simpa using hpool,hfree⟩]
    · have hclosed : ¬m.Open (candidate cursor align) size := by simp [Open, hfree]
      rw [ih, firstOpen_of_not_open hclosed, nextCursor, if_neg hpool]

/-- A request without an address is given what the search comes to. -/
lemma locate_anywhere (h : (m.locate 0 size align).2 = .ok base) :
    base = (m.search size align searchFuel m.heapCursor).1 ∧ base < 2^64 := by
  have huser := m.vm.userSpace
  unfold locate at h
  dsimp only at h
  split_ifs at h with hzero hbig hover hbeyond
  all_goals cases h
  · exact ⟨rfl,by omega⟩
  · exact absurd rfl hbig

lemma mem_staleChunks {c : ℕ × ℕ} (h : c ∈ m.staleChunks addr size) :
    addr ≤ c.1 ∧ c.1+c.2 ≤ addr+size := by
  obtain ⟨part,hpart,hc⟩ := List.mem_flatMap.mp h
  have hchunk := mem_chunks hc
  have hrange := mem_previouslyMappedParts hpart
  omega

end VmMemoryManager

/-- The table over calls of a guest and stores to its arena. -/
inductive StateCall where
  | call (c : GuestCall)
  | protect (addr size : ℕ) (prot : MemoryProtection)
  | write (addr : ℕ) (data : List UInt8)

namespace Process

def stateStep (p : Process) : StateCall → Option Process
  | .call c => some (p.serve c)
  | .protect addr size prot => some { p with memory := p.memory.protect addr size prot }
  | .write addr data => some { p with memory := (p.memory.writeBytes addr data).1 }

def Start (vm : GuestVm) (p : Process) : Prop := p.memory = .new vm

/-- The range from an address has become mapped, and nothing else. -/
def BecomesMapped (p p' : Process) (addr len : ℕ) : Prop :=
  ∀ a, Mapped p'.memory a ↔ Mapped p.memory a ∨ (addr ≤ a ∧ a < addr+len)

/-- And the address stands in the slot. -/
def Honoured (p p' : Process) (slot addr len : ℕ) : Prop :=
  BecomesMapped p p' addr len ∧ (p'.readRanged slot 8).map fromLeBytes = some addr

variable {p p' q : Process} {addr size len align base slot requested : ℕ} {prot flags : UInt32}
  {fd offset : ℤ} {vm : GuestVm} {bytes : List UInt8}

lemma laid_stores {m : VmMemoryManager} (h : Laid m) (stores : List Store) :
    Laid { m with stores := stores } := ⟨h.keyed,h.belowSpan,h.ordered⟩

lemma laid_mmapAligned (h : Laid p.memory) :
    Laid (p.mmapAligned addr len align prot flags fd offset).1.memory := by
  rcases p.mmapAligned_cases addr len align prot flags fd offset with ⟨m,hrefuses,hp⟩ |
    ⟨m,base,hlands,hp | ⟨stores,hp⟩⟩
  · rw [hp]
    exact h.refuses hrefuses
  · rw [hp]
    exact (h.lands hlands).unmap base len
  · rw [hp]
    exact laid_stores (h.lands hlands) _

theorem reach_laid (hs : Reach stateStep (Start vm) (fun _ _ => True) p) : Laid p.memory := by
  apply hs.invariant
  · intro p hstart
    rw [hstart]
    exact laid_new vm
  · intro p call p' h _ hstep
    cases call with
    | call c =>
      obtain rfl := Option.some.inj hstep
      cases c with
      | mmap addr len prot flags fd offset => exact laid_mmapAligned h
      | munmap addr len => exact h.unmap addr.toNat len.toNat
      | reserveVirtualRange requested length alignment => exact laid_mmapAligned h
      | mapDirectMemory physOff len => exact laid_mmapAligned h
    | protect addr size prot =>
      obtain rfl := Option.some.inj hstep
      exact h.protect addr size prot
    | write addr data =>
      obtain rfl := Option.some.inj hstep
      dsimp only [VmMemoryManager.writeBytes]
      split_ifs
      · exact laid_stores h _
      · exact h

/-- A read comes to the bytes of its range where that is mapped and lies in the arena. -/
lemma readRanged_eq_some_iff (h : Laid p.memory) (hsize : size ≠ 0) :
    p.readRanged addr size = some bytes ↔
      (Spanned p.memory addr size ∧ guestBase ≤ addr ∧ addr+size ≤ p.memory.vm.span) ∧
      (List.range size).map (fun i => byteAt p.contents p.memory.stores (addr+i)) = bytes := by
  obtain ⟨r,hcheck,-,hiff⟩ :=
    h.rangeCheck_iff addr size (Nat.lt_succ_self p.memory.allocations.length)
  unfold readRanged readBytesRanged rounds
  rw [if_neg hsize, hcheck]
  cases r with
  | error e =>
    refine iff_of_false nofun fun hcon => ?_
    cases hiff.mpr hcon.1.1
  | ok u =>
    have hspanned := hiff.mp rfl
    unfold readBytes
    by_cases harena : guestBase ≤ addr ∧ addr+size ≤ p.memory.vm.span
    · simp [harena, hspanned]
    · simp [harena]

lemma fromLeBytes_wordBytes {n : ℕ} (h : n < 2^64) : fromLeBytes (wordBytes n) = n := by
  have hword : wordBytes n = leBytes n 8 :=
    List.map_congr_left fun i _ => by rw [Nat.pow_mul]
  rw [hword, fromLeBytes_leBytes]
  exact Nat.mod_eq_of_lt h

/-- A store over a range is what is read there. -/
lemma byteAt_write {contents : ℕ → UInt8} {stores : List Store} (data : List UInt8) {i : ℕ}
    (hi : i < data.length) : byteAt contents (.write addr data :: stores) (addr+i) = data[i] := by
  simp [byteAt, Store.byte, hi]

/-- What a placement zeroes is none of what was mapped. -/
lemma byteAt_lands {m : VmMemoryManager} {a : ℕ} {prot : MemoryProtection} {name : Option String}
    (hlands : Lands p.memory m addr size base prot name) (ha : Mapped p.memory a) :
    byteAt p.contents m.stores a = byteAt p.contents p.memory.stores a := by
  rw [hlands.stores, byteAt_append]
  refine byteAt_eq_iff.mpr (fun s hs hcov => ?_) _
  obtain ⟨c,hc,rfl⟩ := List.mem_map.mp (List.mem_reverse.mp hs)
  obtain ⟨hlo,hhi⟩ := mem_staleChunks hc
  have hin : c.1 ≤ a ∧ a < c.1+c.2 := hcov
  exact hlands.not_mapped (by omega) (by omega) ha

/-- The range of another address is not the one that became mapped. -/
lemma becomesMapped_iff (h : Laid p.memory) {prot : MemoryProtection} {name : Option String}
    (hlands : Lands p.memory q.memory addr len base prot name) :
    BecomesMapped p q requested len ↔ base = requested := by
  have hpos := hlands.located.pos
  constructor
  · intro hmapped
    have hin : ∀ a, base ≤ a → a < base+len → requested ≤ a ∧ a < requested+len := by
      intro a hlo hhi
      have hnew := (hlands.mapped_iff h a).mpr (.inr ⟨hlo,hhi⟩)
      exact ((hmapped a).mp hnew).resolve_left (hlands.not_mapped hlo hhi)
    have hfirst := hin base (le_refl _) (by omega)
    have hlast := hin (base+len-1) (by omega) (by omega)
    omega
  · rintro rfl
    exact hlands.mapped_iff h

/-- The slot holds the request after a mapping that was given it, whether or not the address could be
written back. -/
lemma slot_lands (h : Laid p.memory) {prot : MemoryProtection} {name : Option String}
    (hlands : Lands p.memory q.memory addr len requested prot name)
    (hcontents : q.contents = p.contents) (hread : p.readRanged slot 8 = some bytes)
    (hrequested : fromLeBytes bytes = requested) (hword : requested < 2^64) :
    ((q.writeRanged slot (wordBytes requested)).1.readRanged slot 8).map fromLeBytes =
      some requested := by
  have hafter := h.lands hlands
  obtain ⟨⟨hspanned,harena⟩,hbytes⟩ := (readRanged_eq_some_iff h (by decide)).mp hread
  have hspanned' : Spanned q.memory slot 8 :=
    ⟨hspanned.1,fun a hlo hhi => (hlands.mapped_iff h a).mpr (.inl (hspanned.2 a hlo hhi))⟩
  rw [← hlands.vm] at harena
  rcases q.writeRanged_cases slot (wordBytes requested) with hwrite | hwrite
  · have hsame : q.readRanged slot 8 = some bytes := by
      refine (readRanged_eq_some_iff hafter (by decide)).mpr ⟨⟨hspanned',harena⟩,?_⟩
      rw [← hbytes, hcontents]
      refine List.map_congr_left fun i hi => ?_
      have hlt := List.mem_range.mp hi
      exact byteAt_lands hlands (hspanned.2 _ (Nat.le_add_right _ _) (by omega))
    rw [hwrite, hsame, Option.map_some, hrequested]
  · have hlaid : Laid (q.writeRanged slot (wordBytes requested)).1.memory := by
      rw [hwrite]
      exact laid_stores hafter _
    have hnew : (q.writeRanged slot (wordBytes requested)).1.readRanged slot 8 =
        some (wordBytes requested) := by
      rw [readRanged_eq_some_iff hlaid (by decide), hwrite]
      refine ⟨⟨hspanned',harena⟩,?_⟩
      refine List.ext_getElem (by simp [wordBytes]) fun i hi hi' => ?_
      rw [List.getElem_map, List.getElem_range]
      exact byteAt_write _ hi'
    rw [hnew, Option.map_some, fromLeBytes_wordBytes hword]

/-- A mapping without `MAP_FIXED` is given the address that was asked for where the search comes to
it first. -/
lemma base_eq_iff (hflags : flags &&& 0x10 ≠ 0x10) (hword : requested < 2^64)
    (h : (p.mmapAligned addr len align prot flags (-1) 0).2 = .ok base) :
    base = requested ↔
      p.memory.FirstOpen len align p.memory.heapCursor requested searchFuel := by
  have hmap := mmapAligned_ok_iff.mp h
  rw [targetAddr, if_neg hflags] at hmap
  have hlocate := (mapAligned_locate _ _ _ _ _ _).2 base hmap
  rw [(locate_anywhere hlocate).1, search_eq_iff hword]

lemma fromLeBytes_lt (bytes : List UInt8) : fromLeBytes bytes < 256^bytes.length := by
  induction bytes with
  | nil => decide
  | cons b bytes ih =>
    have hb := b.toNat_lt
    rw [fromLeBytes, List.foldr_cons, ← fromLeBytes, List.length_cons, Nat.pow_succ]
    omega

/-- The error of an anonymous mapping is not a success. -/
lemma error_ne_zero {e : ℤ}
    (hp : p.mmapAligned addr len align prot flags (-1) offset = (p',.error e)) : e ≠ 0 := by
  rcases p.mmapAligned_anonymous addr len align prot flags offset with ⟨m,-,hq⟩ | ⟨m,place,-,hq⟩
  · rw [hq] at hp
    cases hp
    decide
  · rw [hq] at hp
    cases hp

/-- What a mapping for a slot comes to: the request is honoured where it is what the search finds. -/
lemma slot_honoured_iff (h : Laid p.memory) (hread : p.readRanged slot 8 = some bytes)
    (hp : p.mmapAligned (fromLeBytes bytes) len align prot 0x1002 (-1) 0 = (p',.ok base)) :
    Honoured p (p'.writeRanged slot (wordBytes base)).1 slot (fromLeBytes bytes) len ↔
      p.memory.FirstOpen len align p.memory.heapCursor (fromLeBytes bytes) searchFuel := by
  have hlen : bytes.length = 8 := by
    rw [← ((readRanged_eq_some_iff h (by decide)).mp hread).2, List.length_map, List.length_range]
  have hword : fromLeBytes bytes < 2^64 := (fromLeBytes_lt bytes).trans_le (by rw [hlen]; decide)
  rw [← base_eq_iff (by decide) hword (congrArg Prod.snd hp)]
  rcases p.mmapAligned_anonymous (fromLeBytes bytes) len align prot 0x1002 0 with
    ⟨m,-,hq⟩ | ⟨m,place,hlands,hq⟩
  · rw [hq] at hp
    cases hp
  · rw [hq] at hp
    obtain ⟨rfl,hplace⟩ := Prod.mk.inj hp
    obtain rfl := Except.ok.inj hplace
    have htable : BecomesMapped p (({ p with memory := m } : Process).writeRanged slot
        (wordBytes place)).1 (fromLeBytes bytes) len ↔ place = fromLeBytes bytes := by
      rw [← becomesMapped_iff (q := { p with memory := m }) h hlands]
      rcases writeRanged_cases { p with memory := m } slot (wordBytes place) with hwrite | hwrite
      · rw [hwrite]
      · rw [hwrite]
        exact Iff.rfl
    rw [Honoured, htable]
    refine and_iff_left_of_imp ?_
    rintro rfl
    exact slot_lands (q := { p with memory := m }) h hlands rfl hread rfl hword

lemma mapFlexible_honoured_iff (h : Laid p.memory) (hread : p.readRanged slot 8 = some bytes)
    (hsuccess : (p.mapFlexible slot len prot).2 = 0) :
    Honoured p (p.mapFlexible slot len prot).1 slot (fromLeBytes bytes) len ↔
      p.memory.FirstOpen len 0 p.memory.heapCursor (fromLeBytes bytes) searchFuel := by
  unfold mapFlexible at hsuccess ⊢
  rw [hread] at hsuccess ⊢
  split_ifs at hsuccess ⊢
  · dsimp only at hsuccess ⊢
    cases hp : p.mmap (fromLeBytes bytes) len prot 0x1002 (-1) 0 with
    | mk p' result =>
      cases result with
      | ok base => exact slot_honoured_iff h hread hp
      | error e =>
        rw [hp] at hsuccess
        exact absurd hsuccess (error_ne_zero hp)
  · cases hsuccess

lemma reserveVirtualRange_honoured_iff (h : Laid p.memory) (hread : p.readRanged slot 8 = some bytes)
    (hsuccess : (p.sceKernelReserveVirtualRange slot len align).2 = 0) :
    Honoured p (p.sceKernelReserveVirtualRange slot len align).1 slot (fromLeBytes bytes) len ↔
      p.memory.FirstOpen len align p.memory.heapCursor (fromLeBytes bytes) searchFuel := by
  unfold sceKernelReserveVirtualRange at hsuccess ⊢
  rw [hread] at hsuccess ⊢
  split_ifs at hsuccess ⊢ with harena hzero
  · cases hsuccess
  · dsimp only at hsuccess ⊢
    cases hp : p.mmapAligned (fromLeBytes bytes) len align 3 0x1002 (-1) 0 with
    | mk p' result =>
      cases result with
      | ok base => exact slot_honoured_iff h hread hp
      | error e =>
        rw [hp] at hsuccess
        exact absurd hsuccess (error_ne_zero hp)
  · cases hsuccess

lemma batchEntry_honoured_iff (h : Laid p.memory) (start : UInt64) (protection : UInt8)
    (hstart : start.toNat ≠ 0) (hsuccess : (p.batchEntry ⟨start.toNat,0,len,protection⟩).2 = 0) :
    BecomesMapped p (p.batchEntry ⟨start.toNat,0,len,protection⟩).1 start.toNat len ↔
      len = 0 ∨ p.memory.FirstOpen len 0 p.memory.heapCursor start.toNat searchFuel := by
  by_cases hlen : len = 0
  · have hsame : p.batchEntry ⟨start.toNat,0,len,protection⟩ = (p,0) := by
      simp [batchEntry, hlen]
    rw [hsame]
    exact iff_of_true (fun a => ⟨.inl,fun hin => hin.resolve_right (by omega)⟩) (.inl hlen)
  · unfold batchEntry at hsuccess ⊢
    rw [if_neg (by simp), if_pos ⟨hstart,Nat.pos_of_ne_zero hlen⟩] at hsuccess ⊢
    rcases p.mmapAligned_anonymous start.toNat len 0 protection.toUInt32 0x1002 0 with
      ⟨m,-,hp⟩ | ⟨m,base,hlands,hp⟩
    · rw [mmap, hp] at hsuccess
      cases hsuccess
    · rw [mmap, hp]
      dsimp only
      rw [becomesMapped_iff (q := { p with memory := m }) h hlands,
        base_eq_iff (by decide) start.toNat_lt (congrArg Prod.snd hp)]
      simp only [hlen, false_or]

/-- In every state: a call that takes a base address and tells of a success has honoured it exactly
when the search from the cursor comes to it first. An entry of a batch without a length maps nothing,
as it was asked. -/
theorem requested_base_honoured_iff (hs : Reach stateStep (Start vm) (fun _ _ => True) p)
    (hread : p.readRanged slot 8 = some bytes) (start : UInt64) (protection : UInt8) :
    ((p.mapFlexible slot len prot).2 = 0 →
      (Honoured p (p.mapFlexible slot len prot).1 slot (fromLeBytes bytes) len ↔
        p.memory.FirstOpen len 0 p.memory.heapCursor (fromLeBytes bytes) searchFuel)) ∧
    ((p.sceKernelReserveVirtualRange slot len align).2 = 0 →
      (Honoured p (p.sceKernelReserveVirtualRange slot len align).1 slot (fromLeBytes bytes) len ↔
        p.memory.FirstOpen len align p.memory.heapCursor (fromLeBytes bytes) searchFuel)) ∧
    (start.toNat ≠ 0 → (p.batchEntry ⟨start.toNat,0,len,protection⟩).2 = 0 →
      (BecomesMapped p (p.batchEntry ⟨start.toNat,0,len,protection⟩).1 start.toNat len ↔
        len = 0 ∨ p.memory.FirstOpen len 0 p.memory.heapCursor start.toNat searchFuel)) :=
  have h := reach_laid hs
  ⟨mapFlexible_honoured_iff h hread,reserveVirtualRange_honoured_iff h hread,
    batchEntry_honoured_iff h start protection⟩

/-- A slot in the page of the gadget that holds a request. -/
def requestingProcess : Process :=
  ⟨.new TableRun.defaultVm,.empty,fun a => (wordBytes 0x500000000).getD (a-0x30000) 0,
    fun _ _ => none⟩

lemma requestingProcess_reached :
    Reach stateStep (Start TableRun.defaultVm) (fun _ _ => True) requestingProcess := .start rfl

/-- The request is free, but the heap starts below it. -/
theorem not_honoured_free_request :
    (¬∀ p, Reach stateStep (Start TableRun.defaultVm) (fun _ _ => True) p → ∀ slot len prot bytes,
      p.readRanged slot 8 = some bytes → fromLeBytes bytes ≠ 0 → (p.mapFlexible slot len prot).2 = 0 →
        Honoured p (p.mapFlexible slot len prot).1 slot (fromLeBytes bytes) len) ∧
    (¬∀ p, Reach stateStep (Start TableRun.defaultVm) (fun _ _ => True) p → ∀ slot len align bytes,
      p.readRanged slot 8 = some bytes → fromLeBytes bytes ≠ 0 →
        (p.sceKernelReserveVirtualRange slot len align).2 = 0 →
        Honoured p (p.sceKernelReserveVirtualRange slot len align).1 slot (fromLeBytes bytes) len) ∧
    ¬∀ p, Reach stateStep (Start TableRun.defaultVm) (fun _ _ => True) p → ∀ start len protection,
      start ≠ 0 → (p.batchEntry ⟨start,0,len,protection⟩).2 = 0 →
        BecomesMapped p (p.batchEntry ⟨start,0,len,protection⟩).1 start len := by
  have hread : requestingProcess.readRanged 0x30000 8 = some (wordBytes 0x500000000) := by
    decide +kernel
  refine ⟨fun h => ?_,fun h => ?_,fun h => ?_⟩
  · have hslot := (h _ requestingProcess_reached 0x30000 0x4000 3 _ hread (by decide)
      (by decide +kernel)).2
    exact absurd hslot (by decide +kernel)
  · have hslot := (h _ requestingProcess_reached 0x30000 0x4000 0x100000 _ hread (by decide)
      (by decide +kernel)).2
    exact absurd hslot (by decide +kernel)
  · obtain ⟨entry,he,hin⟩ := (h _ requestingProcess_reached 0x500000000 0x4000 3 (by decide)
      (by decide +kernel) 0x500000000).mpr (.inr ⟨le_refl _,by decide⟩)
    have hnone : ∀ entry ∈ (requestingProcess.batchEntry ⟨0x500000000,0,0x4000,3⟩).1.memory.allocations,
        ¬(entry.2.start ≤ 0x500000000 ∧ 0x500000000 < entry.2.stop) := by decide +kernel
    exact hnone entry he hin

/-- The same process, of which nothing more is known than that the slot can be read. -/
theorem requested_base_honoured_iff_gadget :
    ((requestingProcess.mapFlexible 0x30000 0x4000 3).2 = 0 →
      (Honoured requestingProcess (requestingProcess.mapFlexible 0x30000 0x4000 3).1 0x30000
        (fromLeBytes (wordBytes 0x500000000)) 0x4000 ↔ requestingProcess.memory.FirstOpen 0x4000 0
          requestingProcess.memory.heapCursor (fromLeBytes (wordBytes 0x500000000)) searchFuel)) ∧
    ((requestingProcess.sceKernelReserveVirtualRange 0x30000 0x4000 0x100000).2 = 0 →
      (Honoured requestingProcess
        (requestingProcess.sceKernelReserveVirtualRange 0x30000 0x4000 0x100000).1 0x30000
        (fromLeBytes (wordBytes 0x500000000)) 0x4000 ↔ requestingProcess.memory.FirstOpen 0x4000 0x100000
          requestingProcess.memory.heapCursor (fromLeBytes (wordBytes 0x500000000)) searchFuel)) ∧
    ((0x500000000 : UInt64).toNat ≠ 0 →
      (requestingProcess.batchEntry ⟨(0x500000000 : UInt64).toNat,0,0x4000,3⟩).2 = 0 →
      (BecomesMapped requestingProcess
        (requestingProcess.batchEntry ⟨(0x500000000 : UInt64).toNat,0,0x4000,3⟩).1
        (0x500000000 : UInt64).toNat 0x4000 ↔ 0x4000 = 0 ∨ requestingProcess.memory.FirstOpen 0x4000 0
          requestingProcess.memory.heapCursor (0x500000000 : UInt64).toNat searchFuel)) :=
  requested_base_honoured_iff requestingProcess_reached (by decide +kernel) 0x500000000 3

end Process

end Unemups4.Memory

import Unemups4.FreshMaps
import Unemups4.MemoryCalls

/-! Direct memory that a guest was told is mapped. A failure of the mapping is taken for a range that
was mapped before; what holds of the range after it depends on how it met the table. -/
namespace Unemups4.Memory
open Transition (Reach)
open Intervals (Covers Separated)
open VmMemoryManager

namespace Process

inductive DirectMapCall where
  | allocate (len align : UInt64)
  | map (physOff len : UInt64)
  | release (physOff len : UInt64)

def directStep (p : Process) : DirectMapCall → Option Process
  | .allocate len align => some (p.allocateDirectMemory len.toNat align.toNat).1
  | .map physOff len => some (p.mapDirectMemory physOff.toNat len.toNat).1
  | .release physOff len => some (p.releaseDirectMemory physOff.toNat len.toNat)

def DirectStart (vm : GuestVm) (p : Process) : Prop :=
  p.memory = .new vm ∧ p.directMemory = .empty

/-- Every byte of the range of an offset lies in some region. -/
def DirectMapped (p : Process) (physOff len : ℕ) : Prop :=
  ∀ a, directMemoryPoolBase+physOff ≤ a → a < directMemoryPoolBase+physOff+len → Mapped p.memory a

/-- Ranged reads of the range succeed, and ranged writes to it pass their check. -/
def Accessible (p : Process) (physOff len : ℕ) : Prop :=
  (p.readRanged (directMemoryPoolBase+physOff) len).isSome ∧
    ∀ data : List UInt8, data.length = len →
      ∃ r, p.memory.writeBytesRanged p.rounds (directMemoryPoolBase+physOff) data = some r ∧
        Passed r.2

/-- The range is empty, or mapped as a whole already, or it meets no region and ends in the arena. -/
def Mappable (p : Process) (physOff len : ℕ) : Prop :=
  len = 0 ∨ p.DirectMapped physOff len ∨
    (directMemoryPoolBase+physOff+len ≤ p.memory.vm.span ∧
      ∀ a, directMemoryPoolBase+physOff ≤ a → a < directMemoryPoolBase+physOff+len →
        ¬Mapped p.memory a)

end Process

section Explicit

variable {m m' : VmMemoryManager} {addr size align base : ℕ} {prot : MemoryProtection}
  {name : Option String}

/-- The regions are laid out, and all that was ever mapped still is. -/
structure Backed (m : VmMemoryManager) : Prop where
  laid : Laid m
  separated : Separated Prod.fst Prod.snd m.everMapped
  mapped : ∀ a, Covers Prod.fst Prod.snd m.everMapped a → Mapped m a

lemma backed_new (vm : GuestVm) : Backed (new vm) := by
  refine ⟨laid_new vm,(ArenaRun.noted_new vm).separated,fun a ⟨e,he,hin⟩ => ?_⟩
  obtain rfl := List.mem_singleton.mp he
  exact ⟨_,List.mem_singleton_self _,hin⟩

lemma Backed.refuses (h : Backed m) (hrefuses : Refuses m m') : Backed m' := by
  refine ⟨h.laid.refuses hrefuses,hrefuses.everMapped ▸ h.separated,fun a ha => ?_⟩
  rw [hrefuses.everMapped] at ha
  exact (hrefuses.mapped_iff a).mpr (h.mapped a ha)

lemma Backed.lands (h : Backed m) (hlands : Lands m m' addr size base prot name) : Backed m' := by
  have hlt : base < base+size := Nat.lt_add_of_pos_right hlands.located.pos
  obtain ⟨hsep,hcovers⟩ := noteEverMapped_covers h.separated hlt
  refine ⟨h.laid.lands hlands,hlands.everMapped ▸ hsep,fun a ha => ?_⟩
  rw [hlands.everMapped] at ha
  exact (hlands.mapped_iff h.laid a).mpr (((hcovers a).mp ha).imp_left (h.mapped a))

lemma Backed.stores (h : Backed m) (stores : List Store) : Backed { m with stores := stores } :=
  ⟨⟨h.laid.keyed,h.laid.belowSpan,h.laid.ordered⟩,h.separated,h.mapped⟩

/-- A range is free when no byte of it is mapped. -/
lemma Laid.isMemoryFree_of (h : Laid m) (hpos : 0 < size) (hword : addr+size < 2^64)
    (hnone : ∀ a, addr ≤ a → a < addr+size → ¬Mapped m a) : m.isMemoryFree addr size := by
  refine isMemoryFree_iff.mpr fun entry he => ?_
  rw [wrap, Nat.mod_eq_of_lt hword]
  have hlt := h.ordered.nonempty entry he
  rw [h.keyed entry he] at hlt
  by_contra hcon
  push Not at hcon
  exact hnone (max addr entry.2.start) (le_max_left _ _) (by omega)
    ⟨entry,he,le_max_right _ _,by omega⟩

/-- Nothing is zeroed in a range of which nothing was ever mapped. -/
lemma staleChunks_eq_nil (hnone : ∀ a, addr ≤ a → a < addr+size →
    ¬Covers Prod.fst Prod.snd m.everMapped a) : m.staleChunks addr size = [] := by
  have hparts : m.previouslyMappedParts addr (addr+size) = [] := by
    refine List.filter_eq_nil_iff.mpr fun part hpart => ?_
    obtain ⟨e,he,rfl⟩ := List.mem_map.mp hpart
    have hmem := (List.mem_filter.mp ((List.takeWhile_sublist _).mem he)).1
    rw [decide_eq_true_eq]
    intro hlt
    dsimp only at hlt
    exact hnone (max e.1 addr) (le_max_right _ _) (by omega) ⟨e,hmem,le_max_left _ _,by omega⟩
  rw [staleChunks, hparts]
  rfl

/-- A request with an address goes through where it fits the arena and meets no region. -/
lemma Backed.mapAligned_ok (h : Backed m) (hbase : guestBase ≤ addr) (hpos : 0 < size)
    (hspan : addr+size ≤ m.vm.span) (hnone : ∀ a, addr ≤ a → a < addr+size → ¬Mapped m a)
    (align : ℕ) (prot : MemoryProtection) (name : Option String) :
    (m.mapAligned addr size align prot name).2 = .ok addr := by
  have hword : addr+size < 2^64 := by
    have huser := m.vm.userSpace
    omega
  have hzero : addr ≠ 0 := by
    unfold guestBase at hbase
    omega
  have hfree := h.laid.isMemoryFree_of hpos hword hnone
  have hstale := staleChunks_eq_nil fun a hlo hhi hcov => hnone a hlo hhi (h.mapped a hcov)
  rw [mapAligned, if_neg hpos.ne', if_neg hzero, if_neg (not_lt.mpr hbase),
    if_neg (not_le.mpr hword), if_neg (not_lt.mpr hspan), if_neg (not_not.mpr hfree), place_closed,
    hstale]
  rfl

end Explicit

namespace Process

variable {p : Process} {physOff len : ℕ} {vm : GuestVm}

lemma not_mapped_of_le (h : Laid p.memory) {a : ℕ} (ha : 2^64 ≤ a) : ¬Mapped p.memory a := by
  rintro ⟨entry,he,-,hstop⟩
  have hspan := (h.belowSpan entry he).trans p.memory.vm.userSpace
  omega

lemma Backed.mapDirectMemory (h : Backed p.memory) (physOff len : ℕ) :
    Backed (p.mapDirectMemory physOff len).1.memory := by
  unfold Process.mapDirectMemory
  rcases p.mmapAligned_anonymous (DirectMemory.physToVa physOff) (max len 1) 0 3 0x1012 0 with
    ⟨m,hrefuses,hp⟩ | ⟨m,base,hlands,hp⟩
  · rw [hp]
    exact h.refuses hrefuses
  · rw [hp]
    exact h.lands hlands

/-- The range of an offset is mapped after the call exactly when it was mappable. -/
lemma directMapped_iff (h : Backed p.memory) : (p.mapDirectMemory physOff len).1.DirectMapped
    physOff len ↔ p.Mappable physOff len := by
  have hafter := (Backed.mapDirectMemory h physOff len).laid
  by_cases hzero : len = 0
  · exact iff_of_true (fun a hlo hhi => by omega) (.inl hzero)
  · have hsize : max len 1 = len := by omega
    by_cases hword : directMemoryPoolBase+physOff < 2^64
    · have hva : DirectMemory.physToVa physOff = directMemoryPoolBase+physOff :=
        DirectMemory.wrap_of_lt hword
      have hfixed : targetAddr (directMemoryPoolBase+physOff) 0x1012 =
          directMemoryPoolBase+physOff := if_pos (by decide)
      have hbase : guestBase ≤ directMemoryPoolBase+physOff :=
        le_trans (by decide) (Nat.le_add_right _ _)
      unfold Process.mapDirectMemory
      rw [hva, hsize]
      rcases p.mmapAligned_anonymous (directMemoryPoolBase+physOff) len 0 3 0x1012 0 with
        ⟨m,hrefuses,hp⟩ | ⟨m,base,hlands,hp⟩
      · -- a refusal leaves the table as it was, and does not come of a range that fits
        have hnot : ¬(directMemoryPoolBase+physOff+len ≤ p.memory.vm.span ∧
            ∀ a, directMemoryPoolBase+physOff ≤ a → a < directMemoryPoolBase+physOff+len →
              ¬Mapped p.memory a) := by
          rintro ⟨hspan,hnone⟩
          have hok := h.mapAligned_ok hbase (Nat.pos_of_ne_zero hzero) hspan hnone 0 (protectionOf 3)
            (some "guest_mmap")
          rw [← hfixed] at hok
          have hret : (p.mmapAligned (directMemoryPoolBase+physOff) len 0 3 0x1012 (-1) 0).2 = .ok _ :=
            mmapAligned_ok_iff.mpr hok
          rw [hp] at hret
          cases hret
        have hsame : DirectMapped { p with memory := m } physOff len ↔ p.DirectMapped physOff len :=
          forall₃_congr fun a _ _ => hrefuses.mapped_iff a
        rw [hp, hsame, Mappable]
        simp only [hzero, hnot, false_or, or_false]
      · rw [hfixed] at hlands
        have hnonzero : directMemoryPoolBase+physOff ≠ 0 :=
          (Nat.add_pos_left (by decide) physOff).ne'
        obtain ⟨rfl,-⟩ := hlands.located.explicit hnonzero
        rw [hp]
        refine iff_of_true (fun a hlo hhi => ?_) (.inr (.inr ⟨hlands.located.belowSpan,?_⟩))
        · exact (hlands.mapped_iff h.laid a).mpr (.inr ⟨hlo,hhi⟩)
        · exact fun a hlo hhi => hlands.not_mapped hlo hhi
    · have hbeyond := not_lt.mp hword
      refine iff_of_false (fun hall => ?_) ?_
      · exact not_mapped_of_le hafter hbeyond (hall _ (le_refl _) (by omega))
      · rintro (hcon | hall | ⟨hspan,-⟩)
        · exact hzero hcon
        · exact not_mapped_of_le h.laid hbeyond (hall _ (le_refl _) (by omega))
        · have huser := p.memory.vm.userSpace
          omega

/-- What is mapped can be read and written. -/
lemma accessible_of_directMapped (h : Laid p.memory) (hmapped : p.DirectMapped physOff len) :
    p.Accessible physOff len := by
  have hfuel : p.memory.allocations.length < p.rounds := Nat.lt_succ_self _
  by_cases hzero : len = 0
  · rw [hzero]
    refine ⟨rfl,fun data hdata => ?_⟩
    rw [List.eq_nil_of_length_eq_zero hdata]
    exact ⟨_,rfl,passed_ok⟩
  · obtain ⟨entry,he,-,hstop⟩ :=
      hmapped (directMemoryPoolBase+physOff+len-1) (by omega) (by omega)
    have hle := h.belowSpan entry he
    have huser := p.memory.vm.userSpace
    have hspanned : Spanned p.memory (directMemoryPoolBase+physOff) len := ⟨by omega,hmapped⟩
    constructor
    · obtain ⟨r,hread,hpassed,hok⟩ := h.readBytesRanged_passed p.contents len
        (show directMemoryPoolBase+physOff < 2^64 by omega) hfuel
      have hin : guestBase ≤ directMemoryPoolBase+physOff ∧
          directMemoryPoolBase+physOff+len ≤ p.memory.vm.span :=
        ⟨le_trans (by decide) (Nat.le_add_right _ _),by omega⟩
      obtain ⟨bytes,rfl⟩ := hok (hpassed.mpr hspanned) (.inr hin)
      rw [readRanged, hread]
      rfl
    · rintro data rfl
      obtain ⟨r,hwrite,hpassed⟩ := h.writeBytesRanged_passed data
        (show directMemoryPoolBase+physOff < 2^64 by omega) hfuel
      exact ⟨r,hwrite,hpassed.mpr hspanned⟩

theorem reach_backed (hs : Reach directStep (DirectStart vm) (fun _ _ => True) p) :
    Backed p.memory := by
  apply hs.invariant
  · rintro p ⟨hmemory,-⟩
    rw [hmemory]
    exact backed_new vm
  · intro p call p' h _ hstep
    cases call with
    | allocate len align =>
      obtain rfl := Option.some.inj hstep
      unfold allocateDirectMemory
      rcases p.directMemory.allocate len.toNat align.toNat with ⟨d,_ | off⟩
      · exact h
      · exact h
    | map physOff len =>
      obtain rfl := Option.some.inj hstep
      exact Backed.mapDirectMemory h _ _
    | release physOff len =>
      obtain rfl := Option.some.inj hstep
      exact h

/-- What a guest that was told of a success relies on. -/
def DirectTracked (p : Process) (physOff len : ℕ) : Prop :=
  p.DirectMapped physOff len ∧ p.Accessible physOff len

lemma directTracked_iff (h : Backed p.memory) :
    (p.mapDirectMemory physOff len).1.DirectTracked physOff len ↔ p.Mappable physOff len := by
  rw [← directMapped_iff h]
  exact ⟨And.left,fun hmapped =>
    ⟨hmapped,accessible_of_directMapped (Backed.mapDirectMemory h physOff len).laid hmapped⟩⟩

/-- The slot that the address is written to takes nothing off the table. -/
lemma directTracked_slot (h : Backed p.memory) (addr : ℕ) (data : List UInt8) :
    (p.writeRanged addr data).1.DirectTracked physOff len ↔ p.DirectTracked physOff len := by
  rcases p.writeRanged_cases addr data with hwrite | hwrite
  · rw [hwrite]
  · have hafter := (h.stores (.write addr data :: p.memory.stores)).laid
    rw [hwrite]
    constructor
    · exact fun htracked => ⟨htracked.1,accessible_of_directMapped h.laid htracked.1⟩
    · exact fun htracked => ⟨htracked.1,accessible_of_directMapped hafter htracked.1⟩

/-- In every state that direct-memory calls lead to: a range that a guest is told is mapped is tracked
exactly when it was mappable. The call tells of a success whenever its slot can be named, and an entry
of a batch whenever the address of its offset is not zero. -/
theorem direct_map_tracked_iff (hs : Reach directStep (DirectStart vm) (fun _ _ => True) p)
    (addr physOff len start : UInt64) (protection : UInt8) :
    (((p.sceKernelMapDirectMemory addr.toNat len.toNat physOff.toNat).2 = 0 →
      (p.sceKernelMapDirectMemory addr.toNat len.toNat physOff.toNat).1.DirectTracked
        physOff.toNat len.toNat) ↔
      ¬rangeInArena addr.toNat 8 ∨ p.Mappable physOff.toNat len.toNat) ∧
    (physOff.toNat ≠ 0 →
      (((p.batchEntry ⟨start.toNat,physOff.toNat,len.toNat,protection⟩).2 = 0 →
        (p.batchEntry ⟨start.toNat,physOff.toNat,len.toNat,protection⟩).1.DirectTracked
          physOff.toNat len.toNat) ↔
        DirectMemory.physToVa physOff.toNat = 0 ∨ p.Mappable physOff.toNat len.toNat)) := by
  have h := reach_backed hs
  have hmap := Backed.mapDirectMemory h physOff.toNat len.toNat
  have htracked : (p.mapDirectMemory physOff.toNat len.toNat).1.DirectTracked physOff.toNat len.toNat ↔
      p.Mappable physOff.toNat len.toNat := directTracked_iff h
  constructor
  · unfold sceKernelMapDirectMemory
    split_ifs with harena
    · dsimp only
      rw [directTracked_slot hmap, htracked]
      simp [harena]
    · simp [harena]
  · intro hoff
    unfold batchEntry
    rw [if_pos hoff]
    dsimp only
    rw [htracked]
    by_cases hva : DirectMemory.physToVa physOff.toNat = 0
    · simp [mapDirectMemory, hva]
    · simp [mapDirectMemory, hva]

/-- A page of direct memory that was mapped from a start of its own. -/
def mappedPage : Process :=
  ((⟨.new TableRun.defaultVm,.empty,fun _ => 0,fun _ _ => none⟩ : Process).mapDirectMemory
    0x10000 0x1000).1

lemma mappedPage_reached :
    Reach directStep (DirectStart TableRun.defaultVm) (fun _ _ => True) mappedPage :=
  .step (l := .map 0x10000 0x1000) (.start ⟨rfl,rfl⟩) trivial rfl

/-- Two pages from the same offset collide with the page, and the second stays unmapped. -/
theorem not_tracked_extended :
    (¬∀ p, Reach directStep (DirectStart TableRun.defaultVm) (fun _ _ => True) p →
      ∀ addr physOff len : UInt64,
        (p.sceKernelMapDirectMemory addr.toNat len.toNat physOff.toNat).2 = 0 →
        (p.sceKernelMapDirectMemory addr.toNat len.toNat physOff.toNat).1.DirectMapped
          physOff.toNat len.toNat) ∧
    ¬∀ p, Reach directStep (DirectStart TableRun.defaultVm) (fun _ _ => True) p →
      ∀ (start physOff len : UInt64) (protection : UInt8), physOff.toNat ≠ 0 →
        (p.batchEntry ⟨start.toNat,physOff.toNat,len.toNat,protection⟩).2 = 0 →
        (p.batchEntry ⟨start.toNat,physOff.toNat,len.toNat,protection⟩).1.DirectMapped
          physOff.toNat len.toNat := by
  constructor
  · intro h
    obtain ⟨entry,he,hin⟩ := h _ mappedPage_reached 0x30000 0x10000 0x2000 (by decide +kernel)
      0x900011000 (by decide) (by decide)
    have hnone : ∀ entry ∈ (mappedPage.sceKernelMapDirectMemory 0x30000 0x2000 0x10000).1.memory.allocations,
        ¬(entry.2.start ≤ 0x900011000 ∧ 0x900011000 < entry.2.stop) := by decide +kernel
    exact hnone entry he hin
  · intro h
    obtain ⟨entry,he,hin⟩ := h _ mappedPage_reached 0 0x10000 0x2000 3 (by decide)
      (by decide +kernel) 0x900011000 (by decide) (by decide)
    have hnone : ∀ entry ∈ (mappedPage.batchEntry ⟨0,0x10000,0x2000,3⟩).1.memory.allocations,
        ¬(entry.2.start ≤ 0x900011000 ∧ 0x900011000 < entry.2.stop) := by decide +kernel
    exact hnone entry he hin

/-- The page itself, mapped once more. -/
theorem direct_map_tracked_iff_again :
    (((mappedPage.sceKernelMapDirectMemory 0x30000 0x1000 0x10000).2 = 0 →
      (mappedPage.sceKernelMapDirectMemory 0x30000 0x1000 0x10000).1.DirectTracked 0x10000 0x1000) ↔
      ¬rangeInArena 0x30000 8 ∨ mappedPage.Mappable 0x10000 0x1000) ∧
    (0x10000 ≠ 0 →
      (((mappedPage.batchEntry ⟨0,0x10000,0x1000,3⟩).2 = 0 →
        (mappedPage.batchEntry ⟨0,0x10000,0x1000,3⟩).1.DirectTracked 0x10000 0x1000) ↔
        DirectMemory.physToVa 0x10000 = 0 ∨ mappedPage.Mappable 0x10000 0x1000)) :=
  direct_map_tracked_iff mappedPage_reached 0x30000 0x10000 0x1000 0 3

end Process

end Unemups4.Memory

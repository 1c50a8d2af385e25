import Unemups4.RangedAccess

/-! A fresh mapping reads as zero. Only what was mapped before is zeroed again, so the set of ranges
that the manager keeps must be the union of all that were ever mapped, and no byte outside of them may
have been written. -/
namespace Unemups4.Memory
open Transition (Reach)
open Intervals (Covers Separated merged touched untouched)
open VmMemoryManager

section Bytes

variable {contents : ℕ → UInt8} {stores new : List Store} {a : ℕ}

lemma byteAt_append (contents : ℕ → UInt8) (new stores : List Store) (a : ℕ) :
    byteAt contents (new ++ stores) a = byteAt (byteAt contents stores) new a := by
  unfold byteAt
  rw [List.findSome?_append]
  cases new.findSome? (Store.byte a) <;> rfl

/-- Zeroes leave a byte as it is, or zero. -/
lemma byteAt_zeroes (hnew : ∀ s ∈ new, ∃ addr len, s = .zero addr len) :
    byteAt contents new a = 0 ∨ byteAt contents new a = contents a ∧ ∀ s ∈ new, ¬s.Covers a := by
  induction new with
  | nil => exact .inr ⟨rfl,by simp⟩
  | cons s new ih =>
    obtain ⟨addr,len,rfl⟩ := hnew s List.mem_cons_self
    by_cases hin : addr ≤ a ∧ a < addr+len
    · left
      simp [byteAt, Store.byte, hin]
    · have hstep : byteAt contents (.zero addr len :: new) a = byteAt contents new a := by
        simp [byteAt, Store.byte, hin]
      rw [hstep]
      refine (ih fun s hs => hnew s (List.mem_cons_of_mem _ hs)).imp_right fun h => ⟨h.1,?_⟩
      exact List.forall_mem_cons.mpr ⟨hin,h.2⟩

lemma mem_zeroed {cs : List (ℕ × ℕ)} : ∀ s ∈ zeroed cs, ∃ addr len, s = .zero addr len := by
  intro s hs
  obtain ⟨c,-,rfl⟩ := List.mem_map.mp (List.mem_reverse.mp hs)
  exact ⟨c.1,c.2,rfl⟩

/-- A byte that reads as zero does so after more zeroes. -/
lemma byteAt_zeroes_append (hnew : ∀ s ∈ new, ∃ addr len, s = .zero addr len)
    (h : byteAt contents stores a = 0) : byteAt contents (new ++ stores) a = 0 := by
  rw [byteAt_append]
  rcases byteAt_zeroes hnew with hzero | ⟨hsame,-⟩
  · exact hzero
  · rw [hsame, h]

end Bytes

section Used

variable {m : VmMemoryManager} {addr size start stop a : ℕ}

/-- The chunks of a range cover it. -/
lemma exists_chunk (hstart : start ≤ a) (hstop : a < stop) :
    ∃ c ∈ chunks start stop, c.1 ≤ a ∧ a < c.1+c.2 := by
  have hdiv := Nat.div_add_mod' (a-start) (2^20)
  have hmod := Nat.mod_lt (a-start) (show 0 < 2^20 by decide)
  refine ⟨_,List.mem_map.mpr ⟨(a-start)/2^20,List.mem_range.mpr ?_,rfl⟩,?_,?_⟩
  · rw [Nat.lt_div_iff_mul_lt (by decide)]
    unfold zeroChunk
    omega
  · unfold zeroChunk
    omega
  · unfold zeroChunk
    omega

lemma previouslyMappedParts_eq (m : VmMemoryManager) (start stop : ℕ) :
    m.previouslyMappedParts start stop = ((Intervals.reaching Prod.fst Prod.snd m.everMapped start
      stop).map fun e => (max e.1 start,min e.2 stop)).filter fun part => part.1 < part.2 := rfl

/-- A placement zeroes each of its bytes that was mapped before. -/
lemma exists_staleChunk (h : Separated Prod.fst Prod.snd m.everMapped)
    (ha : Covers Prod.fst Prod.snd m.everMapped a) (hstart : addr ≤ a) (hstop : a < addr+size) :
    ∃ c ∈ m.staleChunks addr size, c.1 ≤ a ∧ a < c.1+c.2 := by
  obtain ⟨e,he,hlo,hhi⟩ := ha
  have hreach := h.ordered.mem_reaching he hlo hhi hstart hstop
  have hlow : max e.1 addr ≤ a := max_le hlo hstart
  have hhigh : a < min e.2 (addr+size) := lt_min hhi hstop
  have hpart : (max e.1 addr,min e.2 (addr+size)) ∈ m.previouslyMappedParts addr (addr+size) := by
    rw [previouslyMappedParts_eq, List.mem_filter]
    exact ⟨List.mem_map_of_mem hreach,decide_eq_true (hlow.trans_lt hhigh)⟩
  obtain ⟨c,hc,hin⟩ := exists_chunk hlow hhigh
  exact ⟨c,List.mem_flatMap.mpr ⟨_,hpart,hc⟩,hin⟩

lemma noteEverMapped_eq (m : VmMemoryManager) (start stop : ℕ) :
    (m.noteEverMapped start stop).everMapped = insertKey (merged m.everMapped start stop).1
      (merged m.everMapped start stop).2 (untouched m.everMapped start stop) := rfl

/-- The ranges that were mapped, and one more. -/
lemma noteEverMapped_covers (h : Separated Prod.fst Prod.snd m.everMapped) (hlt : start < stop) :
    Separated Prod.fst Prod.snd (m.noteEverMapped start stop).everMapped ∧
      ∀ x, Covers Prod.fst Prod.snd (m.noteEverMapped start stop).everMapped x ↔
        Covers Prod.fst Prod.snd m.everMapped x ∨ (start ≤ x ∧ x < stop) := by
  have hkeys : (untouched m.everMapped start stop).filter
      (fun e => e.1 ≠ (merged m.everMapped start stop).1) = untouched m.everMapped start stop := by
    refine List.filter_eq_self.mpr fun e he => decide_eq_true ?_
    have hne := h.nonempty e (Intervals.mem_untouched.mp he).1
    have hnew := Intervals.merged_lt (l := m.everMapped) hlt
    rcases h.merged_apart he with hlow | hhigh
    · exact (hne.trans hlow).ne
    · exact (hnew.trans hhigh).ne'
  rw [noteEverMapped_eq]
  refine h.union hlt ?_ (insertKey_sorted ((h.ordered.lo_lt.imp le_of_lt).filter _))
  have hperm : (insertKey (merged m.everMapped start stop).1 (merged m.everMapped start stop).2
    (untouched m.everMapped start stop)).Perm _ := insertKey_perm
  rwa [hkeys] at hperm

end Used

inductive ArenaCall where
  | map (addr size : ℕ) (prot : MemoryProtection) (name : Option String)
  | mapAligned (addr size align : ℕ) (prot : MemoryProtection) (name : Option String)
  | unmap (addr size : ℕ)
  | write (addr : ℕ) (data : List UInt8)

/-- The manager, and the ranges that have been mapped so far, the gadget's page among them. -/
structure ArenaRun where
  manager : VmMemoryManager
  used : List (ℕ × ℕ)

namespace ArenaRun

/-- The byte is mapped or once was. -/
def Used (s : ArenaRun) (a : ℕ) : Prop := Covers Prod.fst Prod.snd s.used a

def mapped (s : ArenaRun) (addr size align : ℕ) (prot : MemoryProtection) (name : Option String) :
    ArenaRun :=
  match s.manager.mapAligned addr size align prot name with
  | (m,.ok base) => ⟨m,(base,base+size) :: s.used⟩
  | (m,.error _) => ⟨m,s.used⟩

def step (s : ArenaRun) : ArenaCall → Option ArenaRun
  | .map addr size prot name => some (s.mapped addr size 0 prot name)
  | .mapAligned addr size align prot name => some (s.mapped addr size align prot name)
  | .unmap addr size => some { s with manager := s.manager.unmap addr size }
  | .write addr data => some { s with manager := (s.manager.writeBytes addr data).1 }

def Initial (vm : GuestVm) (s : ArenaRun) : Prop :=
  s = ⟨new vm,[(gadgetAddr,gadgetAddr+0x1000)]⟩

def Admits (s : ArenaRun) : ArenaCall → Prop
  | .write addr data => ∀ a, addr ≤ a → a < addr+data.length → s.Used a
  | _ => True

/-- All of the arena but the gadget's page starts zeroed; what is no byte of it stands as zero. -/
def StartsZeroed (contents : ℕ → UInt8) : Prop :=
  ∀ a, ¬(gadgetAddr ≤ a ∧ a < gadgetAddr+0x1000) → contents a = 0

/-- The set of ranges is exact, and what was never mapped reads as zero. -/
structure Noted (s : ArenaRun) : Prop where
  separated : Separated Prod.fst Prod.snd s.manager.everMapped
  exact : ∀ a, Covers Prod.fst Prod.snd s.manager.everMapped a ↔ s.Used a
  virgin : ∀ contents, StartsZeroed contents → ∀ a, ¬s.Used a →
    byteAt contents s.manager.stores a = 0

variable {vm : GuestVm} {s s' : ArenaRun} {m m' : VmMemoryManager} {addr size align base : ℕ}
  {prot : MemoryProtection} {name : Option String}

lemma noted_new (vm : GuestVm) : Noted ⟨new vm,[(gadgetAddr,gadgetAddr+0x1000)]⟩ := by
  refine ⟨⟨?_,List.pairwise_singleton _ _⟩,fun a => Iff.rfl,fun contents hzero a ha => hzero a ?_⟩
  · intro e he
    obtain rfl := List.mem_singleton.mp he
    decide
  · exact fun hin => ha ⟨_,List.mem_singleton_self _,hin⟩

lemma Noted.refused (h : Noted ⟨m,s.used⟩) (hrefuses : Refuses m m') : Noted ⟨m',s.used⟩ := by
  obtain ⟨-,-,hever,cs,hstores⟩ := hrefuses
  refine ⟨hever.symm ▸ h.separated,fun a => hever.symm ▸ h.exact a,fun contents hzero a ha => ?_⟩
  dsimp only
  rw [hstores]
  exact byteAt_zeroes_append mem_zeroed (h.virgin contents hzero a ha)

/-- What reads as zero, once a placement is through: what it was given, and what was never mapped. -/
lemma Noted.byteAt_lands (h : Noted s) (hlands : Lands s.manager m' addr size base prot name)
    {contents : ℕ → UInt8} (hzero : StartsZeroed contents) {a : ℕ}
    (ha : (base ≤ a ∧ a < base+size) ∨ ¬s.Used a) : byteAt contents m'.stores a = 0 := by
  rw [hlands.stores]
  by_cases hused : s.Used a
  · obtain ⟨hlow,hhigh⟩ := ha.resolve_right (not_not.mpr hused)
    obtain ⟨c,hc,hin⟩ := exists_staleChunk h.separated ((h.exact a).mpr hused) hlow hhigh
    rw [byteAt_append]
    rcases byteAt_zeroes mem_zeroed with hbyte | ⟨-,hnone⟩
    · exact hbyte
    · exact absurd hin (hnone (.zero c.1 c.2)
        (List.mem_reverse.mpr (List.mem_map.mpr ⟨c,hc,rfl⟩)))
  · exact byteAt_zeroes_append mem_zeroed (h.virgin contents hzero a hused)

lemma Noted.lands (h : Noted s) (hlands : Lands s.manager m' addr size base prot name) :
    Noted ⟨m',(base,base+size) :: s.used⟩ := by
  have hlt : base < base+size := Nat.lt_add_of_pos_right hlands.located.pos
  obtain ⟨hsep,hcovers⟩ := noteEverMapped_covers h.separated hlt
  refine ⟨hlands.everMapped.symm ▸ hsep,fun a => ?_,fun contents hzero a ha => ?_⟩
  · dsimp only [Used]
    rw [hlands.everMapped, hcovers, h.exact, Intervals.covers_cons, or_comm]
    rfl
  · refine h.byteAt_lands hlands hzero (.inr fun hused => ha ?_)
    exact Intervals.covers_cons.mpr (.inr hused)

lemma Noted.mapped (h : Noted s) (addr size align : ℕ) (prot : MemoryProtection)
    (name : Option String) : Noted (s.mapped addr size align prot name) := by
  have hcases := mapAligned_cases s.manager addr size align prot name
  unfold ArenaRun.mapped
  generalize s.manager.mapAligned addr size align prot name = r at hcases
  obtain ⟨m,result⟩ := r
  rcases hcases with ⟨e,rfl,hrefuses⟩ | ⟨base,rfl,hlands⟩
  · exact h.refused hrefuses
  · exact h.lands hlands

lemma discards_zeroes (start stop : ℕ) : ∀ s ∈ (discards start stop).reverse,
    ∃ addr len, s = .zero addr len := by
  intro s hs
  have hmem := List.mem_reverse.mp hs
  unfold discards at hmem
  dsimp only at hmem
  generalize (if start+0xfff < 2^64 then andNot (start+0xfff) 0xfff else 2^64-1) = low at hmem
  split_ifs at hmem
  · obtain ⟨part,-,rfl⟩ := List.mem_map.mp hmem
    exact ⟨_,_,rfl⟩
  · cases hmem

lemma Noted.unmap (h : Noted s) (addr size : ℕ) :
    Noted { s with manager := s.manager.unmap addr size } := by
  dsimp only [VmMemoryManager.unmap]
  split_ifs
  · exact h
  · exact ⟨h.separated,h.exact,fun contents hzero a ha =>
      byteAt_zeroes_append (discards_zeroes _ _) (h.virgin contents hzero a ha)⟩

/-- A write to bytes that are or once were mapped. -/
lemma Noted.write (h : Noted s) (data : List UInt8)
    (hused : ∀ a, addr ≤ a → a < addr+data.length → s.Used a) :
    Noted { s with manager := (s.manager.writeBytes addr data).1 } := by
  dsimp only [VmMemoryManager.writeBytes]
  split_ifs
  · refine ⟨h.separated,h.exact,fun contents hzero a ha => ?_⟩
    have hspare : (Store.write addr data).byte a = none :=
      Store.byte_eq_none_iff.mpr fun hcov => ha (hused a hcov.1 hcov.2)
    have hbyte := h.virgin contents hzero a ha
    unfold byteAt at *
    rwa [List.findSome?_cons, hspare]
  · exact h

lemma Noted.step (h : Noted s) {call : ArenaCall} (hok : s.Admits call)
    (hstep : s.step call = some s') : Noted s' := by
  cases call with
  | map addr size prot name =>
    obtain rfl := Option.some.inj hstep
    exact h.mapped ..
  | mapAligned addr size align prot name =>
    obtain rfl := Option.some.inj hstep
    exact h.mapped ..
  | unmap addr size =>
    obtain rfl := Option.some.inj hstep
    exact h.unmap addr size
  | write addr data =>
    obtain rfl := Option.some.inj hstep
    exact h.write data hok

lemma reach_noted (hs : Reach ArenaRun.step (Initial vm) Admits s) : Noted s := by
  apply hs.invariant
  · rintro s rfl
    exact noted_new vm
  · exact fun s call s' h hok hstep => h.step hok hstep

/-- Every byte of a range reads as zero when a request for it has just gone through, over every
sequence of maps, unmaps and writes to what is or once was mapped. -/
theorem fresh_map_reads_zero (hs : Reach ArenaRun.step (Initial vm) Admits s)
    {contents : ℕ → UInt8} (hzero : StartsZeroed contents) {addr size align : ℕ}
    {prot : MemoryProtection} {name : Option String} {m : VmMemoryManager} {base : ℕ}
    (hmap : s.manager.mapAligned addr size align prot name = (m,.ok base)) :
    ∀ a, base ≤ a → a < base+size → byteAt contents m.stores a = 0 := by
  intro a hlow hhigh
  have hcases := mapAligned_cases s.manager addr size align prot name
  rw [hmap] at hcases
  rcases hcases with ⟨e,herr,-⟩ | ⟨b,hok,hlands⟩
  · cases herr
  · obtain rfl := Except.ok.inj hok
    exact (reach_noted hs).byteAt_lands hlands hzero (.inl ⟨hlow,hhigh⟩)

/-- Half a page that was mapped, written and unmapped; no page of it was discarded. -/
def dirtied : ArenaRun :=
  let mapped := (⟨new TableRun.defaultVm,[(gadgetAddr,gadgetAddr+0x1000)]⟩ : ArenaRun).mapped
    0x100800 0x800 0 TableRun.readWrite none
  { mapped with manager := (mapped.manager.writeBytes 0x100800 [1,2,3]).1.unmap 0x100800 0x800 }

theorem fresh_map_reads_zero_dirtied : byteAt (fun _ => 0)
    (dirtied.manager.mapAligned 0x100800 0x800 0 TableRun.readWrite none).1.stores 0x100801 = 0 := by
  have hmapped : Reach ArenaRun.step (Initial TableRun.defaultVm) Admits _ :=
    .step (l := .map 0x100800 0x800 TableRun.readWrite none) (.start rfl) trivial rfl
  have hwritten : Reach ArenaRun.step (Initial TableRun.defaultVm) Admits _ :=
    .step (l := .write 0x100800 [1,2,3]) hmapped
      (fun a hlow hhigh => ⟨(0x100800,0x101000),by decide,hlow,hhigh.trans (by decide)⟩) rfl
  have hunmapped : Reach ArenaRun.step (Initial TableRun.defaultVm) Admits dirtied :=
    .step (l := .unmap 0x100800 0x800) hwritten trivial rfl
  have hok : (dirtied.manager.mapAligned 0x100800 0x800 0 TableRun.readWrite none).2 =
      .ok 0x100800 := by decide +kernel
  exact fresh_map_reads_zero (m := (dirtied.manager.mapAligned 0x100800 0x800 0 _ none).1) hunmapped
    (fun _ _ => rfl) (Prod.ext rfl hok) 0x100801 (by decide) (by decide)

end ArenaRun

end Unemups4.Memory

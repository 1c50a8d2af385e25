import Unemups4.DirectMemory
import Unemups4.MapPlaces
import Unemups4.RangedAccess
import Unemups4.SelfContainer

/-! The memory calls of a guest: the handlers read and write its in-out slots through checked handles,
and the process turns their flags into placements of the memory manager. -/
namespace Unemups4.Memory
open Transition (Reach)
open Loader (wordBytes fromLeBytes)

def defaultSpan : ℕ := 0x1000000000

/-- A handle names a range of the arena that was registered at start. -/
def rangeInArena (addr total : ℕ) : Bool :=
  addr ≠ 0 ∧ total ≠ 0 ∧ addr+total < 2^64 ∧ guestBase ≤ addr ∧
    addr+total ≤ guestBase+defaultSpan

/-- `contents` is what the arena held at start, and `pread` what a file holds from an offset on, with
`none` for a descriptor that cannot be read. -/
structure Process where
  memory : VmMemoryManager
  directMemory : DirectMemory
  contents : ℕ → UInt8
  pread : (fd : ℤ) → (offset : ℕ) → Option (List UInt8)

def protectionOf (prot : UInt32) : MemoryProtection :=
  ⟨prot &&& 1 ≠ 0,prot &&& 2 ≠ 0,prot &&& 4 ≠ 0⟩

/-- An entry of a batch: a direct-memory offset, or an address to commit. -/
structure BatchMapEntry where
  start : ℕ
  offset : ℕ
  length : ℕ
  protection : UInt8
  deriving DecidableEq, Repr

namespace Process

variable (p : Process)

/-- The rounds that a walk over the table can take. -/
def rounds : ℕ := p.memory.allocations.length+1

def readRanged (addr size : ℕ) : Option (List UInt8) :=
  match p.memory.readBytesRanged p.contents p.rounds addr size with
  | some (.ok bytes) => some bytes
  | _ => none

def writeRanged (addr : ℕ) (data : List UInt8) : Process × Bool :=
  match p.memory.writeBytesRanged p.rounds addr data with
  | some (m,.ok ()) => ({ p with memory := m },true)
  | _ => (p,false)

/-- Without `MAP_FIXED` (0x10) the address is no more than a hint, and the manager chooses one. -/
def targetAddr (addr : ℕ) (flags : UInt32) : ℕ := if flags &&& 0x10 = 0x10 then addr else 0

/-- A file-backed mapping, one without `MAP_ANONYMOUS` (0x1000), is filled from its file, and taken
back when that cannot be read. -/
def mmapAligned (addr len align : ℕ) (prot flags : UInt32) (fd offset : ℤ) :
    Process × Except ℤ ℕ :=
  match p.memory.mapAligned (targetAddr addr flags) len align (protectionOf prot)
    (some "guest_mmap") with
  | (m,.error _) => ({ p with memory := m },.error 12)
  | (m,.ok ptr) =>
      if 0 ≤ fd ∧ flags &&& 0x1000 = 0 then
        match p.pread fd offset.toNat with
        | some data =>
            let read := data.take len
            let filled := [.zero (ptr+read.length) (len-read.length),.write ptr read]
            ({ p with memory := { m with stores := filled++m.stores } },.ok ptr)
        | none => ({ p with memory := m.unmap ptr len },.error 9)
      else ({ p with memory := m },.ok ptr)

def mmap (addr len : ℕ) (prot flags : UInt32) (fd offset : ℤ) : Process × Except ℤ ℕ :=
  p.mmapAligned addr len 0 prot flags fd offset

def munmap (addr len : ℕ) : Process := { p with memory := p.memory.unmap addr len }

def allocateDirectMemory (len align : ℕ) : Process × Except ℤ ℕ :=
  match p.directMemory.allocate len align with
  | (d,none) => ({ p with directMemory := d },.error 12)
  | (d,some off) => ({ p with directMemory := d },.ok off)

/-- A failure is taken for a collision of a range that was mapped before, and is not reported. -/
def mapDirectMemory (physOff len : ℕ) : Process × ℕ :=
  ((p.mmapAligned (DirectMemory.physToVa physOff) (max len 1) 0 3 0x1012 (-1) 0).1,
    DirectMemory.physToVa physOff)

def releaseDirectMemory (physOff len : ℕ) : Process :=
  { p with directMemory := (p.directMemory.takeForRelease physOff len).1 }

/-- Anonymous and private (0x1002). -/
def mapFlexible (addrInOut length : ℕ) (prot : UInt32) : Process × ℤ :=
  if rangeInArena addrInOut 8 then
    match p.readRanged addrInOut 8 with
    | none => (p,22)
    | some slot =>
        match p.mmap (fromLeBytes slot) length prot 0x1002 (-1) 0 with
        | (p,.ok addr) => ((p.writeRanged addrInOut (wordBytes addr)).1,0)
        | (p,.error e) => (p,e)
  else (p,22)

def sceKernelReserveVirtualRange (addrInOut length alignment : ℕ) : Process × ℤ :=
  if rangeInArena addrInOut 8 then
    match p.readRanged addrInOut 8 with
    | none => (p,22)
    | some slot =>
        if length = 0 then (p,22)
        else
          match p.mmapAligned (fromLeBytes slot) length alignment 3 0x1002 (-1) 0 with
          | (p,.ok base) => ((p.writeRanged addrInOut (wordBytes base)).1,0)
          | (p,.error e) => (p,e)
  else (p,22)

def sceKernelMapDirectMemory (addr length start : ℕ) : Process × ℤ :=
  if rangeInArena addr 8 then
    let (p,va) := p.mapDirectMemory start length
    ((p.writeRanged addr (wordBytes va)).1,0)
  else (p,-14)

/-- An entry with an offset maps direct memory, and one without commits its range. -/
def batchEntry (e : BatchMapEntry) : Process × ℤ :=
  if e.offset ≠ 0 then
    let (p,va) := p.mapDirectMemory e.offset e.length
    (p,if va = 0 then 12 else 0)
  else if e.start ≠ 0 ∧ 0 < e.length then
    match p.mmap e.start e.length e.protection.toUInt32 0x1002 (-1) 0 with
    | (p,.ok _) => (p,0)
    | (p,.error err) => (p,err)
  else (p,0)

/-- The entries up to the first that fails: how many went through, and the failure. -/
def batchEntries (p : Process) : List BatchMapEntry → Process × ℕ × ℤ
  | [] => (p,0,0)
  | e :: es =>
      match p.batchEntry e with
      | (p,0) =>
          let (p,done,result) := p.batchEntries es
          (p,done+1,result)
      | (p,step) => (p,0,step)

def readEntries (entries count : ℕ) : Option (List BatchMapEntry) :=
  if 32*count < 2^64 ∧ rangeInArena entries (32*count) then
    (p.readRanged entries (32*count)).map fun bytes => (List.range count).map fun i =>
      let entry := bytes.drop (32*i)
      ⟨fromLeBytes (entry.take 8),fromLeBytes ((entry.drop 8).take 8),fromLeBytes ((entry.drop 16).take 8),
        (entry.drop 24).headD 0⟩
  else none

def batchMapImpl (entries : ℕ) (count : ℤ) (processedOut : ℕ) : Process × ℤ :=
  if count < 0 then (p,22)
  else
    match p.readEntries entries count.toNat with
    | none => (p,14)
    | some list =>
        let (p,done,result) := p.batchEntries list
        (if rangeInArena processedOut 4 then
          (p.writeRanged processedOut ((wordBytes done).take 4)).1 else p,result)

variable {p}

/-- Each of the entries answers 0, and the process comes to be the second one. -/
def Processes (p : Process) : List BatchMapEntry → Process → Prop
  | [],q => q = p
  | e :: es,q => (p.batchEntry e).2 = 0 ∧ (p.batchEntry e).1.Processes es q

/-- The entries that are counted are those that answered 0, up to the first that did not. -/
lemma batchEntries_processes (p : Process) (es : List BatchMapEntry) :
    ∃ done rest q, es = done ++ rest ∧ p.Processes done q ∧
      (rest = [] ∧ p.batchEntries es = (q,done.length,0) ∨
        ∃ e more, rest = e :: more ∧ (q.batchEntry e).2 ≠ 0 ∧
          p.batchEntries es = ((q.batchEntry e).1,done.length,(q.batchEntry e).2)) := by
  induction es generalizing p with
  | nil => exact ⟨[],[],p,rfl,rfl,.inl ⟨rfl,rfl⟩⟩
  | cons e es ih =>
    by_cases hzero : (p.batchEntry e).2 = 0
    · have hentry : p.batchEntry e = ((p.batchEntry e).1,0) := Prod.ext rfl hzero
      obtain ⟨done,rest,q,rfl,hdone,hend⟩ := ih (p.batchEntry e).1
      refine ⟨e :: done,rest,q,rfl,⟨hzero,hdone⟩,?_⟩
      rcases hend with ⟨hrest,hbatch⟩ | ⟨e',more,hrest,hfail,hbatch⟩
      · exact .inl ⟨hrest,by rw [batchEntries, hentry]; simp [hbatch]⟩
      · exact .inr ⟨e',more,hrest,hfail,by rw [batchEntries, hentry]; simp [hbatch]⟩
    · refine ⟨[],e :: es,p,rfl,rfl,.inr ⟨e,es,rfl,hzero,?_⟩⟩
      rw [batchEntries]
      split
      next q heq => exact absurd (congrArg Prod.snd heq) hzero
      next q step _ heq => rw [heq]; rfl

/-- A batch that could be read tells the guest how many of its entries went through, and answers
with the failure of the one after them. -/
theorem batchMapImpl_processes {entries processedOut : ℕ} {count : ℤ} {list : List BatchMapEntry}
    (hcount : 0 ≤ count) (hread : p.readEntries entries count.toNat = some list) :
    ∃ done rest q q', list = done ++ rest ∧ p.Processes done q ∧
      (rest = [] ∧ q' = q ∧ (p.batchMapImpl entries count processedOut).2 = 0 ∨
        ∃ e more, rest = e :: more ∧ q' = (q.batchEntry e).1 ∧
          (p.batchMapImpl entries count processedOut).2 = (q.batchEntry e).2 ∧ (q.batchEntry e).2 ≠ 0) ∧
      (p.batchMapImpl entries count processedOut).1 =
        if rangeInArena processedOut 4 then
          (q'.writeRanged processedOut ((wordBytes done.length).take 4)).1 else q' := by
  obtain ⟨done,rest,q,hlist,hdone,hend⟩ := batchEntries_processes p list
  have himpl : p.batchMapImpl entries count processedOut =
      (if rangeInArena processedOut 4 then ((p.batchEntries list).1.writeRanged processedOut
        ((wordBytes (p.batchEntries list).2.1).take 4)).1 else (p.batchEntries list).1,
        (p.batchEntries list).2.2) := by
    rw [batchMapImpl, if_neg (not_lt.mpr hcount), hread]
  rcases hend with ⟨hrest,hbatch⟩ | ⟨e,more,hrest,hfail,hbatch⟩
  · exact ⟨done,rest,q,q,hlist,hdone,.inl ⟨hrest,rfl,by rw [himpl, hbatch]⟩,by rw [himpl, hbatch]⟩
  · exact ⟨done,rest,q,_,hlist,hdone,.inr ⟨e,more,hrest,rfl,by rw [himpl, hbatch],hfail⟩,
      by rw [himpl, hbatch]⟩

end Process

open VmMemoryManager

section Steps

variable {m m' : VmMemoryManager} {base size addr : ℕ} {prot : MemoryProtection}
  {name : Option String} {a : ℕ}

/-- What is mapped after a request that went through. -/
lemma Lands.mapped_iff (h : Lands m m' addr size base prot name) (hm : Laid m) (a : ℕ) :
    Mapped m' a ↔ Mapped m a ∨ (base ≤ a ∧ a < base+size) := by
  unfold Mapped
  rw [h.allocations]
  constructor
  · rintro ⟨entry,he,hin⟩
    rcases mem_insertKey.mp he with rfl | ⟨he,-⟩
    · exact .inr hin
    · exact .inl ⟨entry,he,hin⟩
  · rintro (⟨entry,he,hin⟩ | hin)
    · -- a region under the same start would meet the new one
      have hapart := h.located.apart he
      have hpos := h.located.pos
      have hkey := hm.keyed entry he
      have hlt := hm.ordered.nonempty entry he
      exact ⟨entry,mem_insertKey.mpr (.inr ⟨he,by omega⟩),hin⟩
    · exact ⟨(base,region base size prot name),mem_insertKey.mpr (.inl rfl),hin⟩

/-- The new region holds nothing that was mapped. -/
lemma Lands.not_mapped (h : Lands m m' addr size base prot name) (hlo : base ≤ a)
    (hhi : a < base+size) : ¬Mapped m a := by
  rintro ⟨entry,he,hstart,hstop⟩
  have hapart := h.located.apart he
  omega

lemma Refuses.mapped_iff (h : Refuses m m') (a : ℕ) : Mapped m' a ↔ Mapped m a := by
  rw [Mapped, Mapped, h.allocations]

end Steps

namespace Process

variable {p : Process} {addr len align : ℕ} {prot flags : UInt32} {fd offset : ℤ}

/-- What a mapping of the process does to its memory: the request is refused, or it goes through and
may be filled from a file, or it is taken back. -/
lemma mmapAligned_cases (p : Process) (addr len align : ℕ) (prot flags : UInt32) (fd offset : ℤ) :
    (∃ m, Refuses p.memory m ∧
      p.mmapAligned addr len align prot flags fd offset = ({ p with memory := m },.error 12)) ∨
    ∃ m base, Lands p.memory m (targetAddr addr flags) len base (protectionOf prot)
        (some "guest_mmap") ∧
      (p.mmapAligned addr len align prot flags fd offset =
          ({ p with memory := m.unmap base len },.error 9) ∨
        ∃ stores, p.mmapAligned addr len align prot flags fd offset =
          ({ p with memory := { m with stores := stores++m.stores } },.ok base)) := by
  have hcases := mapAligned_cases p.memory (targetAddr addr flags) len align (protectionOf prot)
    (some "guest_mmap")
  unfold mmapAligned
  generalize p.memory.mapAligned (targetAddr addr flags) len align (protectionOf prot)
    (some "guest_mmap") = r at hcases
  obtain ⟨m,result⟩ := r
  rcases hcases with ⟨e,rfl,hrefuses⟩ | ⟨base,rfl,hlands⟩
  · exact .inl ⟨m,hrefuses,rfl⟩
  · refine .inr ⟨m,base,hlands,?_⟩
    dsimp only
    split_ifs
    · cases p.pread fd offset.toNat with
      | none => exact .inl rfl
      | some data => exact .inr ⟨[_,_],rfl⟩
    · exact .inr ⟨[],rfl⟩

/-- The same where the mapping is anonymous. -/
lemma mmapAligned_anonymous (p : Process) (addr len align : ℕ) (prot flags : UInt32) (offset : ℤ) :
    (∃ m, Refuses p.memory m ∧
      p.mmapAligned addr len align prot flags (-1) offset = ({ p with memory := m },.error 12)) ∨
    ∃ m base, Lands p.memory m (targetAddr addr flags) len base (protectionOf prot)
        (some "guest_mmap") ∧
      p.mmapAligned addr len align prot flags (-1) offset = ({ p with memory := m },.ok base) := by
  have hcases := mapAligned_cases p.memory (targetAddr addr flags) len align (protectionOf prot)
    (some "guest_mmap")
  unfold mmapAligned
  generalize p.memory.mapAligned (targetAddr addr flags) len align (protectionOf prot)
    (some "guest_mmap") = r at hcases
  obtain ⟨m,result⟩ := r
  rcases hcases with ⟨e,rfl,hrefuses⟩ | ⟨base,rfl,hlands⟩
  · exact .inl ⟨m,hrefuses,rfl⟩
  · exact .inr ⟨m,base,hlands,rfl⟩

/-- An anonymous mapping is given the place that the manager gives it. -/
lemma mmapAligned_ok_iff {base : ℕ} :
    (p.mmapAligned addr len align prot flags (-1) offset).2 = .ok base ↔
      (p.memory.mapAligned (targetAddr addr flags) len align (protectionOf prot)
        (some "guest_mmap")).2 = .ok base := by
  unfold mmapAligned
  generalize p.memory.mapAligned (targetAddr addr flags) len align (protectionOf prot)
    (some "guest_mmap") = r
  obtain ⟨m,e | ptr⟩ := r
  · exact iff_of_false nofun nofun
  · simp

/-- A write stores its bytes, or leaves all as it was. -/
lemma writeRanged_cases (p : Process) (addr : ℕ) (data : List UInt8) :
    (p.writeRanged addr data).1 = p ∨ (p.writeRanged addr data).1 =
      { p with memory := { p.memory with stores := .write addr data :: p.memory.stores } } := by
  unfold writeRanged writeBytesRanged
  split_ifs with hempty
  · exact .inl rfl
  · rcases p.memory.rangeCheck p.rounds addr data.length with _ | e | u
    · exact .inl rfl
    · exact .inl rfl
    · dsimp only [VmMemoryManager.writeBytes]
      split_ifs
      · exact .inr rfl
      · exact .inl rfl

end Process

end Unemups4.Memory

import Unemups4.Dirents
import Unemups4.StoredBytes
import Unemups4.RangedAccess

/-! Reading from a descriptor: the host's file is read into a scratch buffer first, and that goes
into guest memory afterwards. A guest buffer that refuses its bytes then fails a call whose bytes
the host has counted already. -/
namespace Unemups4.Files
open Loader (slice zeros number)
open Memory (VmMemoryManager GuestVm Store byteAt byteAt_cons guestBase)

/-- An open descriptor. A directory has no bytes. -/
structure OpenFile where
  flags : BitVec 32
  contents : List UInt8
  pos : ℕ
  dir : Option DirCursor

structure Iovec where
  base : ℕ
  len : ℕ
  deriving DecidableEq, Repr

/-- What the host does for a read: it has no room for the scratch buffer, it fails, or it is
ready to give so many bytes. -/
inductive HostRead where
  | noScratch
  | failed
  | gives (count : ℕ)
  deriving DecidableEq, Repr

/-- A descriptor, open or not, and the guest's memory. -/
structure FdState where
  kernel : Bool
  file : Option OpenFile
  mem : VmMemoryManager

namespace OpenFile

variable (f : OpenFile)

def advance (n : ℕ) : OpenFile := { f with pos := f.pos+n }

/-- A read ends with the file. -/
def available (len count : ℕ) : ℕ := min count (min len (f.contents.length-f.pos))

def writeOnly : Bool := f.flags &&& 3 = 1

def read (len : ℕ) (host : HostRead) : OpenFile × Except ℕ (List UInt8) :=
  if f.writeOnly then (f,.error 9)
  else
    match host with
    | .noScratch | .failed => (f,.error 5)
    | .gives count =>
        let n := f.available len count
        (f.advance n,.ok (slice f.contents f.pos n))

/-- The offset counts from the start, the position or the end. -/
def lseek (offset whence : ℤ) (allowed : Bool) : OpenFile × Except ℕ ℕ :=
  let target : Option ℤ :=
    if whence = 0 then some offset
    else if whence = 1 then some (f.pos+offset)
    else if whence = 2 then some (f.contents.length+offset)
    else none
  match target with
  | none => (f,.error 22)
  | some pos =>
      if 0 ≤ pos ∧ pos < 2^63 ∧ allowed then ({ f with pos := pos.toNat },.ok pos.toNat)
      else (f,.error 22)

end OpenFile

section Calls

variable (contents : ℕ → UInt8) (s : FdState)

/-- The scratch buffer goes into guest memory. -/
def FdState.deliver (f : OpenFile) (ptr : ℕ) (bytes : List UInt8) : FdState × Except ℕ ℕ :=
  match s.mem.writeBytes ptr bytes with
  | (mem,.ok ()) => ({ s with file := some f, mem := mem },.ok bytes.length)
  | (mem,.error _) => ({ s with file := some f, mem := mem },.error 14)

def fileRead (ptr len : ℕ) (host : HostRead) : FdState × Except ℕ ℕ :=
  if host = .noScratch then (s,.error 12)
  else
    match s.file with
    | none => (s,.error 9)
    | some f =>
        match f.read len host with
        | (f',.error e) => ({ s with file := some f' },.error e)
        | (f',.ok bytes) => s.deliver f' ptr bytes

def readImpl (ptr len : ℕ) (host : HostRead) : FdState × Except ℕ ℕ :=
  if s.kernel then fileRead s ptr len host else (s,.error 1)

/-- One buffer after the other; after some bytes an error ends the call as a short read does. -/
def readvLoop : (hosts : ℕ → HostRead) → (totalRead : ℕ) → List Iovec → FdState →
    FdState × Except ℕ ℕ
  | _,totalRead,[],s => (s,.ok totalRead)
  | hosts,totalRead,iov :: iovs,s =>
      if iov.len = 0 then readvLoop (fun i => hosts (i+1)) totalRead iovs s
      else
        match fileRead s iov.base iov.len (hosts 0) with
        | (s',.ok n) =>
            if n < iov.len then (s',.ok (totalRead+n))
            else readvLoop (fun i => hosts (i+1)) (totalRead+n) iovs s'
        | (s',.error e) => (s',if 0 < totalRead then .ok totalRead else .error e)

def isGuestRange (m : VmMemoryManager) (ptr len : ℕ) : Bool :=
  ptr ≠ 0 ∧ len ≠ 0 ∧ guestBase ≤ ptr ∧ ptr+len ≤ m.vm.span

/-- The records of sixteen bytes of an array. -/
def iovecsOf (bytes : List UInt8) (count : ℕ) : List Iovec :=
  (List.range count).map fun i => ⟨number bytes (16*i) 8,number bytes (16*i+8) 8⟩

def readVec (m : VmMemoryManager) (ptr count : ℕ) : Option (List Iovec) :=
  if isGuestRange m ptr (16*count) then
    match m.readBytesRanged contents (m.allocations.length+1) ptr (16*count) with
    | some (.ok bytes) => some (iovecsOf bytes count)
    | _ => none
  else none

def readvImpl (iovPtr : ℕ) (iovcnt : ℤ) (hosts : ℕ → HostRead) : FdState × Except ℕ ℕ :=
  if iovPtr = 0 ∨ iovcnt < 0 then (s,.error 22)
  else if iovcnt = 0 then (s,.ok 0)
  else
    match readVec contents s.mem iovPtr iovcnt.toNat with
    | none => (s,.error 14)
    | some iovecs => if s.kernel then readvLoop hosts 0 iovecs s else (s,.error 1)

/-- `host` is what the host answers if the directory is listed now. -/
def fileGetdents (ptr len : ℕ) (scratch : Bool) (host : Except ℕ (List HostEntry)) :
    FdState × Except ℕ ℕ :=
  if scratch then
    match s.file with
    | none => (s,.error 9)
    | some f =>
        match getdents host f.dir (zeros len) with
        | (dir,_,.error e) => ({ s with file := some { f with dir := dir } },.error e)
        | (dir,buf,.ok written) => s.deliver { f with dir := dir } ptr (buf.take written)
  else (s,.error 12)

def getdentsImpl (buf nbytes : ℕ) (scratch : Bool) (host : Except ℕ (List HostEntry)) :
    FdState × Except ℕ ℕ :=
  if isGuestRange s.mem buf 1 then
    if s.kernel then fileGetdents s buf nbytes scratch host else (s,.error 1)
  else (s,.error 14)

def lseekImpl (offset whence : ℤ) (allowed : Bool) : FdState × Except ℕ ℕ :=
  if s.kernel then
    match s.file with
    | none => (s,.error 9)
    | some f =>
        let r := f.lseek offset whence allowed
        ({ s with file := some r.1 },r.2)
  else (s,.error 1)

end Calls

/-- A call on the descriptor, with what the host does for it. -/
inductive FdCall where
  | read (ptr len : ℕ) (host : HostRead)
  | readv (iovPtr : ℕ) (iovcnt : ℤ) (hosts : ℕ → HostRead)
  | getdents (buf nbytes : ℕ) (scratch : Bool) (host : Except ℕ (List HostEntry))
  | lseek (offset whence : ℤ) (allowed : Bool)

def FdCall.run (contents : ℕ → UInt8) (s : FdState) : FdCall → FdState × Except ℕ ℕ
  | .read ptr len host => readImpl s ptr len host
  | .readv iovPtr iovcnt hosts => readvImpl contents s iovPtr iovcnt hosts
  | .getdents buf nbytes scratch host => getdentsImpl s buf nbytes scratch host
  | .lseek offset whence allowed => lseekImpl s offset whence allowed

section Promise

variable (contents : ℕ → UInt8) (s s' : FdState)

def FdState.position : Option ℕ := s.file.map OpenFile.pos

/-- A directory that was not listed yet is at its start. -/
def FdState.cursor : Option ℕ := s.file.map fun f => (f.dir.map DirCursor.pos).getD 0

/-- The bytes of the file from the position on. -/
def FdState.ahead (n : ℕ) : List UInt8 :=
  match s.file with
  | none => []
  | some f => slice f.contents f.pos n

/-- Bytes go into the buffers in order, each buffer up to its length. -/
def scatter : List Iovec → List UInt8 → List Store → List Store
  | [],_,stores => stores
  | iov :: iovs,data,stores =>
      scatter iovs (data.drop iov.len) (.write iov.base (data.take iov.len) :: stores)

def SameBytes (stores stores' : List Store) : Prop :=
  ∀ a, byteAt contents stores a = byteAt contents stores' a

/-- The bytes between the two positions are in the buffers. -/
structure Delivered (bufs : List Iovec) (n : ℕ) : Prop where
  moved : s'.position = s.position.map (· + n)
  cursor : s'.cursor = s.cursor
  read : (s.ahead n).length = n
  room : n ≤ (bufs.map Iovec.len).sum
  stored : SameBytes contents s'.mem.stores (scatter bufs (s.ahead n) s.mem.stores)

/-- The entries taken down, now or by an earlier call. -/
def openCursor (host : Except ℕ (List HostEntry)) : Option DirCursor → Option DirCursor
  | some c => some c
  | none =>
      match host with
      | .ok listing => some ⟨snapshot listing,0⟩
      | .error _ => none

/-- The records of the entries between the two cursors are in the buffer. -/
structure Listed (buf : ℕ) (host : Except ℕ (List HostEntry)) (n : ℕ) : Prop where
  moved : ∃ f c taken, s.file = some f ∧ openCursor host f.dir = some c ∧
    s'.file = some { f with dir := some { c with pos := c.pos+taken } } ∧
    (records ((c.entries.drop c.pos).take taken)).length = n ∧
    SameBytes contents s'.mem.stores
      (.write buf (records ((c.entries.drop c.pos).take taken)) :: s.mem.stores)

def FdCall.Reports : FdCall → ℕ → Prop
  | .read ptr len _,n => Delivered contents s s' [⟨ptr,len⟩] n
  | .readv iovPtr iovcnt _,n =>
      Delivered contents s s' ((readVec contents s.mem iovPtr iovcnt.toNat).getD []) n
  | .getdents buf _ _ host,n => Listed contents s s' buf host n
  | .lseek _ _ _,_ => True

/-- What a call reports as read is what lies between the positions before and after it, and an
error leaves the position and the cursor. -/
def FdCall.Faithful (call : FdCall) : Prop :=
  let s' := (call.run contents s).1
  match (call.run contents s).2 with
  | .ok n => call.Reports contents s s' n
  | .error _ => s'.position = s.position ∧ s'.cursor = s.cursor

end Promise

section Condition

variable (f : OpenFile) (vm : GuestVm)

/-- The host gives bytes that guest memory does not take. -/
def OpenFile.Refuses (iov : Iovec) (host : HostRead) : Prop :=
  f.writeOnly = false ∧ ∃ count, host = .gives count ∧ 0 < f.available iov.len count ∧
    vm.accepts iov.base (f.available iov.len count) = false

/-- The host fills the buffer. -/
def OpenFile.Fills (iov : Iovec) (host : HostRead) : Prop :=
  iov.len = 0 ∨ (f.writeOnly = false ∧ ∃ count, host = .gives count ∧
    f.available iov.len count = iov.len ∧ vm.accepts iov.base iov.len)

/-- No buffer that a call comes to refuses its bytes: the first, and each one behind those that
were filled. -/
def NoneRefuses (vm : GuestVm) : OpenFile → (ℕ → HostRead) → List Iovec → Prop
  | _,_,[] => True
  | f,hosts,iov :: iovs => ¬f.Refuses vm iov (hosts 0) ∧
      (f.Fills vm iov (hosts 0) → NoneRefuses vm (f.advance iov.len) (fun i => hosts (i+1)) iovs)

def FdCall.Accepted (contents : ℕ → UInt8) (s : FdState) (call : FdCall) : Prop :=
  s.kernel → ∀ f, s.file = some f →
    match call with
    | .read ptr len host => ¬f.Refuses s.mem.vm ⟨ptr,len⟩ host
    | .readv iovPtr iovcnt hosts => ∀ iovs, readVec contents s.mem iovPtr iovcnt.toNat = some iovs →
        NoneRefuses s.mem.vm f hosts iovs
    | .getdents buf nbytes scratch host => isGuestRange s.mem buf 1 → scratch →
        ∀ c, openCursor host f.dir = some c → fitting (c.entries.drop c.pos) nbytes ≠ [] →
          s.mem.vm.accepts buf (records (fitting (c.entries.drop c.pos) nbytes)).length
    | .lseek _ _ _ => True

end Condition

section Scattered

variable {contents : ℕ → UInt8} {stores stores' : List Store} {bufs iovs : List Iovec}

lemma SameBytes.cons (h : SameBytes contents stores stores') (s : Store) :
    SameBytes contents (s :: stores) (s :: stores') := by
  intro a
  rw [byteAt_cons, byteAt_cons, h a]

lemma SameBytes.trans {stores'' : List Store} (h : SameBytes contents stores stores')
    (h' : SameBytes contents stores' stores'') : SameBytes contents stores stores'' :=
  fun a => (h a).trans (h' a)

/-- A store of nothing. -/
lemma sameBytes_empty (ptr : ℕ) : SameBytes contents stores (.write ptr [] :: stores) := by
  intro a
  simp [byteAt_cons, Store.byte]

lemma scatter_congr (data : List UInt8) (h : SameBytes contents stores stores') :
    SameBytes contents (scatter bufs data stores) (scatter bufs data stores') := by
  induction bufs generalizing data stores stores' with
  | nil => exact h
  | cons iov bufs ih => exact ih _ (h.cons _)

lemma scatter_nil : SameBytes contents stores (scatter bufs [] stores) := by
  induction bufs generalizing stores with
  | nil => exact fun _ => rfl
  | cons iov bufs ih =>
    simp only [scatter, List.take_nil, List.drop_nil]
    exact (sameBytes_empty iov.base).trans ih

/-- Bytes that do not fill the first buffer. -/
lemma scatter_short {iov : Iovec} {data : List UInt8} (h : data.length ≤ iov.len) :
    SameBytes contents (.write iov.base data :: stores) (scatter (iov :: bufs) data stores) := by
  rw [scatter, List.take_of_length_le h, List.drop_eq_nil_of_le h]
  exact scatter_nil

/-- An empty buffer takes no bytes. -/
lemma scatter_skip {iov : Iovec} {data : List UInt8} (h : iov.len = 0) :
    SameBytes contents (scatter bufs data stores) (scatter (iov :: bufs) data stores) := by
  rw [scatter, h, List.take_zero, List.drop_zero]
  exact scatter_congr data (sameBytes_empty iov.base)

end Scattered

namespace OpenFile

variable {f : OpenFile} {len count n k : ℕ}

lemma available_le : f.available len count ≤ len := (min_le_right _ _).trans (min_le_left _ _)

lemma slice_available (f : OpenFile) (len count : ℕ) :
    (slice f.contents f.pos (f.available len count)).length = f.available len count := by
  rw [slice, List.length_take, List.length_drop]
  exact min_eq_left ((min_le_right _ _).trans (min_le_right _ _))

@[simp] lemma advance_zero : f.advance 0 = f := rfl

@[simp] lemma advance_advance : (f.advance n).advance k = f.advance (n+k) := by
  simp [advance, Nat.add_assoc]

lemma slice_add : slice f.contents f.pos (n+k) =
    slice f.contents f.pos n ++ slice (f.advance n).contents (f.advance n).pos k := by
  simp [slice, advance, List.take_add, List.drop_drop]

end OpenFile

/-- What a call stores, in front of what was stored before. -/
def FdState.after (s : FdState) (f : OpenFile) (ptr : ℕ) (bytes : List UInt8) : FdState :=
  { s with file := some f, mem := { s.mem with stores := .write ptr bytes :: s.mem.stores } }

section Single

variable {s : FdState} {f : OpenFile} {ptr len : ℕ} {host : HostRead} {bytes : List UInt8}

lemma deliver_accepted (h : s.mem.vm.accepts ptr bytes.length) :
    s.deliver f ptr bytes = (s.after f ptr bytes,.ok bytes.length) := by
  simp [FdState.deliver, VmMemoryManager.writeBytes, h, FdState.after]

lemma deliver_refused (h : s.mem.vm.accepts ptr bytes.length = false) :
    s.deliver f ptr bytes = ({ s with file := some f },.error 14) := by
  simp [FdState.deliver, VmMemoryManager.writeBytes, h]

lemma fileRead_gives {count : ℕ} (hf : s.file = some f) (hflags : f.writeOnly = false) :
    fileRead s ptr len (.gives count) = s.deliver (f.advance (f.available len count)) ptr
      (slice f.contents f.pos (f.available len count)) := by
  simp [fileRead, hf, OpenFile.read, hflags]

lemma fileRead_refused (hf : s.file = some f) (h : f.Refuses s.mem.vm ⟨ptr,len⟩ host) :
    ∃ n, 0 < n ∧ fileRead s ptr len host = ({ s with file := some (f.advance n) },.error 14) := by
  obtain ⟨hflags,count,rfl,hpos,hrefused⟩ := h
  refine ⟨_,hpos,?_⟩
  rw [fileRead_gives hf hflags, deliver_refused]
  rwa [OpenFile.slice_available]

/-- A read that guest memory does not refuse fails without a trace, or it leaves its bytes in the
buffer. -/
lemma fileRead_accepted (hf : s.file = some f) (h : ¬f.Refuses s.mem.vm ⟨ptr,len⟩ host) :
    (∃ e, fileRead s ptr len host = (s,.error e)) ∨
    ∃ n ≤ len, (slice f.contents f.pos n).length = n ∧
      fileRead s ptr len host = (s.after (f.advance n) ptr (slice f.contents f.pos n),.ok n) ∧
      (n = len → f.Fills s.mem.vm ⟨ptr,len⟩ host) := by
  obtain ⟨kernel,file,mem⟩ := s
  obtain rfl : file = some f := hf
  cases hflags : f.writeOnly with
  | true => cases host <;> simp [fileRead, OpenFile.read, hflags]
  | false =>
    cases host with
    | noScratch => simp [fileRead]
    | failed => simp [fileRead, OpenFile.read, hflags]
    | gives count =>
      rw [fileRead_gives rfl hflags]
      cases haccepts : mem.vm.accepts ptr (f.available len count) with
      | false =>
        have hzero : f.available len count = 0 := by
          by_contra hpos
          exact h ⟨hflags,count,rfl,Nat.pos_of_ne_zero hpos,haccepts⟩
        rw [deliver_refused (by rwa [OpenFile.slice_available]), hzero]
        exact .inl ⟨14,rfl⟩
      | true =>
        rw [deliver_accepted (by rwa [OpenFile.slice_available]), OpenFile.slice_available]
        refine .inr ⟨_,OpenFile.available_le,f.slice_available len count,rfl,fun hfull => ?_⟩
        exact .inr ⟨hflags,count,rfl,hfull,hfull ▸ haccepts⟩

lemma fileRead_fills (hf : s.file = some f) (h : f.Fills s.mem.vm ⟨ptr,len⟩ host) (hlen : len ≠ 0) :
    fileRead s ptr len host = (s.after (f.advance len) ptr (slice f.contents f.pos len),.ok len) := by
  obtain ⟨hflags,count,rfl,hfull,haccepts⟩ := h.resolve_left hlen
  have hfull' : f.available len count = len := hfull
  have hlength := f.slice_available len count
  rw [hfull'] at hlength
  rw [fileRead_gives hf hflags, hfull', deliver_accepted (hlength.symm ▸ haccepts), hlength]

lemma fileRead_closed (hf : s.file = none) (ptr len : ℕ) (host : HostRead) :
    ∃ e, fileRead s ptr len host = (s,.error e) := by
  unfold fileRead
  split_ifs
  · exact ⟨12,rfl⟩
  · exact ⟨9,by rw [hf]⟩

end Single

section Loop

variable {s : FdState} {f : OpenFile} {iovs : List Iovec}

/-- While no buffer refuses its bytes, the loop counts what the file's position moves by. -/
lemma readvLoop_accepted (contents : ℕ → UInt8) {hosts : ℕ → HostRead} (total : ℕ) (hf : s.file = some f)
    (h : NoneRefuses s.mem.vm f hosts iovs) :
    ∃ n stores, n ≤ (iovs.map Iovec.len).sum ∧ (slice f.contents f.pos n).length = n ∧
      SameBytes contents stores (scatter iovs (slice f.contents f.pos n) s.mem.stores) ∧
      (readvLoop hosts total iovs s).1 =
        { s with file := some (f.advance n), mem := { s.mem with stores := stores } } ∧
      ((readvLoop hosts total iovs s).2 = .ok (total+n) ∨
        total+n = 0 ∧ ∃ e, (readvLoop hosts total iovs s).2 = .error e) := by
  induction iovs generalizing hosts total s f with
  | nil =>
    obtain ⟨kernel,file,mem⟩ := s
    obtain rfl : file = some f := hf
    exact ⟨0,mem.stores,le_refl _,rfl,fun _ => rfl,rfl,.inl rfl⟩
  | cons iov iovs ih =>
    obtain ⟨hfirst,hrest⟩ := h
    rw [readvLoop]
    by_cases hempty : iov.len = 0
    · -- an empty buffer is passed over
      rw [if_pos hempty]
      have hnext := hrest (.inl hempty)
      rw [hempty, OpenFile.advance_zero] at hnext
      obtain ⟨n,stores,hroom,hlen,hstores,hstate,hres⟩ := ih total hf hnext
      exact ⟨n,stores,by simpa [hempty] using hroom,hlen,hstores.trans (scatter_skip hempty),hstate,hres⟩
    · rw [if_neg hempty]
      rcases fileRead_accepted hf hfirst with ⟨e,hread⟩ | ⟨n,hn,hlen,hread,hfull⟩
      · obtain ⟨kernel,file,mem⟩ := s
        obtain rfl : file = some f := hf
        rw [hread]
        refine ⟨0,mem.stores,Nat.zero_le _,by simp [slice],?_,rfl,?_⟩
        · simpa [slice] using scatter_nil
        · by_cases htotal : 0 < total
          · simp [htotal]
          · simp [Nat.eq_zero_of_not_pos htotal]
      · rw [hread]
        dsimp only
        split_ifs with hshort
        · refine ⟨n,_,?_,hlen,scatter_short (hlen.le.trans hn),rfl,.inl rfl⟩
          rw [List.map_cons, List.sum_cons]
          omega
        · -- the buffer is full and the loop goes on
          obtain rfl : n = iov.len := by omega
          obtain ⟨k,stores,hroom,hlen',hstores,hstate,hres⟩ :=
            ih (s := s.after (f.advance iov.len) iov.base (slice f.contents f.pos iov.len))
              (total+iov.len) rfl (hrest (hfull rfl))
          refine ⟨iov.len+k,stores,?_,?_,?_,?_,?_⟩
          · rw [List.map_cons, List.sum_cons]
            omega
          · rw [OpenFile.slice_add, List.length_append, hlen, hlen']
          · rw [OpenFile.slice_add, scatter, List.take_left' hlen, List.drop_left' hlen]
            exact hstores
          · rw [hstate, OpenFile.advance_advance]
            rfl
          · rwa [Nat.add_assoc] at hres

/-- Once a buffer refuses its bytes the position is past what the loop counts. -/
lemma readvLoop_refused {hosts : ℕ → HostRead} (total : ℕ) (hf : s.file = some f)
    (h : ¬NoneRefuses s.mem.vm f hosts iovs) :
    ∃ n k, n < k ∧ (readvLoop hosts total iovs s).1.file = some (f.advance k) ∧
      ((readvLoop hosts total iovs s).2 = .ok (total+n) ∨
        ∃ e, (readvLoop hosts total iovs s).2 = .error e) := by
  induction iovs generalizing hosts total s f with
  | nil => exact absurd trivial h
  | cons iov iovs ih =>
    rw [readvLoop]
    by_cases hfirst : f.Refuses s.mem.vm iov (hosts 0)
    · have hlen : iov.len ≠ 0 := by
        obtain ⟨-,count,-,hpos,-⟩ := hfirst
        exact (hpos.trans_le OpenFile.available_le).ne'
      obtain ⟨k,hk,hread⟩ := fileRead_refused hf hfirst
      rw [if_neg hlen, hread]
      refine ⟨0,k,hk,rfl,?_⟩
      by_cases htotal : 0 < total
      · simp [htotal]
      · simp [Nat.eq_zero_of_not_pos htotal]
    · have hrest : f.Fills s.mem.vm iov (hosts 0) ∧
          ¬NoneRefuses s.mem.vm (f.advance iov.len) (fun i => hosts (i+1)) iovs := by
        simpa [NoneRefuses, hfirst] using h
      obtain ⟨hfills,hnext⟩ := hrest
      by_cases hempty : iov.len = 0
      · rw [hempty, OpenFile.advance_zero] at hnext
        rw [if_pos hempty]
        exact ih total hf hnext
      · rw [if_neg hempty, fileRead_fills hf hfills hempty]
        dsimp only
        rw [if_neg (lt_irrefl _)]
        obtain ⟨n,k,hlt,hfile,hres⟩ :=
          ih (s := s.after (f.advance iov.len) iov.base (slice f.contents f.pos iov.len))
            (total+iov.len) rfl hnext
        refine ⟨iov.len+n,iov.len+k,by omega,?_,?_⟩
        · rw [hfile, OpenFile.advance_advance]
        · rwa [Nat.add_assoc] at hres

/-- Without an open file the loop only passes empty buffers over. -/
lemma readvLoop_closed (hf : s.file = none) (hosts : ℕ → HostRead) (iovs : List Iovec) :
    (readvLoop hosts 0 iovs s).1 = s ∧
      ((readvLoop hosts 0 iovs s).2 = .ok 0 ∨ ∃ e, (readvLoop hosts 0 iovs s).2 = .error e) := by
  induction iovs generalizing hosts with
  | nil => exact ⟨rfl,.inl rfl⟩
  | cons iov iovs ih =>
    rw [readvLoop]
    by_cases hempty : iov.len = 0
    · rw [if_pos hempty]
      exact ih _
    · rw [if_neg hempty]
      obtain ⟨e,hread⟩ := fileRead_closed hf iov.base iov.len (hosts 0)
      rw [hread]
      exact ⟨rfl,.inr ⟨e,rfl⟩⟩

end Loop

section Exact

variable {contents : ℕ → UInt8} {s s' : FdState} {f : OpenFile} {call : FdCall} {bufs : List Iovec} {n k : ℕ}

lemma faithful_ok (h : call.run contents s = (s',.ok n)) :
    call.Faithful contents s ↔ call.Reports contents s s' n := by
  simp [FdCall.Faithful, h]

lemma faithful_error {e : ℕ} (h : call.run contents s = (s',.error e)) :
    call.Faithful contents s ↔ s'.position = s.position ∧ s'.cursor = s.cursor := by
  simp [FdCall.Faithful, h]

/-- A call that fails before it does anything. -/
lemma faithful_failed {e : ℕ} (h : call.run contents s = (s,.error e)) : call.Faithful contents s :=
  (faithful_error h).mpr ⟨rfl,rfl⟩

/-- A call that reports no bytes and does nothing. -/
lemma delivered_nothing : Delivered contents s s bufs 0 where
  moved := by simp
  cursor := rfl
  read := by cases hf : s.file <;> simp [FdState.ahead, hf, slice]
  room := Nat.zero_le _
  stored := by
    have hnil : s.ahead 0 = [] := by cases hf : s.file <;> simp [FdState.ahead, hf, slice]
    rw [hnil]
    exact scatter_nil

lemma delivered_of_advance (hf : s.file = some f) (hf' : s'.file = some (f.advance n))
    (hroom : n ≤ (bufs.map Iovec.len).sum) (hlen : (slice f.contents f.pos n).length = n)
    (hstores : SameBytes contents s'.mem.stores (scatter bufs (slice f.contents f.pos n) s.mem.stores)) :
    Delivered contents s s' bufs n where
  moved := by simp [FdState.position, hf, hf', OpenFile.advance]
  cursor := by simp [FdState.cursor, hf, hf', OpenFile.advance]
  read := by simpa [FdState.ahead, hf] using hlen
  room := hroom
  stored := by simpa [FdState.ahead, hf] using hstores

lemma position_moved (hf : s.file = some f) (hf' : s'.file = some (f.advance k)) (h : n < k) :
    s'.position ≠ s.position.map (· + n) := by
  simp only [FdState.position, hf, hf', OpenFile.advance, Option.map_some, ne_eq, Option.some.injEq]
  omega

/-- A call that moved the position further than it reports. -/
lemma not_delivered (hf : s.file = some f) (hf' : s'.file = some (f.advance k)) (h : n < k) :
    ¬Delivered contents s s' bufs n :=
  fun hdel => position_moved hf hf' h hdel.moved

/-- A call that failed with the position moved. -/
lemma not_kept (hf : s.file = some f) (hf' : s'.file = some (f.advance k)) (h : 0 < k) :
    ¬(s'.position = s.position ∧ s'.cursor = s.cursor) := by
  rintro ⟨hpos,-⟩
  exact position_moved hf hf' h (by simpa using hpos)

lemma read_faithful_iff (ptr len : ℕ) (host : HostRead) :
    (FdCall.read ptr len host).Faithful contents s ↔
      (FdCall.read ptr len host).Accepted contents s := by
  cases hkernel : s.kernel with
  | false =>
    have hrun : (FdCall.read ptr len host).run contents s = (s,.error 1) := by
      simp [FdCall.run, readImpl, hkernel]
    simp [faithful_failed hrun, FdCall.Accepted, hkernel]
  | true =>
    have hrun : (FdCall.read ptr len host).run contents s = fileRead s ptr len host := by
      simp [FdCall.run, readImpl, hkernel]
    cases hf : s.file with
    | none =>
      obtain ⟨e,hread⟩ := fileRead_closed hf ptr len host
      simp [faithful_failed (hrun.trans hread), FdCall.Accepted, hf]
    | some f =>
      have haccepted : (FdCall.read ptr len host).Accepted contents s ↔
          ¬f.Refuses s.mem.vm ⟨ptr,len⟩ host := by
        simp [FdCall.Accepted, hkernel, hf]
      rw [haccepted]
      by_cases hrefuses : f.Refuses s.mem.vm ⟨ptr,len⟩ host
      · obtain ⟨k,hk,hread⟩ := fileRead_refused hf hrefuses
        simpa [faithful_error (hrun.trans hread), hrefuses] using not_kept hf rfl hk
      · obtain ⟨e,hread⟩ | ⟨n,hn,hlen,hread,-⟩ := fileRead_accepted hf hrefuses
        · simp [faithful_failed (hrun.trans hread), hrefuses]
        · rw [faithful_ok (hrun.trans hread)]
          refine iff_of_true (delivered_of_advance hf rfl ?_ hlen ?_) hrefuses
          · simpa using hn
          · have hshort : (slice f.contents f.pos n).length ≤ (⟨ptr,len⟩ : Iovec).len := hlen.le.trans hn
            exact scatter_short hshort

lemma readVec_nothing {m : VmMemoryManager} {iovPtr count : ℕ} (h : iovPtr = 0 ∨ count = 0) :
    readVec contents m iovPtr count = none := by
  rw [readVec, if_neg]
  rcases h with rfl | rfl <;> simp [isGuestRange]

lemma readv_faithful_iff (iovPtr : ℕ) (iovcnt : ℤ) (hosts : ℕ → HostRead) :
    (FdCall.readv iovPtr iovcnt hosts).Faithful contents s ↔
      (FdCall.readv iovPtr iovcnt hosts).Accepted contents s := by
  cases hvec : readVec contents s.mem iovPtr iovcnt.toNat with
  | none =>
    have haccepted : (FdCall.readv iovPtr iovcnt hosts).Accepted contents s := by
      intro _ f _ iovs h
      rw [hvec] at h
      cases h
    refine iff_of_true ?_ haccepted
    by_cases hbad : iovPtr = 0 ∨ iovcnt < 0
    · exact faithful_failed (by rw [FdCall.run, readvImpl, if_pos hbad])
    · by_cases hzero : iovcnt = 0
      · have hrun : (FdCall.readv iovPtr iovcnt hosts).run contents s = (s,.ok 0) := by
          rw [FdCall.run, readvImpl, if_neg hbad, if_pos hzero]
        exact (faithful_ok hrun).mpr delivered_nothing
      · exact faithful_failed (by rw [FdCall.run, readvImpl, if_neg hbad, if_neg hzero, hvec])
  | some iovs =>
    have hgood : ¬(iovPtr = 0 ∨ iovcnt < 0) ∧ iovcnt ≠ 0 := by
      refine ⟨fun hbad => ?_,fun hzero => ?_⟩
      · rw [readVec_nothing (hbad.imp_right fun h => by omega)] at hvec
        cases hvec
      · rw [readVec_nothing (Or.inr (by omega))] at hvec
        cases hvec
    have hrun : (FdCall.readv iovPtr iovcnt hosts).run contents s =
        if s.kernel then readvLoop hosts 0 iovs s else (s,.error 1) := by
      rw [FdCall.run, readvImpl, if_neg hgood.1, if_neg hgood.2, hvec]
    cases hkernel : s.kernel with
    | false =>
      rw [hkernel, if_neg Bool.false_ne_true] at hrun
      simp [faithful_failed hrun, FdCall.Accepted, hkernel]
    | true =>
      rw [hkernel, if_pos rfl] at hrun
      have hreports : ∀ s' n, (FdCall.readv iovPtr iovcnt hosts).Reports contents s s' n ↔
          Delivered contents s s' iovs n := by
        simp [FdCall.Reports, hvec]
      cases hf : s.file with
      | none =>
        refine iff_of_true ?_ (by simp [FdCall.Accepted, hf])
        obtain ⟨hstate,hres | ⟨e,hres⟩⟩ := readvLoop_closed hf hosts iovs
        · rw [faithful_ok (hrun.trans (Prod.ext hstate hres)), hreports]
          exact delivered_nothing
        · exact faithful_failed (hrun.trans (Prod.ext hstate hres))
      | some f =>
        have haccepted : (FdCall.readv iovPtr iovcnt hosts).Accepted contents s ↔
            NoneRefuses s.mem.vm f hosts iovs := by
          simp [FdCall.Accepted, hkernel, hf, hvec]
        rw [haccepted]
        by_cases hnone : NoneRefuses s.mem.vm f hosts iovs
        · refine iff_of_true ?_ hnone
          obtain ⟨n,stores,hroom,hlen,hstores,hstate,hres | ⟨hzero,e,hres⟩⟩ :=
            readvLoop_accepted contents 0 hf hnone
          · rw [Nat.zero_add] at hres
            rw [faithful_ok (hrun.trans (Prod.ext hstate hres)), hreports]
            exact delivered_of_advance hf rfl hroom hlen hstores
          · obtain rfl : n = 0 := by omega
            rw [faithful_error (hrun.trans (Prod.ext hstate hres))]
            simp [FdState.position, FdState.cursor, hf]
        · refine iff_of_false ?_ hnone
          obtain ⟨n,k,hlt,hfile,hres | ⟨e,hres⟩⟩ := readvLoop_refused 0 hf hnone
          · rw [Nat.zero_add] at hres
            rw [faithful_ok (hrun.trans (Prod.ext rfl hres)), hreports]
            exact not_delivered hf hfile hlt
          · rw [faithful_error (hrun.trans (Prod.ext rfl hres))]
            exact not_kept hf hfile ((Nat.zero_le n).trans_lt hlt)

/-- The entries that fit an empty buffer are returned and counted. -/
lemma DirCursor.read_fitting (c : DirCursor) (buf : List UInt8) :
    c.read buf = ({ c with pos := c.pos+(fitting (c.entries.drop c.pos) buf.length).length },
      records (fitting (c.entries.drop c.pos) buf.length) ++
        buf.drop (records (fitting (c.entries.drop c.pos) buf.length)).length,
      if c.entries.drop c.pos ≠ [] ∧ fitting (c.entries.drop c.pos) buf.length = [] then .error 22
      else .ok (records (fitting (c.entries.drop c.pos) buf.length)).length) := by
  have hfill := fill_fitting (c.entries.drop c.pos) c.pos [] buf
  simp only [List.length_nil, List.nil_append, true_and, Nat.zero_add] at hfill
  rw [DirCursor.read, hfill]

lemma getdents_open {host : Except ℕ (List HostEntry)} {dir : Option DirCursor} {c : DirCursor}
    (h : openCursor host dir = some c) (buf : List UInt8) :
    getdents host dir buf = (some (c.read buf).1,(c.read buf).2) := by
  cases dir with
  | some cursor =>
    obtain rfl : cursor = c := by simpa [openCursor] using h
    exact getdents_some host cursor buf
  | none =>
    cases host with
    | error e => simp [openCursor] at h
    | ok listing =>
      obtain rfl : (⟨snapshot listing,0⟩ : DirCursor) = c := by simpa [openCursor] using h
      rfl

lemma cursor_open {host : Except ℕ (List HostEntry)} {c : DirCursor} (hf : s.file = some f)
    (h : openCursor host f.dir = some c) : s.cursor = some c.pos := by
  cases hdir : f.dir with
  | some cursor =>
    obtain rfl : cursor = c := by simpa [openCursor, hdir] using h
    simp [FdState.cursor, hf, hdir]
  | none =>
    cases host with
    | error e => simp [openCursor, hdir] at h
    | ok listing =>
      obtain rfl : (⟨snapshot listing,0⟩ : DirCursor) = c := by simpa [openCursor, hdir] using h
      simp [FdState.cursor, hf, hdir]

/-- The host cannot list the directory. -/
lemma fileGetdents_unlisted {host : Except ℕ (List HostEntry)} (hf : s.file = some f)
    (h : openCursor host f.dir = none) (ptr len : ℕ) :
    ∃ e, fileGetdents s ptr len true host = (s,.error e) := by
  obtain ⟨kernel,file,mem⟩ := s
  obtain rfl : file = some f := hf
  obtain ⟨flags,bytes,pos,dir⟩ := f
  cases dir with
  | some cursor => simp [openCursor] at h
  | none =>
    cases host with
    | error e => exact ⟨e,by simp [fileGetdents, getdents]⟩
    | ok listing => simp [openCursor] at h

/-- The cursor is past the entries that fit, and their records go into guest memory. -/
lemma fileGetdents_listed {host : Except ℕ (List HostEntry)} {c : DirCursor} (hf : s.file = some f)
    (h : openCursor host f.dir = some c) (ptr len : ℕ) :
    let es := fitting (c.entries.drop c.pos) len
    let f' := { f with dir := some { c with pos := c.pos+es.length } }
    fileGetdents s ptr len true host =
      if c.entries.drop c.pos ≠ [] ∧ es = [] then ({ s with file := some f' },.error 22)
      else s.deliver f' ptr (records es) := by
  have hzeros : (zeros len).length = len := by simp [zeros]
  simp only [fileGetdents, if_pos, hf, getdents_open h, DirCursor.read_fitting, hzeros]
  split_ifs with hnone
  · rfl
  · simp

lemma getdents_faithful_iff (buf nbytes : ℕ) (scratch : Bool) (host : Except ℕ (List HostEntry)) :
    (FdCall.getdents buf nbytes scratch host).Faithful contents s ↔
      (FdCall.getdents buf nbytes scratch host).Accepted contents s := by
  by_cases hready : isGuestRange s.mem buf 1 ∧ s.kernel ∧ scratch
  swap
  · refine iff_of_true ?_ fun hkernel f _ hguest hscratch => absurd ⟨hguest,hkernel,hscratch⟩ hready
    cases hguest : isGuestRange s.mem buf 1 with
    | false => exact faithful_failed (e := 14) (by simp [FdCall.run, getdentsImpl, hguest])
    | true =>
      cases hkernel : s.kernel with
      | false => exact faithful_failed (e := 1) (by simp [FdCall.run, getdentsImpl, hguest, hkernel])
      | true =>
        have hscratch : scratch = false := by simpa [hguest, hkernel] using hready
        exact faithful_failed (e := 12)
          (by simp [FdCall.run, getdentsImpl, fileGetdents, hguest, hkernel, hscratch])
  obtain ⟨hguest,hkernel,rfl⟩ := hready
  have hrun : (FdCall.getdents buf nbytes true host).run contents s =
      fileGetdents s buf nbytes true host := by
    simp [FdCall.run, getdentsImpl, hguest, hkernel]
  cases hf : s.file with
  | none =>
    refine iff_of_true (faithful_failed (e := 9) (hrun.trans ?_)) (by simp [FdCall.Accepted, hf])
    simp [fileGetdents, hf]
  | some f =>
    cases hcursor : openCursor host f.dir with
    | none =>
      obtain ⟨e,he⟩ := fileGetdents_unlisted hf hcursor buf nbytes
      exact iff_of_true (faithful_failed (hrun.trans he)) (by simp [FdCall.Accepted, hf, hcursor])
    | some c =>
      have haccepted : (FdCall.getdents buf nbytes true host).Accepted contents s ↔
          (fitting (c.entries.drop c.pos) nbytes ≠ [] →
            s.mem.vm.accepts buf (records (fitting (c.entries.drop c.pos) nbytes)).length) := by
        simp [FdCall.Accepted, hkernel, hf, hguest, hcursor]
      have hcall := hrun.trans (fileGetdents_listed hf hcursor buf nbytes)
      rw [haccepted]
      generalize hes : fitting (c.entries.drop c.pos) nbytes = es at hcall ⊢
      have hmoved : ∀ s' : FdState,
          s'.file = some { f with dir := some { c with pos := c.pos+es.length } } →
          (s'.position = s.position ∧ s'.cursor = s.cursor ↔ es = []) := by
        intro s' hf'
        rw [cursor_open hf hcursor]
        simp [FdState.position, FdState.cursor, hf, hf']
      by_cases hnone : c.entries.drop c.pos ≠ [] ∧ es = []
      · rw [if_pos hnone] at hcall
        rw [faithful_error hcall, hmoved _ rfl]
        simp [hnone.2]
      · rw [if_neg hnone] at hcall
        cases htakes : s.mem.vm.accepts buf (records es).length with
        | false =>
          rw [deliver_refused htakes] at hcall
          rw [faithful_error hcall, hmoved _ rfl]
          simp
        | true =>
          rw [deliver_accepted htakes] at hcall
          rw [faithful_ok hcall]
          have htake : (c.entries.drop c.pos).take es.length = es :=
            (List.prefix_iff_eq_take.mp (hes ▸ fitting_prefix _ _)).symm
          refine iff_of_true ⟨f,c,es.length,hf,hcursor,rfl,?_,?_⟩ fun _ => rfl
          · rw [htake]
          · rw [htake]
            exact fun _ => rfl

lemma lseek_error {offset whence : ℤ} {allowed : Bool} {e : ℕ}
    (h : (f.lseek offset whence allowed).2 = .error e) : (f.lseek offset whence allowed).1 = f := by
  revert h
  rw [OpenFile.lseek]
  split
  · simp
  · split_ifs <;> simp

lemma lseek_faithful (offset whence : ℤ) (allowed : Bool) :
    (FdCall.lseek offset whence allowed).Faithful contents s := by
  cases hkernel : s.kernel with
  | false => exact faithful_failed (e := 1) (by simp [FdCall.run, lseekImpl, hkernel])
  | true =>
    cases hf : s.file with
    | none => exact faithful_failed (e := 9) (by simp [FdCall.run, lseekImpl, hkernel, hf])
    | some f =>
      have hrun : (FdCall.lseek offset whence allowed).run contents s =
          ({ s with file := some (f.lseek offset whence allowed).1 },
            (f.lseek offset whence allowed).2) := by
        simp [FdCall.run, lseekImpl, hkernel, hf]
      cases hres : (f.lseek offset whence allowed).2 with
      | ok n =>
        rw [hres] at hrun
        exact (faithful_ok hrun).mpr trivial
      | error e =>
        rw [hres, lseek_error hres, ← hf] at hrun
        exact faithful_failed hrun

/-- A call reads without loss exactly when guest memory refuses no bytes that the host gives. -/
lemma faithful_iff : call.Faithful contents s ↔ call.Accepted contents s := by
  cases call with
  | read ptr len host => exact read_faithful_iff ptr len host
  | readv iovPtr iovcnt hosts => exact readv_faithful_iff iovPtr iovcnt hosts
  | getdents buf nbytes scratch host => exact getdents_faithful_iff buf nbytes scratch host
  | lseek offset whence allowed =>
    exact iff_of_true (lseek_faithful offset whence allowed) fun _ _ _ => trivial

end Exact

/-- What happens to a descriptor: a call on it, or others change the file or the guest's memory. -/
inductive FdEvent where
  | call (call : FdCall)
  | others (bytes : List UInt8) (mem : VmMemoryManager)

def FdEvent.run (contents : ℕ → UInt8) (s : FdState) : FdEvent → FdState
  | .call c => (c.run contents s).1
  | .others bytes mem => { s with file := s.file.map fun f => { f with contents := bytes }, mem := mem }

/-- Each call of a sequence has a property in the state that it is made in. -/
def AllCalls (P : FdState → FdCall → Prop) (contents : ℕ → UInt8) : FdState → List FdEvent → Prop
  | _,[] => True
  | s,.call call :: events =>
      P s call ∧ AllCalls P contents ((FdEvent.call call).run contents s) events
  | s,.others bytes mem :: events =>
      AllCalls P contents ((FdEvent.others bytes mem).run contents s) events

/-- In every sequence of calls, the calls report what they read and leave the position where they
fail, exactly when guest memory refuses no bytes that the host gives. -/
theorem reads_lossless_iff (contents : ℕ → UInt8) (s : FdState) (events : List FdEvent) :
    AllCalls (fun s call => call.Faithful contents s) contents s events ↔
      AllCalls (fun s call => call.Accepted contents s) contents s events := by
  induction events generalizing s with
  | nil => exact Iff.rfl
  | cons event events ih =>
    cases event with
    | call c => exact and_congr faithful_iff (ih _)
    | others _ _ => exact ih _

/-- A read into a null buffer fails and takes the file's bytes with it. -/
theorem not_lossless_null : ¬∀ (contents : ℕ → UInt8) (s : FdState) (events : List FdEvent),
    AllCalls (fun s call => call.Faithful contents s) contents s events := by
  intro h
  let vm : GuestVm :=
    ⟨2^47,fun addr len => guestBase ≤ addr ∧ addr+len ≤ 2^47,by decide,le_refl _⟩
  have hfail := (h (fun _ => 0) ⟨true,some ⟨0,[1,2,3],0,none⟩,.new vm⟩ [.call (.read 0 3 (.gives 3))]).1
  have hrefused : (VmMemoryManager.new vm).vm.accepts 0 3 = false := by
    simp [VmMemoryManager.new, vm, guestBase]
  exact faithful_iff.mp hfail rfl _ rfl ⟨by decide,3,rfl,by decide,hrefused⟩

end Unemups4.Files

import Unemups4.RangedAccess
import Unemups4.StoredBytes

/-! The thread-local storage of a new thread: the template of the image, rounded up to its
alignment, then the thread control block that FS points to, then the slot of errno, all in one
block. -/
namespace Unemups4.Kernel
open Memory VmMemoryManager

/-- A program header, as far as thread-local storage is concerned. -/
structure TlsHeader where
  pType : ℕ
  pOffset : UInt64
  pFilesz : UInt64
  pMemsz : UInt64
  pAlign : UInt64
  deriving DecidableEq, Repr

structure TlsInfo where
  data : List UInt8
  memSize : UInt64
  align : UInt64
  deriving DecidableEq, Repr

def ptTls : ℕ := 7

/-- The template is what the first header of its type says. -/
def extractTls (headers : List TlsHeader) (raw : List UInt8) : Except String (Option TlsInfo) :=
  match headers.find? fun ph => ph.pType = ptTls with
  | none => .ok none
  | some ph =>
      if raw.length < ph.pOffset.toNat ∨ raw.length-ph.pOffset.toNat < ph.pFilesz.toNat then
        .error "TLS segment out of bounds"
      else .ok (some ⟨(raw.drop ph.pOffset.toNat).take ph.pFilesz.toNat,ph.pMemsz,ph.pAlign⟩)

/-- Every template is one that some file has. -/
theorem extractTls_single (t : TlsInfo) (h : t.data.length < 2^64) :
    extractTls [⟨ptTls,0,UInt64.ofNat t.data.length,t.memSize,t.align⟩] t.data = .ok (some t) := by
  have hlen : (UInt64.ofNat t.data.length).toNat = t.data.length := UInt64.toNat_ofNat_of_lt' h
  simp [extractTls, ptTls, hlen]

inductive ThreadError where
  | map (e : MapError)
  | failed (message : String)
  deriving DecidableEq, Repr

structure Thread where
  id : ℕ
  stackBase : ℕ
  stackSize : ℕ
  tlsBase : ℕ
  errnoBase : ℕ
  entryPoint : ℕ
  entryArgument : ℕ
  isMain : Bool
  name : String
  deriving DecidableEq, Repr

structure ThreadManager where
  threads : List (ℕ × Thread)
  nextTid : ℕ
  deriving DecidableEq, Repr

def stackSize : ℕ := 0x200000
def tcbSize : ℕ := 0x200
def errnoSlotSize : ℕ := 16

/-- An alignment of zero is one of sixteen. -/
def alignMask (align : ℕ) : ℕ := if 0 < align then align-1 else 15

def alignedTlsSize (size align : ℕ) : ℕ := andNot (wrap (size+alignMask align)) (alignMask align)

def allocSize (size align : ℕ) : ℕ :=
  andNot (wrap (wrap (alignedTlsSize size align+tcbSize+errnoSlotSize)+0x3FFF)) 0x3FFF

/-- The stack of a thread and then the block of its storage, each wherever there is room. -/
def mapBlocks (m : VmMemoryManager) (tid stackSize size : ℕ) :
    VmMemoryManager × Except MapError (ℕ × ℕ) :=
  match m.map 0 stackSize ⟨true,true,false⟩ (some ("Stack_TID_" ++ toString tid)) with
  | (m,.error e) => (m,.error e)
  | (m,.ok stackBase) =>
      match m.map 0 size ⟨true,true,false⟩ (some ("TLS_TID_" ++ toString tid)) with
      | (m,.error e) => (m,.error e)
      | (m,.ok base) => (m,.ok (stackBase,base))

/-- The writes of a range and of a word go through, or fail with a text. -/
def put (m : VmMemoryManager) (s : Store) (goes : Bool) (text : String) :
    VmMemoryManager × Except ThreadError Unit :=
  if goes then ({ m with stores := s :: m.stores },.ok ()) else (m,.error (.failed text))

def putWord (m : VmMemoryManager) (addr value : ℕ) (text : String) :
    VmMemoryManager × Except ThreadError Unit :=
  put m (.write addr (Loader.wordBytes value)) (guestBase ≤ addr ∧ addr < m.vm.span)
    (text ++ "Segmentation Fault (write<T>)")

/-- The data of a template and the zeroes behind it. -/
def fillTemplate (m : VmMemoryManager) (base : ℕ) (t : TlsInfo) :
    VmMemoryManager × Except ThreadError Unit :=
  match put m (.write base t.data) (m.vm.accepts base t.data.length)
    "TLS Write failed: guest write_bytes failed" with
  | (m,.error e) => (m,.error e)
  | (m,.ok ()) =>
      let addr := wrap (base+t.data.length)
      let tbssSize := t.memSize.toNat-t.data.length
      if 0 < tbssSize then
        put m (.zero addr tbssSize) (m.vm.accepts addr tbssSize)
          "TLS Zero failed: guest zero_memory failed"
      else (m,.ok ())

/-- FS points to a word that holds its own address; errno starts as zero. -/
def fillBlock (m : VmMemoryManager) (base aligned : ℕ) (tls : Option TlsInfo) :
    VmMemoryManager × Except ThreadError (ℕ × ℕ) :=
  match tls.elim (m,.ok ()) (fillTemplate m base) with
  | (m,.error e) => (m,.error e)
  | (m,.ok ()) =>
      let fsBase := wrap (base+aligned)
      match putWord m fsBase fsBase "TCB Init failed: " with
      | (m,.error e) => (m,.error e)
      | (m,.ok ()) =>
          let errnoBase := wrap (fsBase+tcbSize)
          match putWord m errnoBase 0 "errno slot init failed: " with
          | (m,.error e) => (m,.error e)
          | (m,.ok ()) => (m,.ok (fsBase,errnoBase))

/-- The identifier is used up whether or not the thread comes to be. -/
def createThreadWith (stackSize : ℕ) (threads : ThreadManager) (m : VmMemoryManager)
    (tls : Option TlsInfo) (entryPoint arg : ℕ) :
    ThreadManager × VmMemoryManager × Except ThreadError Thread :=
  let tid := threads.nextTid
  let threads := { threads with nextTid := (threads.nextTid+1) % 2^32 }
  let (size,align) := tls.elim (0,16) fun t => (t.memSize.toNat,t.align.toNat)
  match mapBlocks m tid stackSize (allocSize size align) with
  | (m,.error e) => (threads,m,.error (.map e))
  | (m,.ok (stackBase,base)) =>
      match fillBlock m base (alignedTlsSize size align) tls with
      | (m,.error e) => (threads,m,.error e)
      | (m,.ok (fsBase,errnoBase)) =>
          let thread : Thread := ⟨tid,stackBase,stackSize,fsBase,errnoBase,entryPoint,arg,tid = 1,
            "Thread-" ++ toString tid⟩
          ({ threads with threads := insertKey tid thread threads.threads },m,.ok thread)

def createThread : ThreadManager → VmMemoryManager → Option TlsInfo → (entryPoint arg : ℕ) →
    ThreadManager × VmMemoryManager × Except ThreadError Thread := createThreadWith stackSize

/-- The block of a template. -/
def TlsInfo.block (t : TlsInfo) : ℕ := allocSize t.memSize.toNat t.align.toNat

def TlsInfo.aligned (t : TlsInfo) : ℕ := alignedTlsSize t.memSize.toNat t.align.toNat

def TlsInfo.mask (t : TlsInfo) : ℕ := alignMask t.align.toNat

/-- The zeroes behind the data. -/
def TlsInfo.tbss (t : TlsInfo) (base : ℕ) : List Store :=
  if 0 < t.memSize.toNat-t.data.length then
    [.zero (wrap (base+t.data.length)) (t.memSize.toNat-t.data.length)]
  else []

section Spec

variable {m m' : VmMemoryManager} {base aligned fsBase errnoBase : ℕ} {t : TlsInfo}

lemma put_ok {s : Store} {goes : Bool} {text : String} (h : put m s goes text = (m',.ok ())) :
    m'.stores = s :: m.stores := by
  unfold put at h
  split_ifs at h
  · obtain ⟨rfl,-⟩ := Prod.mk.inj h
    rfl
  · cases h

lemma fillTemplate_ok (h : fillTemplate m base t = (m',.ok ())) :
    m'.stores = t.tbss base++.write base t.data :: m.stores := by
  unfold fillTemplate at h
  split at h
  · cases h
  · rename_i m₁ hdata
    dsimp only at h
    unfold TlsInfo.tbss
    split_ifs at h ⊢
    · rw [put_ok h, put_ok hdata, List.singleton_append]
    · obtain ⟨rfl,-⟩ := Prod.mk.inj h
      exact put_ok hdata

lemma fillBlock_ok (h : fillBlock m base aligned (some t) = (m',.ok (fsBase,errnoBase))) :
    fsBase = wrap (base+aligned) ∧ errnoBase = wrap (fsBase+tcbSize) ∧
      m'.stores = .write errnoBase (Loader.wordBytes 0) :: .write fsBase (Loader.wordBytes fsBase) ::
        (t.tbss base++.write base t.data :: m.stores) := by
  unfold fillBlock at h
  split at h
  · cases h
  · rename_i m₁ htemplate
    dsimp only at h
    split at h
    · cases h
    · rename_i m₂ hself
      split at h
      · cases h
      · rename_i m₃ herrno
        obtain ⟨rfl,hbases⟩ := Prod.mk.inj h
        obtain ⟨rfl,rfl⟩ := Prod.mk.inj (Except.ok.inj hbases)
        refine ⟨rfl,rfl,?_⟩
        rw [put_ok herrno, put_ok hself, fillTemplate_ok htemplate]

lemma map_lands {addr size : ℕ} {prot : MemoryProtection} {name : Option String}
    (h : m.map addr size prot name = (m',.ok base)) : Lands m m' addr size base prot name := by
  have hcases := mapAligned_cases m addr size 0 prot name
  rw [show m.mapAligned addr size 0 prot name = _ from h] at hcases
  rcases hcases with ⟨e,herr,-⟩ | ⟨b,hok,hlands⟩
  · cases herr
  · obtain rfl := Except.ok.inj hok
    exact hlands

lemma mapBlocks_ok {tid stackSize size stackBase : ℕ}
    (h : mapBlocks m tid stackSize size = (m',.ok (stackBase,base))) :
    0 < size ∧ base+size ≤ m.vm.span := by
  unfold mapBlocks at h
  split at h
  · cases h
  · rename_i m₁ stack hstack
    split at h
    · cases h
    · rename_i m₂ block hblock
      obtain ⟨rfl,hbases⟩ := Prod.mk.inj h
      obtain ⟨rfl,rfl⟩ := Prod.mk.inj (Except.ok.inj hbases)
      have hlands := map_lands hblock
      rw [← (map_lands hstack).vm]
      exact ⟨hlands.located.pos,hlands.located.belowSpan⟩

/-- A thread that comes to be has a block, and what is stored there. -/
lemma createThreadWith_ok {stackSize : ℕ} {threads threads' : ThreadManager} {entryPoint arg : ℕ}
    {thread : Thread}
    (h : createThreadWith stackSize threads m (some t) entryPoint arg = (threads',m',.ok thread)) :
    ∃ (before : VmMemoryManager) (stackBase base : ℕ),
      mapBlocks m threads.nextTid stackSize t.block = (before,.ok (stackBase,base)) ∧
      thread.tlsBase = wrap (base+t.aligned) ∧ thread.errnoBase = wrap (thread.tlsBase+tcbSize) ∧
      m'.stores = .write thread.errnoBase (Loader.wordBytes 0) ::
        .write thread.tlsBase (Loader.wordBytes thread.tlsBase) ::
        (t.tbss base++.write base t.data :: before.stores) := by
  simp only [createThreadWith, Option.elim_some] at h
  split at h
  · cases h
  · rename_i before stackBase base hmap
    split at h
    · cases h
    · rename_i m₂ fsBase errnoBase hfill
      simp only [Prod.mk.injEq, Except.ok.injEq] at h
      obtain ⟨-,rfl,rfl⟩ := h
      obtain ⟨hfs,herrno,hstores⟩ := fillBlock_ok hfill
      exact ⟨before,stackBase,base,hmap,hfs,herrno,hstores⟩

end Spec

/-- What a thread's storage must be: everything is written inside its block, the template, the
control block and errno do not meet, each holds what belongs there, and FS is aligned. -/
structure LaidOut (contents : ℕ → UInt8) (t : TlsInfo) (before after : VmMemoryManager) (base : ℕ)
    (thread : Thread) : Prop where
  inside : ∃ new, after.stores = new++before.stores ∧
    ∀ s ∈ new, ∀ a, s.Covers a → base ≤ a ∧ a < base+t.block
  template : BytesApart base (max t.data.length t.memSize.toNat) thread.tlsBase tcbSize
  errno : BytesApart thread.tlsBase tcbSize thread.errnoBase 8
  beyond : BytesApart base (max t.data.length t.memSize.toNat) thread.errnoBase 8
  data : Holds contents after.stores base t.data
  zeroed : Holds contents after.stores (base+t.data.length)
    (List.replicate (t.memSize.toNat-t.data.length) 0)
  self : Holds contents after.stores thread.tlsBase (Loader.wordBytes thread.tlsBase)
  noError : Holds contents after.stores thread.errnoBase (List.replicate 8 0)
  aligned : t.align.toNat = 0 ∨ t.align.toNat ∣ thread.tlsBase

/-- The template is no longer than its size in memory, rounded up; no sum that rounds it wraps; and
the block is placed so that its end is aligned. -/
structure TlsInfo.Fits (t : TlsInfo) (base : ℕ) : Prop where
  sum : t.memSize.toNat+t.mask < 2^64
  data : t.data.length ≤ andNot (t.memSize.toNat+t.mask) t.mask
  total : andNot (t.memSize.toNat+t.mask) t.mask+tcbSize+errnoSlotSize+0x3FFF < 2^64
  placed : t.align.toNat = 0 ∨
    t.align.toNat ∣ base+andNot (t.memSize.toNat+t.mask) t.mask

lemma andNot_add_and (n k : ℕ) : andNot n k+(n &&& k) = n := by
  induction n using Nat.strong_induction_on generalizing k with
  | _ n ih =>
    rcases Nat.eq_zero_or_pos n with rfl | hn
    · simp [andNot]
    · have hhalf : andNot n k/2+(n &&& k)/2 = n/2 := by
        simpa [andNot, Nat.xor_div_two, Nat.and_div_two] using ih (n/2) (by omega) (k/2)
      have hand := Nat.and_mod_two_eq_one (a := n) (b := k)
      have hxor : andNot n k % 2 = 1 ↔ ¬(n % 2 = 1 ↔ (n &&& k) % 2 = 1) :=
        Nat.xor_mod_two_eq_one
      omega

lemma andNot_le (n k : ℕ) : andNot n k ≤ n := by
  have := andNot_add_and n k
  omega

/-- Rounding up does not fall below. -/
lemma le_andNot_add (n k : ℕ) : n ≤ andNot (n+k) k := by
  have hsplit := andNot_add_and (n+k) k
  have hand : (n+k) &&& k ≤ k := Nat.and_le_right
  omega

/-- Cleared bits can be set again, so that the sum is a word when its parts are. -/
lemma andNot_add_lt {n k w : ℕ} (hn : n < 2^w) (hk : k < 2^w) : andNot n k+k < 2^w := by
  have hsplit := andNot_add_and (n ||| k) k
  have hand : (n ||| k) &&& k = k := by
    apply Nat.eq_of_testBit_eq
    intro i
    simp only [Nat.testBit_and, Nat.testBit_or]
    cases n.testBit i <;> cases k.testBit i <;> rfl
  have hclear : andNot (n ||| k) k = andNot n k := by
    apply Nat.eq_of_testBit_eq
    intro i
    simp only [andNot, Nat.testBit_xor, Nat.testBit_and, Nat.testBit_or]
    cases n.testBit i <;> cases k.testBit i <;> rfl
  rw [hand, hclear] at hsplit
  rw [hsplit]
  exact Nat.or_lt_two_pow hn hk

section Layout

variable {contents : ℕ → UInt8} {t : TlsInfo} {before after : VmMemoryManager} {base : ℕ}
  {thread : Thread}

/-- What stands behind a template in memory when no sum wraps. -/
lemma TlsInfo.aligned_eq (hsum : t.memSize.toNat+t.mask < 2^64) :
    t.aligned = andNot (t.memSize.toNat+t.mask) t.mask := by
  unfold TlsInfo.aligned alignedTlsSize
  rw [show alignMask t.align.toNat = t.mask from rfl, wrap, Nat.mod_eq_of_lt hsum]

lemma TlsInfo.le_block (htotal : t.aligned+tcbSize+errnoSlotSize+0x3FFF < 2^64) :
    t.aligned+tcbSize+errnoSlotSize ≤ t.block := by
  have hblock : t.block = andNot (t.aligned+tcbSize+errnoSlotSize+0x3FFF) 0x3FFF := by
    unfold TlsInfo.block allocSize
    rw [show alignedTlsSize t.memSize.toNat t.align.toNat = t.aligned from rfl, wrap, wrap,
      Nat.mod_eq_of_lt (show t.aligned+tcbSize+errnoSlotSize < 2^64 by omega),
      Nat.mod_eq_of_lt htotal]
  rw [hblock]
  exact le_andNot_add _ _

/-- A total that wraps leaves a small block. -/
lemma TlsInfo.block_le (htotal : 2^64 ≤ t.aligned+tcbSize+errnoSlotSize+0x3FFF)
    (haligned : t.aligned < 2^64) : t.block ≤ 0x8000 := by
  refine (andNot_le _ _).trans ?_
  rw [show alignedTlsSize t.memSize.toNat t.align.toNat = t.aligned from rfl]
  unfold wrap tcbSize errnoSlotSize at *
  omega

lemma TlsInfo.mask_lt (t : TlsInfo) : t.mask < 2^64 := by
  have halign := t.align.toNat_lt
  unfold TlsInfo.mask alignMask
  split_ifs <;> omega

lemma TlsInfo.aligned_add_mask (t : TlsInfo) : t.aligned+t.mask < 2^64 :=
  andNot_add_lt (Nat.mod_lt _ (by decide)) t.mask_lt

/-- The stores of a thread that came to be. -/
structure Filled (t : TlsInfo) (before after : VmMemoryManager) (base : ℕ) (thread : Thread) :
    Prop where
  inSpan : base+t.block ≤ 2^47
  tlsBase : thread.tlsBase = wrap (base+t.aligned)
  errnoBase : thread.errnoBase = wrap (thread.tlsBase+tcbSize)
  stores : after.stores = .write thread.errnoBase (Loader.wordBytes 0) ::
    .write thread.tlsBase (Loader.wordBytes thread.tlsBase) ::
    (t.tbss base++.write base t.data :: before.stores)

/-- No sum wraps behind a total that does not. -/
lemma Filled.bases (h : Filled t before after base thread)
    (htotal : t.aligned+tcbSize+errnoSlotSize+0x3FFF < 2^64) :
    thread.tlsBase = base+t.aligned ∧ thread.errnoBase = base+t.aligned+tcbSize := by
  have hblock := t.le_block htotal
  have hspan := h.inSpan
  have hself := h.tlsBase
  have herrno := h.errnoBase
  unfold tcbSize errnoSlotSize wrap at *
  omega

lemma Filled.fits (h : Filled t before after base thread)
    (hl : LaidOut contents t before after base thread) : t.Fits base := by
  have hmask := t.aligned_add_mask
  have hmem := t.memSize.toNat_lt
  have hspan := h.inSpan
  have htemplate := hl.template
  have hsum : t.memSize.toNat+t.mask < 2^64 := by
    by_contra hwrap
    -- The rounded size falls below the size itself, and the block still holds it.
    have hle : t.aligned ≤ t.memSize.toNat+t.mask-2^64 := by
      refine (andNot_le _ _).trans ?_
      rw [show alignMask t.align.toNat = t.mask from rfl]
      have := t.mask_lt
      unfold wrap
      omega
    have htotal : t.aligned+tcbSize+errnoSlotSize+0x3FFF < 2^64 := by
      unfold tcbSize errnoSlotSize
      omega
    rw [(h.bases htotal).1] at htemplate
    have := t.mask_lt
    unfold BytesApart tcbSize at htemplate
    omega
  have haligned := TlsInfo.aligned_eq hsum
  have hround := le_andNot_add t.memSize.toNat t.mask
  have hupper := andNot_le (t.memSize.toNat+t.mask) t.mask
  have htotal : t.aligned+tcbSize+errnoSlotSize+0x3FFF < 2^64 := by
    by_contra hwrap
    have hblock := t.block_le (not_lt.mp hwrap) (by omega)
    obtain ⟨new,hnew,hinside⟩ := hl.inside
    have hmine : new++before.stores = (.write thread.errnoBase (Loader.wordBytes 0) ::
        .write thread.tlsBase (Loader.wordBytes thread.tlsBase) ::
        (t.tbss base++[.write base t.data]))++before.stores := by
      rw [← hnew, h.stores]
      simp
    obtain rfl := List.append_cancel_right hmine
    -- The template alone passes the end of the block.
    have hbeyond : ∃ s ∈ t.tbss base++[.write base t.data], s.Covers (base+t.block) := by
      unfold tcbSize errnoSlotSize at hwrap
      rcases lt_or_ge t.block t.data.length with hdata | hdata
      · exact ⟨_,List.mem_append_right _ (List.mem_singleton_self _),by omega,by omega⟩
      · have hzero : .zero (wrap (base+t.data.length)) (t.memSize.toNat-t.data.length) ∈
            t.tbss base := by
          rw [TlsInfo.tbss, if_pos (by omega)]
          exact List.mem_singleton_self _
        refine ⟨_,List.mem_append_left _ hzero,?_⟩
        unfold Store.Covers wrap
        omega
    obtain ⟨s,hs,hcovers⟩ := hbeyond
    have hin := hinside s (List.mem_cons_of_mem _ (List.mem_cons_of_mem _ hs)) _ hcovers
    omega
  have hbases := h.bases htotal
  have hplaced := hl.aligned
  rw [hbases.1] at htemplate hplaced
  rw [haligned] at htotal htemplate hplaced
  refine ⟨hsum,?_,htotal,hplaced⟩
  unfold BytesApart tcbSize at htemplate
  omega

lemma not_covers_tbss {s : Store} (hs : s ∈ t.tbss base) {a : ℕ}
    (ha : a < wrap (base+t.data.length) ∨
      wrap (base+t.data.length)+(t.memSize.toNat-t.data.length) ≤ a) : ¬s.Covers a := by
  unfold TlsInfo.tbss at hs
  split_ifs at hs
  · obtain rfl := List.mem_singleton.mp hs
    unfold Store.Covers
    omega
  · cases hs

lemma wordBytes_length (value : ℕ) : (Loader.wordBytes value).length = 8 := by
  simp [Loader.wordBytes]

lemma Filled.laidOut (h : Filled t before after base thread) (hf : t.Fits base) :
    LaidOut contents t before after base thread := by
  have haligned := TlsInfo.aligned_eq hf.sum
  have hround := le_andNot_add t.memSize.toNat t.mask
  have hdata := hf.data
  have htotal := hf.total
  have hplaced := hf.placed
  rw [← haligned] at hround hdata htotal hplaced
  have hspan := h.inSpan
  have hblock := TlsInfo.le_block htotal
  obtain ⟨hself,herrno⟩ := h.bases htotal
  have hwrap : wrap (base+t.data.length) = base+t.data.length := by
    unfold wrap tcbSize errnoSlotSize at *
    omega
  have hsizes : tcbSize = 0x200 ∧ errnoSlotSize = 16 := ⟨rfl,rfl⟩
  have hword := wordBytes_length
  have hdataHolds : Holds contents (t.tbss base++.write base t.data :: before.stores) base t.data :=
    holds_write.append fun s hs i hi => not_covers_tbss hs (.inl (by omega))
  have hzeroHolds : Holds contents (t.tbss base++.write base t.data :: before.stores)
      (base+t.data.length) (List.replicate (t.memSize.toNat-t.data.length) 0) := by
    unfold TlsInfo.tbss
    rw [hwrap]
    split_ifs with hpos
    · exact holds_zero
    · simp [Nat.eq_zero_of_not_pos hpos]
  constructor
  · refine ⟨.write thread.errnoBase (Loader.wordBytes 0) ::
      .write thread.tlsBase (Loader.wordBytes thread.tlsBase) ::
      (t.tbss base++[.write base t.data]),by simp [h.stores],?_⟩
    intro s hs a ha
    simp only [List.mem_cons, List.mem_append, List.not_mem_nil, or_false] at hs
    rcases hs with rfl | rfl | hs | rfl
    · simp only [Store.Covers, hword] at ha
      omega
    · simp only [Store.Covers, hword] at ha
      omega
    · have hin : ¬(a < base+t.data.length ∨
          base+t.data.length+(t.memSize.toNat-t.data.length) ≤ a) := by
        rw [← hwrap]
        exact fun hout => not_covers_tbss hs hout ha
      omega
    · simp only [Store.Covers] at ha
      omega
  · exact .inl (by omega)
  · exact .inl (by omega)
  · exact .inl (by omega)
  · rw [h.stores]
    refine (hdataHolds.cons fun i hi => ?_).cons fun i hi => ?_
    all_goals
      simp only [Store.Covers, hword]
      omega
  · rw [h.stores]
    refine (hzeroHolds.cons fun i hi => ?_).cons fun i hi => ?_
    all_goals
      rw [List.length_replicate] at hi
      simp only [Store.Covers, hword]
      omega
  · rw [h.stores]
    refine holds_write.cons fun i hi => ?_
    rw [hword] at hi
    simp only [Store.Covers, hword]
    omega
  · rw [h.stores]
    exact holds_write
  · rw [hself]
    exact hplaced

/-- A thread that comes to be has its storage laid out if and only if the template fits where the
block is placed. -/
theorem createThread_laidOut_iff {threads threads' : ThreadManager} {m m' : VmMemoryManager}
    {entryPoint arg : ℕ} (h : createThread threads m (some t) entryPoint arg =
      (threads',m',.ok thread)) : ∃ (before : VmMemoryManager) (stackBase base : ℕ),
    mapBlocks m threads.nextTid stackSize t.block = (before,.ok (stackBase,base)) ∧
      (LaidOut contents t before m' base thread ↔ t.Fits base) := by
  obtain ⟨before,stackBase,base,hmap,hself,herrno,hstores⟩ := createThreadWith_ok h
  obtain ⟨-,hspan⟩ := mapBlocks_ok hmap
  have hfilled : Filled t before m' base thread :=
    ⟨hspan.trans m.vm.userSpace,hself,herrno,hstores⟩
  exact ⟨before,stackBase,base,hmap,hfilled.fits,hfilled.laidOut⟩

end Layout

/-- A template as a linker makes it fits in every block: its alignment is a power of two that
blocks are placed at. -/
theorem TlsInfo.fits_of_pow {t : TlsInfo} {base k : ℕ} (halign : t.align.toNat = 2^k) (hk : k ≤ 14)
    (hdata : t.data.length ≤ t.memSize.toNat) (hsize : t.memSize.toNat < 2^63)
    (hbase : 0x4000 ∣ base) : t.Fits base := by
  have hpow : 2^k ≤ 2^14 := Nat.pow_le_pow_right (by decide) hk
  have hpos : 0 < 2^k := Nat.two_pow_pos k
  have hmask : t.mask = 2^k-1 := by
    unfold TlsInfo.mask alignMask
    rw [halign, if_pos hpos]
  have hround := le_andNot_add t.memSize.toNat t.mask
  have hupper := andNot_le (t.memSize.toNat+t.mask) t.mask
  have hdvd : t.align.toNat ∣ andNot (t.memSize.toNat+t.mask) t.mask := by
    rw [hmask, andNot_eq, halign]
    exact Nat.dvd_mul_left _ _
  have hplace : t.align.toNat ∣ base := by
    rw [halign]
    exact (Nat.pow_dvd_pow 2 hk).trans hbase
  refine ⟨by omega,hdata.trans hround,?_,.inr (hplace.add hdvd)⟩
  unfold tcbSize errnoSlotSize
  omega

lemma pair_eq {α β : Type*} {p : α × β} {b : β} (h : p.2 = b) : p = (p.1,b) := by
  rw [← h]

lemma triple_eq {α β γ : Type*} {p : α × β × γ} {c : γ} (h : p.2.2 = c) : p = (p.1,p.2.1,c) := by
  rw [← h]

/-- The first thread of a process whose image has this template. -/
def firstThread (t : TlsInfo) : ThreadManager × VmMemoryManager × Except ThreadError Thread :=
  createThread ⟨[],1⟩ (new TableRun.defaultVm) (some t) 0x400000 0

def firstLocals : Thread :=
  ⟨1,0x400000000,0x200000,0x400200010,0x400200210,0x400000,0,true,"Thread-1"⟩

lemma firstThread_place {t : TlsInfo} {base : ℕ} (h : (mapBlocks (new TableRun.defaultVm) 1
    stackSize t.block).2 = .ok (0x400000000,base)) {before : VmMemoryManager} {stackBase base' : ℕ}
    (hmap : mapBlocks (new TableRun.defaultVm) 1 stackSize t.block = (before,.ok (stackBase,base'))) :
    base' = base := by
  rw [hmap] at h
  exact (Prod.mk.inj (Except.ok.inj h)).2

/-- Three bytes of data and five zeroes. -/
theorem createThread_laidOut_small : ∃ before, LaidOut (fun _ => 0xF4) ⟨[1,2,3],8,16⟩ before
    (firstThread ⟨[1,2,3],8,16⟩).2.1 0x400200000 firstLocals := by
  have hthread : (firstThread ⟨[1,2,3],8,16⟩).2.2 = .ok firstLocals := by decide +kernel
  have hplace : (mapBlocks (new TableRun.defaultVm) 1 stackSize (TlsInfo.block ⟨[1,2,3],8,16⟩)).2 =
      .ok (0x400000000,0x400200000) := by decide +kernel
  obtain ⟨before,stackBase,base,hmap,hiff⟩ :=
    @createThread_laidOut_iff (fun _ => 0xF4) _ _ _ _ _ _ _ _ (triple_eq hthread)
  obtain rfl := firstThread_place hplace hmap
  exact ⟨before,hiff.mpr (TlsInfo.fits_of_pow (k := 4) rfl (by decide) (by decide) (by decide)
    (by decide))⟩

/-- Data that is longer than the template's size in memory runs into the control block. -/
theorem createThread_not_laidOut : ¬∀ (contents : ℕ → UInt8) (t : TlsInfo)
    (threads threads' : ThreadManager) (m m' before : VmMemoryManager) (thread : Thread)
    (entryPoint arg stackBase base : ℕ),
    createThread threads m (some t) entryPoint arg = (threads',m',.ok thread) →
    mapBlocks m threads.nextTid stackSize t.block = (before,.ok (stackBase,base)) →
    LaidOut contents t before m' base thread := by
  intro h
  let t : TlsInfo := ⟨List.replicate 32 0xAB,16,16⟩
  have hthread : (firstThread t).2.2 = .ok firstLocals := by decide +kernel
  have hplace : (mapBlocks (new TableRun.defaultVm) 1 stackSize t.block).2 =
      .ok (0x400000000,0x400200000) := by decide +kernel
  have hlaid := h (fun _ => 0) t _ _ _ _ _ _ _ _ _ _ (triple_eq hthread) (pair_eq hplace)
  have htemplate : BytesApart 0x400200000 32 0x400200010 tcbSize := hlaid.template
  unfold BytesApart tcbSize at htemplate
  omega

end Unemups4.Kernel

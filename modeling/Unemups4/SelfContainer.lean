import Unemups4.Blit

/-! Executable containers. A SELF wraps an ELF image: the image's headers follow the segment table,
and the file images of its program headers lie in segments that the table locates. Nothing is
decrypted or decompressed. -/
namespace Unemups4.Loader
open Blit

def elfMagic : ℕ := 0x464c457f
def selfMagic : ℕ := 0x1d3d154f
def sceHeaderSize : ℕ := 0x20
def selfSegmentSize : ℕ := 0x20
def elfHeaderSize : ℕ := 0x40
def selfSegBlockedBit : ℕ := 2^11
def selfSegIdShift : ℕ := 20
def selfSegIdMask : ℕ := 0xFFF

/-- The contents of a file: a vector is no longer than `isize::MAX`. -/
abbrev Bytes := { data : List UInt8 // data.length < 2^63 }

inductive ContainerError where
  | tooShort (what : String)
  | unknownMagic (magic : ℕ)
  | malformed (what : String)
  | compressed (segment : ℕ)
  | encrypted
  deriving DecidableEq, Repr

inductive ContainerKind where
  | rawElf | self
  deriving DecidableEq, Repr

structure ContainerMeta where
  numSegments : Option ℕ
  sceProgramType : Option ℕ
  moduleAttributes : Option ℕ
  deriving DecidableEq, Repr

structure Container where
  kind : ContainerKind
  elfBytes : List UInt8
  info : ContainerMeta
  deriving DecidableEq, Repr

def slice (bytes : List UInt8) (start len : ℕ) : List UInt8 := (bytes.drop start).take len

def fromLeBytes (bytes : List UInt8) : ℕ := bytes.foldr (fun b n => b.toNat+256*n) 0

/-- A little-endian number of some bytes. -/
def number (bytes : List UInt8) (start len : ℕ) : ℕ := fromLeBytes (slice bytes start len)

def hex (n : ℕ) : String := "0x" ++ String.ofList (Nat.toDigits 16 n)

structure SelfSegment where
  flags : ℕ
  offset : ℕ
  compressedSize : ℕ
  uncompressedSize : ℕ
  deriving DecidableEq, Repr

namespace SelfSegment

variable (seg : SelfSegment)

def isBlocked : Bool := seg.flags &&& selfSegBlockedBit ≠ 0
def programHeaderId : ℕ := (seg.flags >>> selfSegIdShift) &&& selfSegIdMask
def isCompressed : Bool := seg.compressedSize ≠ seg.uncompressedSize

end SelfSegment

def segmentAt (raw : List UInt8) (start : ℕ) : SelfSegment :=
  ⟨number raw start 8,number raw (start+8) 8,number raw (start+16) 8,number raw (start+24) 8⟩

/-- The entries of the segment table. -/
def segmentTable (raw : List UInt8) (numSegments : ℕ) : List SelfSegment :=
  (List.range numSegments).map fun i => segmentAt raw (sceHeaderSize+i*selfSegmentSize)

def readSegments (raw : List UInt8) (numSegments : ℕ) : Except ContainerError (List SelfSegment) :=
  if raw.length < sceHeaderSize+numSegments*selfSegmentSize then
    .error (.tooShort "segment table truncated")
  else .ok (segmentTable raw numSegments)

structure ProgramHeader where
  fileOffset : ℕ
  fileSize : ℕ
  deriving DecidableEq, Repr

/-- Where a program header table is, the size of its entries and their number. -/
structure PhdrTable where
  offset : ℕ
  entrySize : ℕ
  count : ℕ
  deriving DecidableEq, Repr

def PhdrTable.stop (table : PhdrTable) : ℕ := table.offset+table.count*table.entrySize

def phdrTableInfo (ehdr : List UInt8) : PhdrTable :=
  ⟨number ehdr 0x20 8,number ehdr 0x36 2,number ehdr 0x38 2⟩

def phdrExtent (phdr : List UInt8) : ProgramHeader := ⟨number phdr 0x08 8,number phdr 0x20 8⟩

/-- The entries of a program header table that starts at an index. -/
def phdrEntries (bytes : List UInt8) (start entrySize count : ℕ) : List ProgramHeader :=
  (List.range count).map fun i => phdrExtent (slice bytes (start+i*entrySize) entrySize)

def readProgramHeaders (raw : List UInt8) (elfBase : ℕ) :
    Except ContainerError (List ProgramHeader) :=
  if raw.length < elfBase+elfHeaderSize then .error (.tooShort "inner ELF header truncated")
  else
    let table := phdrTableInfo (slice raw elfBase elfHeaderSize)
    if table.entrySize < 0x38 then
      .error (.malformed ("e_phentsize " ++ hex table.entrySize ++ " too small for ELF64 program header"))
    else if 2^64 ≤ elfBase+table.offset then .error (.malformed "e_phoff overflow")
    else if 2^64 ≤ table.count*table.entrySize then
      .error (.malformed "phdr table size overflow")
    else if 2^64 ≤ elfBase+table.offset+table.count*table.entrySize then
      .error (.malformed "phdr table end overflow")
    else if raw.length < elfBase+table.offset+table.count*table.entrySize then
      .error (.tooShort "inner ELF program header table truncated")
    else .ok (phdrEntries raw (elfBase+table.offset) table.entrySize table.count)

/-- The size of an image that has room for some bytes and for every extent. -/
def outSize (rawLen : ℕ) : (size : ℕ) → List ProgramHeader → Except ContainerError ℕ
  | size,[] => .ok size
  | size,ph :: phs =>
      if rawLen < ph.fileSize then
        .error (.malformed ("phdr file size " ++ hex ph.fileSize ++ " exceeds source size " ++
          hex rawLen))
      else if 2^64 ≤ ph.fileOffset+ph.fileSize then .error (.malformed "phdr extent overflow")
      else outSize rawLen (max size (ph.fileOffset+ph.fileSize)) phs

/-- A program header's file image is copied from its segment. Of two ranges that run out the
source's is told. -/
def placeSegment (raw : List UInt8) (phdrs : List ProgramHeader) (out : List UInt8) (segIdx : ℕ)
    (seg : SelfSegment) : Except ContainerError (List UInt8) :=
  if ¬seg.isBlocked then .ok out
  else if seg.isCompressed then .error (.compressed segIdx)
  else
    match phdrs[seg.programHeaderId]? with
    | none => .error (.malformed ("segment " ++ toString segIdx ++ " targets phdr " ++
        toString seg.programHeaderId ++ ", out of range"))
    | some ph =>
        let copyLen := min seg.uncompressedSize ph.fileSize
        if copyLen = 0 then .ok out
        else if 2^64 ≤ seg.offset+copyLen then .error (.malformed "segment source overflow")
        else if raw.length < seg.offset+copyLen then
          .error (.tooShort "SELF segment data out of file bounds")
        else if 2^64 ≤ ph.fileOffset+copyLen then
          .error (.malformed "phdr destination overflow")
        else
          match copySlice raw out ⟨seg.offset,ph.fileOffset,copyLen⟩ with
          | none => .error (.malformed "phdr destination out of buffer")
          | some out => .ok out

def placeSegments (raw : List UInt8) (phdrs : List ProgramHeader) :
    (out : List UInt8) → (segIdx : ℕ) → List SelfSegment → Except ContainerError (List UInt8)
  | out,_,[] => .ok out
  | out,segIdx,seg :: segs =>
      match placeSegment raw phdrs out segIdx seg with
      | .error e => .error e
      | .ok out => placeSegments raw phdrs out (segIdx+1) segs

/-- Where the inner image's headers are. -/
def elfBase (numSegments : ℕ) : ℕ := sceHeaderSize+numSegments*selfSegmentSize

/-- The image of a size with the headers in place and the rest to be filled in. `reserve` tells
which requests for memory are granted. -/
def startImage (reserve : ℕ → Bool) (raw : List UInt8) (base stop size : ℕ) :
    Except ContainerError (List UInt8) :=
  if ¬reserve size then
    .error (.malformed ("reconstructed image too large (" ++ toString size ++ " bytes)"))
  else if raw.length < base+stop then .error (.tooShort "inner ELF header region truncated")
  else .ok (slice raw base stop ++ List.replicate (size-stop) 0)

def extractFromSelf (reserve : ℕ → Bool) (raw : List UInt8) :
    Except ContainerError (List UInt8 × ContainerMeta) :=
  if raw.length < sceHeaderSize then .error (.tooShort "SCE header truncated")
  else
    let numSegments := number raw 0x18 2
    if numSegments = 0 then .error (.malformed "SELF has zero segments")
    else
      match readSegments raw numSegments with
      | .error e => .error e
      | .ok segments =>
          let base := elfBase numSegments
          if raw.length < base+4 then .error (.tooShort "no room for inner ELF header")
          else if number raw base 4 ≠ elfMagic then .error .encrypted
          else do
            let phdrs ← readProgramHeaders raw base
            let stop := (phdrTableInfo (slice raw base elfHeaderSize)).stop
            let size ← outSize raw.length (max stop elfHeaderSize) phdrs
            let out ← startImage reserve raw base stop size
            let out ← placeSegments raw phdrs out 0 segments
            pure (out,⟨some numSegments,some (number raw 0x08 2),none⟩)

def openContainer (reserve : ℕ → Bool) (raw : Bytes) : Except ContainerError Container :=
  if raw.1.length < 4 then .error (.tooShort "less than 4 bytes")
  else if number raw.1 0 4 = elfMagic then .ok ⟨.rawElf,raw.1,⟨none,none,none⟩⟩
  else if number raw.1 0 4 = selfMagic then
    (extractFromSelf reserve raw.1).map fun (elfBytes,info) => ⟨.self,elfBytes,info⟩
  else .error (.unknownMagic (number raw.1 0 4))

/-- The program header table that an image's header tells of. -/
def imageTable (elf : List UInt8) : PhdrTable := phdrTableInfo (slice elf 0 elfHeaderSize)

def imagePhdrs (elf : List UInt8) : List ProgramHeader :=
  phdrEntries elf (imageTable elf).offset (imageTable elf).entrySize (imageTable elf).count

def ProgramHeader.Covers (ph : ProgramHeader) (i : ℕ) : Prop :=
  ph.fileOffset ≤ i ∧ i < ph.fileOffset+ph.fileSize

/-- The ELF header and the program header table. -/
def InHeaders (elf : List UInt8) (i : ℕ) : Prop :=
  i < elfHeaderSize ∨ (imageTable elf).offset ≤ i ∧ i < (imageTable elf).stop

/-- An image whose headers and file extents lie inside it, the table after the header. -/
structure WellFormedElf (elf : List UInt8) : Prop where
  magic : number elf 0 4 = elfMagic
  entrySize : 0x38 ≤ (imageTable elf).entrySize
  offset : elfHeaderSize ≤ (imageTable elf).offset
  count : (imageTable elf).count < 4096
  table : (imageTable elf).stop ≤ elf.length
  extents : ∀ ph ∈ imagePhdrs elf, ph.fileOffset+ph.fileSize ≤ elf.length

/-- A segment holds a program header's file image as it is. -/
structure SelfSegment.Stores (seg : SelfSegment) (raw elf : List UInt8) (ph : ProgramHeader) : Prop where
  compressed : seg.compressedSize = ph.fileSize
  uncompressed : seg.uncompressedSize = ph.fileSize
  payload : ∀ k < ph.fileSize, raw[seg.offset+k]? = elf[ph.fileOffset+k]?

/-- The segments of a SELF. -/
def selfSegments (raw : List UInt8) : List SelfSegment := segmentTable raw (number raw 0x18 2)

/-- A SELF embeds an image's headers after its segment table, and its blocked segments store the
file images of the program headers, each of them. -/
structure Wraps (elf raw : List UInt8) : Prop where
  magic : number raw 0 4 = selfMagic
  room : elfBase (number raw 0x18 2)+(imageTable elf).stop ≤ raw.length
  headers : ∀ i, InHeaders elf i → raw[elfBase (number raw 0x18 2)+i]? = elf[i]?
  blocked : ∀ seg ∈ selfSegments raw, seg.isBlocked →
    ∃ ph, (imagePhdrs elf)[seg.programHeaderId]? = some ph ∧ seg.Stores raw elf ph
  stored : ∀ i < (imagePhdrs elf).length,
    ∃ seg ∈ selfSegments raw, seg.isBlocked ∧ seg.programHeaderId = i

/-- Some bytes are those of the image in its headers and wherever a program header's file image
is. -/
def Agrees (elf out : List UInt8) : Prop :=
  ∀ i, InHeaders elf i ∨ (∃ ph ∈ imagePhdrs elf, ph.Covers i) → out[i]? = elf[i]?

section Slice

variable {a b : List UInt8} {i j k n : ℕ}

lemma slice_getElem? (hk : k < n) : (slice a i n)[k]? = a[i+k]? := by
  rw [slice, List.getElem?_take_of_lt hk, List.getElem?_drop]

lemma slice_length (h : i+n ≤ a.length) : (slice a i n).length = n := by
  simp only [slice, List.length_take, List.length_drop]
  omega

lemma slice_congr (h : ∀ k < n, a[i+k]? = b[j+k]?) : slice a i n = slice b j n := by
  refine List.ext_getElem? fun k => ?_
  by_cases hk : k < n
  · rw [slice_getElem? hk, slice_getElem? hk, h k hk]
  · simp [slice, not_lt.mp hk]

end Slice

section Unwrap

variable {elf raw : List UInt8} {reserve : ℕ → Bool}

lemma Wraps.header (h : Wraps elf raw) (helf : WellFormedElf elf) :
    number raw (elfBase (number raw 0x18 2)) 4 = elfMagic ∧
    phdrTableInfo (slice raw (elfBase (number raw 0x18 2)) elfHeaderSize) = imageTable elf := by
  constructor
  · rw [← helf.magic]
    refine congrArg fromLeBytes (slice_congr fun k hk => ?_)
    rw [Nat.zero_add]
    exact h.headers k (.inl (hk.trans (by decide)))
  · refine congrArg phdrTableInfo (slice_congr fun k hk => ?_)
    rw [Nat.zero_add]
    exact h.headers k (.inl hk)

/-- The program headers that are read are those of the image. -/
lemma Wraps.readProgramHeaders (h : Wraps elf raw) (helf : WellFormedElf elf)
    (hraw : raw.length < 2^63) :
    readProgramHeaders raw (elfBase (number raw 0x18 2)) = .ok (imagePhdrs elf) := by
  obtain ⟨-,htable⟩ := h.header helf
  have hroom := h.room
  have hentry := helf.entrySize
  have hoffset := helf.offset
  unfold Loader.readProgramHeaders
  dsimp only
  rw [htable]
  have hstop : (imageTable elf).stop =
    (imageTable elf).offset+(imageTable elf).count*(imageTable elf).entrySize := rfl
  rw [hstop] at hroom
  have hheaders := h.headers
  generalize elfBase (number raw 0x18 2) = base at *
  rw [if_neg (by omega), if_neg (by omega), if_neg (by omega), if_neg (by omega), if_neg (by omega),
    if_neg (by omega)]
  unfold imagePhdrs phdrEntries
  refine congrArg _ (List.map_congr_left fun i hi => congrArg phdrExtent (slice_congr fun k hk => ?_))
  have hmul : i*(imageTable elf).entrySize+(imageTable elf).entrySize ≤
      (imageTable elf).count*(imageTable elf).entrySize := by
    rw [← Nat.succ_mul]
    exact Nat.mul_le_mul_right _ (List.mem_range.mp hi)
  have hin := hheaders ((imageTable elf).offset+i*(imageTable elf).entrySize+k)
    (.inr ⟨by omega,by rw [hstop]; omega⟩)
  rwa [← Nat.add_assoc, ← Nat.add_assoc] at hin

/-- Extents that lie within bounds give a size that has room for them. -/
lemma outSize_ok (bound : ℕ) {rawLen size : ℕ} {phs : List ProgramHeader} (hbound : bound < 2^64)
    (hsize : size ≤ bound)
    (hphs : ∀ ph ∈ phs, ph.fileSize ≤ rawLen ∧ ph.fileOffset+ph.fileSize ≤ bound) :
    ∃ size', outSize rawLen size phs = .ok size' ∧ size ≤ size' ∧ size' ≤ bound ∧
      ∀ ph ∈ phs, ph.fileOffset+ph.fileSize ≤ size' := by
  induction phs generalizing size with
  | nil => exact ⟨size,rfl,le_refl _,hsize,by simp⟩
  | cons ph phs ih =>
    obtain ⟨hlen,hend⟩ := hphs ph (by simp)
    obtain ⟨size',hok,hle,hle',hall⟩ := ih (max_le hsize hend)
      fun ph' hph' => hphs ph' (List.mem_cons_of_mem _ hph')
    refine ⟨size',?_,by omega,hle',?_⟩
    · rw [outSize, if_neg (by omega), if_neg (by omega)]
      exact hok
    · intro ph' hph'
      rcases List.mem_cons.mp hph' with rfl | hph'
      · omega
      · exact hall ph' hph'

/-- A file image that is stored is there to be copied. -/
lemma SelfSegment.Stores.inside {seg : SelfSegment} {ph : ProgramHeader} (h : seg.Stores raw elf ph)
    (hend : ph.fileOffset+ph.fileSize ≤ elf.length) (hsize : ph.fileSize ≠ 0) :
    seg.offset+ph.fileSize ≤ raw.length := by
  have hlast := h.payload (ph.fileSize-1) (by omega)
  have hbyte : elf[ph.fileOffset+(ph.fileSize-1)]? = some _ := List.getElem?_eq_getElem (by omega)
  rw [hbyte] at hlast
  have hlt := (List.getElem?_eq_some_iff.mp hlast).1
  omega

/-- One segment puts its file image in place, and puts nothing else anywhere. -/
lemma placeSegment_ok {out : List UInt8} (segIdx : ℕ) {seg : SelfSegment} (hraw : raw.length < 2^63)
    (hseg : seg.isBlocked → ∃ ph, (imagePhdrs elf)[seg.programHeaderId]? = some ph ∧
      seg.Stores raw elf ph)
    (hextents : ∀ ph ∈ imagePhdrs elf, ph.fileOffset+ph.fileSize ≤ elf.length)
    (hout : ∀ ph ∈ imagePhdrs elf, ph.fileOffset+ph.fileSize ≤ out.length)
    (helf : elf.length < 2^63) :
    ∃ out' : List UInt8, placeSegment raw (imagePhdrs elf) out segIdx seg = .ok out' ∧
      out'.length = out.length ∧ (∀ i : ℕ, out[i]? = elf[i]? → out'[i]? = elf[i]?) ∧
      ∀ ph, seg.isBlocked → (imagePhdrs elf)[seg.programHeaderId]? = some ph →
        ∀ i : ℕ, ph.Covers i → out'[i]? = elf[i]? := by
  unfold placeSegment
  by_cases hblocked : seg.isBlocked
  · obtain ⟨ph,hph,hcompressed,huncompressed,hpayload⟩ := hseg hblocked
    have hmem := List.mem_of_getElem? hph
    have hplain : ¬seg.isCompressed := by
      simp [SelfSegment.isCompressed, hcompressed, huncompressed]
    rw [if_neg (not_not.mpr hblocked), if_neg hplain, hph]
    dsimp only
    rw [huncompressed, min_self]
    by_cases hzero : ph.fileSize = 0
    · rw [if_pos hzero]
      refine ⟨out,rfl,rfl,fun i hi => hi,fun ph' _ hph' i hi => ?_⟩
      obtain rfl := Option.some.inj hph'
      obtain ⟨hle,hlt⟩ := hi
      omega
    · have hend := hextents ph hmem
      have hroom := hout ph hmem
      have hsrc := SelfSegment.Stores.inside ⟨hcompressed,huncompressed,hpayload⟩ hend hzero
      rw [if_neg hzero, if_neg (by omega), if_neg (by omega), if_neg (by omega)]
      obtain ⟨out',hcopy⟩ : ∃ out',
          copySlice raw out ⟨seg.offset,ph.fileOffset,ph.fileSize⟩ = some out' :=
        ⟨_,if_pos ⟨hsrc,hroom⟩⟩
      rw [hcopy]
      have hbytes : ∀ i, ph.Covers i → out'[i]? = elf[i]? := by
        intro i hi
        obtain ⟨hle,hlt⟩ := hi
        rw [copySlice_covered hcopy ⟨hle,hlt⟩, hpayload (i-ph.fileOffset) (by omega)]
        congr 1
        omega
      refine ⟨out',rfl,copySlice_length hcopy,fun i hi => ?_,fun ph' _ hph' => ?_⟩
      · by_cases hcovers : ph.Covers i
        · exact hbytes i hcovers
        · rw [copySlice_spared hcopy hcovers, hi]
      · obtain rfl := Option.some.inj hph'
        exact hbytes
  · rw [if_pos hblocked]
    exact ⟨out,rfl,rfl,fun i hi => hi,fun ph h => absurd h hblocked⟩

/-- The segments together put the file images in place that they store. -/
lemma placeSegments_ok {out : List UInt8} (segIdx : ℕ) {segs : List SelfSegment}
    (hraw : raw.length < 2^63) (helf : elf.length < 2^63)
    (hsegs : ∀ seg ∈ segs, seg.isBlocked → ∃ ph, (imagePhdrs elf)[seg.programHeaderId]? = some ph ∧
      seg.Stores raw elf ph)
    (hextents : ∀ ph ∈ imagePhdrs elf, ph.fileOffset+ph.fileSize ≤ elf.length)
    (hout : ∀ ph ∈ imagePhdrs elf, ph.fileOffset+ph.fileSize ≤ out.length) :
    ∃ out' : List UInt8, placeSegments raw (imagePhdrs elf) out segIdx segs = .ok out' ∧
      (∀ i : ℕ, out[i]? = elf[i]? → out'[i]? = elf[i]?) ∧
      ∀ seg ∈ segs, seg.isBlocked → ∀ ph, (imagePhdrs elf)[seg.programHeaderId]? = some ph →
        ∀ i, ph.Covers i → out'[i]? = elf[i]? := by
  induction segs generalizing out segIdx with
  | nil => exact ⟨out,rfl,fun i hi => hi,by simp⟩
  | cons seg segs ih =>
    obtain ⟨mid,hmid,hlen,hkeeps,hputs⟩ := placeSegment_ok segIdx hraw
      (hsegs seg (by simp)) hextents hout helf
    obtain ⟨out',hout',hkeeps',hputs'⟩ := ih (segIdx+1)
      (fun seg' hseg' => hsegs seg' (List.mem_cons_of_mem _ hseg')) (hlen ▸ hout)
    refine ⟨out',?_,fun i hi => hkeeps' i (hkeeps i hi),?_⟩
    · rw [placeSegments, hmid]
      exact hout'
    · intro seg' hseg' hblocked ph hph i hi
      rcases List.mem_cons.mp hseg' with rfl | hseg'
      · exact hkeeps' i (hputs ph hblocked hph i hi)
      · exact hputs' seg' hseg' hblocked ph hph i hi

/-- An image in memory that has the headers in place. -/
lemma startImage_ok {base stop size : ℕ} (hreserve : reserve size) (hroom : base+stop ≤ raw.length)
    (hsize : stop ≤ size) : ∃ out, startImage reserve raw base stop size = .ok out ∧
      out.length = size ∧ ∀ i < stop, out[i]? = raw[base+i]? := by
  have hlen := slice_length hroom
  refine ⟨slice raw base stop ++ List.replicate (size-stop) 0,?_,?_,?_⟩
  · rw [startImage, if_neg (not_not.mpr hreserve), if_neg (by omega)]
  · rw [List.length_append, hlen, List.length_replicate]
    omega
  · intro i hi
    rw [List.getElem?_append_left (hlen.symm ▸ hi), slice_getElem? hi]

theorem extractFromSelf_ok (helf : WellFormedElf elf) (hwraps : Wraps elf raw)
    (hsegs : number raw 0x18 2 ≠ 0) (hraw : raw.length < 2^63) (hlen : elf.length < 2^63)
    (hreserve : ∀ size ≤ elf.length, reserve size) :
    ∃ out info, extractFromSelf reserve raw = .ok (out,info) ∧ Agrees elf out := by
  obtain ⟨hmagic,htable⟩ := hwraps.header helf
  have hphdrs := hwraps.readProgramHeaders helf hraw
  have hroom := hwraps.room
  have hoffset := helf.offset
  have hstop : (imageTable elf).offset ≤ (imageTable elf).stop := Nat.le_add_right _ _
  have hbase : elfBase (number raw 0x18 2) =
    sceHeaderSize+number raw 0x18 2*selfSegmentSize := rfl
  have hsizes : ∀ ph ∈ imagePhdrs elf,
      ph.fileSize ≤ raw.length ∧ ph.fileOffset+ph.fileSize ≤ elf.length := by
    intro ph hph
    obtain ⟨k,hk⟩ := List.mem_iff_getElem?.mp hph
    obtain ⟨seg,hseg,hblocked,rfl⟩ := hwraps.stored k (List.getElem?_eq_some_iff.mp hk).1
    obtain ⟨ph',hph',hstores⟩ := hwraps.blocked seg hseg hblocked
    obtain rfl : ph' = ph := by simpa [hph'] using hk
    have hend := helf.extents ph' hph
    refine ⟨?_,hend⟩
    by_cases hzero : ph'.fileSize = 0
    · omega
    · have hin := hstores.inside hend hzero
      omega
  obtain ⟨size,hsize,hle,hbound,hfits⟩ := outSize_ok elf.length (by omega)
    (max_le helf.table (hoffset.trans (hstop.trans helf.table))) hsizes
  obtain ⟨start,hstart,hlength,hheaders⟩ := startImage_ok (hreserve size hbound) hroom
    ((le_max_left _ _).trans hle)
  obtain ⟨out,hout,hkeeps,hputs⟩ := placeSegments_ok 0 hraw hlen hwraps.blocked
    helf.extents (hlength ▸ hfits)
  refine ⟨out,⟨some (number raw 0x18 2),some (number raw 0x08 2),none⟩,?_,?_⟩
  · have hsce : elfHeaderSize = 0x40 := rfl
    unfold extractFromSelf
    dsimp only
    rw [if_neg (by omega), if_neg hsegs, readSegments, if_neg (by omega)]
    dsimp only
    rw [if_neg (by omega), if_neg (not_not.mpr hmagic), hphdrs, htable]
    simp only [bind, Except.bind, pure, Except.pure, hsize, hstart]
    rw [show placeSegments raw (imagePhdrs elf) start 0 (segmentTable raw (number raw 0x18 2)) = .ok out
      from hout]
  · rintro i (hi | ⟨ph,hph,hi⟩)
    · refine hkeeps i ?_
      rw [hheaders i ?_, hwraps.headers i hi]
      rcases hi with hi | ⟨-,hi⟩
      · omega
      · exact hi
    · obtain ⟨k,hk⟩ := List.mem_iff_getElem?.mp hph
      obtain ⟨seg,hseg,hblocked,rfl⟩ := hwraps.stored k (List.getElem?_eq_some_iff.mp hk).1
      exact hputs seg hseg hblocked ph hk i hi

end Unwrap

/-- Opening a SELF that wraps an image, in at least one segment, gives back its headers and all file
images. -/
theorem openContainer_inverts {elf raw : Bytes} {reserve : ℕ → Bool} (helf : WellFormedElf elf.1)
    (hwraps : Wraps elf.1 raw.1) (hsegs : selfSegments raw.1 ≠ [])
    (hreserve : ∀ size ≤ elf.1.length, reserve size) :
    ∃ c, openContainer reserve raw = .ok c ∧ c.kind = .self ∧ Agrees elf.1 c.elfBytes := by
  have hcount : number raw.1 0x18 2 ≠ 0 := by
    intro hzero
    simp [selfSegments, segmentTable, hzero] at hsegs
  obtain ⟨out,info,hout,hagrees⟩ := extractFromSelf_ok helf hwraps hcount raw.2 elf.2 hreserve
  refine ⟨⟨.self,out,info⟩,?_,rfl,hagrees⟩
  have hroom := hwraps.room
  have hbase : elfBase (number raw.1 0x18 2) =
    sceHeaderSize+number raw.1 0x18 2*selfSegmentSize := rfl
  have hsce : sceHeaderSize = 0x20 := rfl
  unfold openContainer
  rw [if_neg (by omega), hwraps.magic, if_neg (by decide), if_pos rfl, hout]
  rfl

section Samples

def leBytes (n len : ℕ) : List UInt8 := (List.range len).map fun i => UInt8.ofNat (n/256^i)

lemma fromLeBytes_leBytes (n len : ℕ) : fromLeBytes (leBytes n len) = n % 256^len := by
  induction len generalizing n with
  | zero => simp [leBytes, fromLeBytes, Nat.mod_one]
  | succ len ih =>
    have hrest : (List.range len).map (fun i => UInt8.ofNat (n/256^(i+1))) = leBytes (n/256) len :=
      List.map_congr_left fun i _ => by rw [Nat.pow_succ', Nat.div_div_eq_div_mul]
    have hcons : leBytes n (len+1) = UInt8.ofNat n :: leBytes (n/256) len := by
      rw [← hrest, leBytes, List.range_succ_eq_map]
      simp [Function.comp_def]
    have hpow : 256^(len+1) = 256*256^len := Nat.pow_succ'
    rw [hcons, fromLeBytes, List.foldr_cons, ← fromLeBytes, ih, UInt8.toNat_ofNat', hpow]
    exact Nat.mod_mul.symm

def zeros (len : ℕ) : List UInt8 := List.replicate len 0

def sceHeader (numSegments : ℕ) : List UInt8 :=
  leBytes selfMagic 4 ++ zeros 0x14 ++ leBytes numSegments 2 ++ zeros 6

def segmentEntry (flags offset size : ℕ) : List UInt8 :=
  leBytes flags 8 ++ leBytes offset 8 ++ leBytes size 8 ++ leBytes size 8

/-- An ELF header with the program header table right after it. -/
def elfHeader (count : ℕ) : List UInt8 :=
  leBytes elfMagic 4 ++ zeros 0x1C ++ leBytes 0x40 8 ++ zeros 0xE ++ leBytes 0x38 2 ++
    leBytes count 2 ++ zeros 6

def phdrEntry (fileOffset fileSize : ℕ) : List UInt8 :=
  zeros 8 ++ leBytes fileOffset 8 ++ zeros 0x10 ++ leBytes fileSize 8 ++ zeros 0x10

/-- An image whose one file extent starts in its program header table, and a SELF of it. -/
def sampleElf : Bytes := ⟨elfHeader 1 ++ phdrEntry 0x70 12 ++ [1,2,3,4],by decide +kernel⟩
def sampleSelf : Bytes :=
  ⟨sceHeader 2 ++ segmentEntry 0 0 0 ++ segmentEntry 0x800 0xD8 12 ++ (elfHeader 1 ++ phdrEntry 0x70 12) ++
    (zeros 8 ++ [1,2,3,4]),by decide +kernel⟩

theorem openContainer_inverts_sample : ∃ c, openContainer (fun _ => true) sampleSelf = .ok c ∧
    c.kind = .self ∧ Agrees sampleElf.1 c.elfBytes := by
  have hphdrs : imagePhdrs sampleElf.1 = [⟨0x70,12⟩] := by decide +kernel
  have hsegs : selfSegments sampleSelf.1 = [⟨0,0,0,0⟩,⟨0x800,0xD8,12,12⟩] := by decide +kernel
  refine openContainer_inverts ⟨by decide +kernel,by decide +kernel,by decide +kernel,by decide +kernel,
    by decide +kernel,by decide +kernel⟩ ⟨by decide +kernel,by decide +kernel,?_,?_,?_⟩ (by simp [hsegs])
    fun _ _ => rfl
  · have hall : ∀ i < 0x78, sampleSelf.1[elfBase (number sampleSelf.1 0x18 2)+i]? = sampleElf.1[i]? := by
      decide +kernel
    have hstop : (imageTable sampleElf.1).stop = 0x78 := by decide +kernel
    rintro i (hi | ⟨-,hi⟩)
    · exact hall i (hi.trans (by decide))
    · exact hall i (hstop ▸ hi)
  · rw [hsegs, hphdrs]
    intro seg hseg hblocked
    rcases List.mem_pair.mp hseg with rfl | rfl
    · cases hblocked
    · exact ⟨⟨0x70,12⟩,rfl,rfl,rfl,by decide +kernel⟩
  · rw [hsegs, hphdrs]
    intro i hi
    obtain rfl := Nat.lt_one_iff.mp hi
    exact ⟨⟨0x800,0xD8,12,12⟩,by simp,rfl,rfl⟩

def emptyElf : Bytes := ⟨elfHeader 0,by decide +kernel⟩
def emptySelf : Bytes := ⟨sceHeader 0 ++ elfHeader 0,by decide +kernel⟩

/-- An image without program headers may be wrapped without segments, which is refused. -/
theorem not_openContainer_empty : ¬∀ (elf raw : Bytes) (reserve : ℕ → Bool), WellFormedElf elf.1 →
    Wraps elf.1 raw.1 → (∀ size ≤ elf.1.length, reserve size) →
    ∃ c, openContainer reserve raw = .ok c ∧ c.kind = .self ∧ Agrees elf.1 c.elfBytes := by
  intro h
  have hphdrs : imagePhdrs emptyElf.1 = [] := by decide +kernel
  have hsegs : selfSegments emptySelf.1 = [] := by decide +kernel
  have hwraps : Wraps emptyElf.1 emptySelf.1 := by
    refine ⟨by decide +kernel,by decide +kernel,?_,by simp [hsegs],by simp [hphdrs]⟩
    have hall : ∀ i < 0x40, emptySelf.1[elfBase (number emptySelf.1 0x18 2)+i]? = emptyElf.1[i]? := by
      decide +kernel
    have hstop : (imageTable emptyElf.1).stop = 0x40 := by decide +kernel
    rintro i (hi | ⟨-,hi⟩)
    · exact hall i hi
    · exact hall i (hstop ▸ hi)
  obtain ⟨c,hopen,-⟩ := h emptyElf emptySelf (fun _ => true) ⟨by decide +kernel,by decide +kernel,
    by decide +kernel,by decide +kernel,by decide +kernel,by decide +kernel⟩ hwraps fun _ _ => rfl
  have hrefused : openContainer (fun _ => true) emptySelf =
      .error (.malformed "SELF has zero segments") := by
    decide +kernel
  rw [hrefused] at hopen
  cases hopen

end Samples

end Unemups4.Loader

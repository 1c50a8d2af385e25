import Unemups4.Descriptors
import Unemups4.FetchSources
import Unemups4.VertexFetch

/-! The components of a vertex fetch: what the recompiled code unpacks from the dwords of the
bound buffer, and what the interpreter extracts from the guest bytes. -/
namespace Unemups4.Gnm
open Gcn Fallible

/-- A component before it is scaled to a float: the bits taken from the buffer, and what is to
become of them. -/
inductive RawComponent where
  | dword (bits : Word)
  | half (bits : BitVec 16)
  | zero
  | unorm (width : ℕ) (bits : Word)
  | snorm (width : ℕ) (bits : Word)
  | uint (bits : Word)
  | sint (bits : Word)
  deriving DecidableEq, Repr

namespace RawComponent

/-- The word the interpreter stores for it. -/
def value (F : FloatOps) : RawComponent → Word
  | dword bits => bits
  | half bits => F.ofHalf bits
  | zero => F32.zero
  | unorm width bits => F.div (F.ofU32 bits) (F.ofU32 ((1#32 <<< width)-1))
  | snorm width bits => F.max (F.div (F.ofI32 bits) (F.ofU32 ((1#32 <<< (width-1))-1))) F32.negOne
  | uint bits => F.ofU32 bits
  | sint bits => F.ofI32 bits

/-- The word the emitted code makes of it: its `FMax` takes the operands the other way round. -/
def emitted (F : FloatOps) : RawComponent → Word
  | snorm width bits => F.max F32.negOne (F.div (F.ofI32 bits) (F.ofU32 ((1#32 <<< (width-1))-1)))
  | c => c.value F

@[simp] lemma emitted_dword (F : FloatOps) (bits : Word) : (dword bits).emitted F = bits := rfl

@[simp] lemma emitted_half (F : FloatOps) (bits : BitVec 16) :
    (half bits).emitted F = F.ofHalf bits := rfl

@[simp] lemma emitted_zero (F : FloatOps) : zero.emitted F = F32.zero := rfl

/-- The two scalings agree where the maximum is symmetric. -/
lemma emitted_eq_value {F : FloatOps} (hmax : ∀ x, F.max F32.negOne x = F.max x F32.negOne)
    (c : RawComponent) : c.emitted F = c.value F := by
  cases c with
  | snorm width bits => exact hmax _
  | _ => rfl

/-- `convert_packed_int` up to the scaling. -/
def packedInt (rawU : Word) (width nfmt : ℕ) (floatVal : RawComponent) : RawComponent :=
  let sub := if rawU.getLsbD (width-1) then 1#32 <<< width else 0
  match nfmt with
  | 1 => snorm width (rawU-sub)
  | 4 => uint rawU
  | 5 => sint (rawU-sub)
  | 7 => floatVal
  | _ => unorm width rawU

/-- Component `i` of the bytes `exec_mubuf` loaded. -/
def extract (dfmt nfmt : ℕ) (bytes : List (BitVec 8)) (i : ℕ) : RawComponent :=
  match dfmt with
  | 1 | 3 | 10 => packedInt ((readLeU32 bytes 0 >>> (i*8)) &&& 0xff#32) 8 nfmt zero
  | 2 | 5 | 12 =>
      let halfU := (readLeU32 bytes (i/2*4) >>> (i%2*16)) &&& 0xffff#32
      packedInt halfU 16 nfmt (half (halfU.setWidth 16))
  | _ => dword (readLeU32 bytes (i*4))

/-- `convert_packed_component` up to the scaling. -/
def packedSelect (rawU : Word) (width : ℕ) (nfmt : Word) (floatVal : RawComponent) : RawComponent :=
  let masked := rawU &&& (1#32 <<< (width-1))
  let sub := if masked = 0 then 0 else 1#32 <<< width
  let r := if nfmt = 1 then snorm width (rawU-sub) else unorm width rawU
  let r := if nfmt = 4 then uint rawU else r
  let r := if nfmt = 5 then sint (rawU-sub) else r
  if nfmt = 7 then floatVal else r

/-- The formats `exec_mubuf` tells apart. -/
lemma extract_eq_ite (dfmt nfmt : ℕ) (bytes : List (BitVec 8)) (i : ℕ) :
    extract dfmt nfmt bytes i =
      if dfmt = 1 ∨ dfmt = 3 ∨ dfmt = 10 then
        packedInt ((readLeU32 bytes 0 >>> (i*8)) &&& 0xff#32) 8 nfmt zero
      else if dfmt = 2 ∨ dfmt = 5 ∨ dfmt = 12 then
        packedInt ((readLeU32 bytes (i/2*4) >>> (i%2*16)) &&& 0xffff#32) 16 nfmt
          (half (((readLeU32 bytes (i/2*4) >>> (i%2*16)) &&& 0xffff#32).setWidth 16))
      else dword (readLeU32 bytes (i*4)) := by
  unfold extract
  split
  case h_7 => simp_all
  all_goals rfl

lemma value_packedInt (F : FloatOps) (rawU : Word) (width nfmt : ℕ) (floatVal : RawComponent) :
    (packedInt rawU width nfmt floatVal).value F =
      F.convertPackedInt rawU width nfmt (floatVal.value F) := by
  unfold packedInt FloatOps.convertPackedInt
  dsimp only
  generalize (if rawU.getLsbD (width-1) then 1#32 <<< width else 0) = sub
  split
  case h_5 => simp_all [value]
  all_goals rfl

/-- What the interpreter stores is its raw component, scaled. -/
lemma value_extract (F : FloatOps) (dfmt nfmt : ℕ) (bytes : List (BitVec 8)) (i : ℕ) :
    (extract dfmt nfmt bytes i).value F = F.fetchComponent dfmt nfmt bytes i := by
  unfold extract FloatOps.fetchComponent
  split
  case h_7 => simp_all [value]
  all_goals exact value_packedInt F _ _ _ _

lemma word_eq_iff (x : Word) {k : ℕ} (hk : k < 2^32) : x = BitVec.ofNat 32 k ↔ x.toNat = k := by
  rw [← BitVec.toNat_inj, BitVec.toNat_ofNat, Nat.mod_eq_of_lt hk]

/-- The lowest byte of the bits that were taken. -/
def lowByte : RawComponent → BitVec 8
  | dword bits | unorm _ bits | snorm _ bits | uint bits | sint bits => bits.setWidth 8
  | half bits => bits.setWidth 8
  | zero => 0

/-- Sign extension leaves the low byte alone. -/
lemma lowByte_packedInt (rawU : Word) {width : ℕ} (hw : 8 ≤ width) (nfmt : ℕ)
    {floatVal : RawComponent} (hfloat : nfmt = 7 → floatVal.lowByte = rawU.setWidth 8) :
    (packedInt rawU width nfmt floatVal).lowByte = rawU.setWidth 8 := by
  have hfull : (1#32 <<< width).setWidth 8 = 0 := by
    ext i hi
    simp [show i < width by omega]
  have hsub (sub : Word) (h : sub.setWidth 8 = 0) : (rawU-sub).setWidth 8 = rawU.setWidth 8 := by
    have hlow : sub.toNat%2^8 = 0 := by simpa using congrArg BitVec.toNat h
    apply BitVec.eq_of_toNat_eq
    simp only [BitVec.toNat_setWidth, BitVec.toNat_sub]
    omega
  have hsigned : (rawU-if rawU.getLsbD (width-1) then 1#32 <<< width else 0).setWidth 8 =
      rawU.setWidth 8 := by
    apply hsub
    split_ifs
    · exact hfull
    · rfl
  unfold packedInt
  generalize (if rawU.getLsbD (width-1) then 1#32 <<< width else 0) = sub at hsigned
  dsimp only
  split
  · exact hsigned
  · rfl
  · exact hsigned
  · exact hfloat rfl
  · rfl

/-- The first component starts with the first byte, unless its format makes it a zero. -/
lemma lowByte_extract (g : GuestMemory) (addr : BitVec 64) {count dfmt nfmt : ℕ} (hcount : 0 < count)
    (hzero : ¬((dfmt = 1 ∨ dfmt = 3 ∨ dfmt = 10) ∧ nfmt = 7)) :
    (extract dfmt nfmt (g.bytes addr (count*4)) 0).lowByte = g.byteAt addr := by
  have hword : readLeU32 (g.bytes addr (count*4)) 0 = g.word addr := by
    rw [g.readLeU32_bytes _ (by omega)]
    exact congrArg g.word (by simp)
  have hbyte : (g.word addr &&& 0xff#32).setWidth 8 = (g.word addr).setWidth 8 := by
    rw [BitVec.setWidth_and, show (0xff#32).setWidth 8 = BitVec.allOnes 8 from rfl,
      BitVec.and_allOnes]
  have hhalf : (g.word addr &&& 0xffff#32).setWidth 8 = (g.word addr).setWidth 8 := by
    rw [BitVec.setWidth_and, show (0xffff#32).setWidth 8 = BitVec.allOnes 8 from rfl,
      BitVec.and_allOnes]
  rw [← g.word_low, extract_eq_ite]
  simp only [Nat.zero_div, Nat.zero_mod, zero_mul, hword, BitVec.ushiftRight_zero]
  split_ifs with h8 h16
  · rw [lowByte_packedInt _ le_rfl _ fun h7 => absurd ⟨h8,h7⟩ hzero, hbyte]
  · rw [lowByte_packedInt _ (by decide) _ fun _ => ?_, hhalf]
    exact BitVec.setWidth_setWidth_of_le _ (by decide)
  · rfl

/-- Both sides take the same sign and the same number format. -/
lemma packedSelect_eq (rawU nfmt : Word) {width : ℕ} (hw : width-1 < 32) (floatVal : RawComponent) :
    packedSelect rawU width nfmt floatVal = packedInt rawU width nfmt.toNat floatVal := by
  have hmask : rawU &&& (1#32 <<< (width-1)) = 0 ↔ rawU.getLsbD (width-1) = false := by
    rw [← BitVec.twoPow_eq, BitVec.and_twoPow]
    cases rawU.getLsbD (width-1) with
    | true =>
      have hne : BitVec.twoPow 32 (width-1) ≠ 0 := by
        intro hzero
        have hval := congrArg BitVec.toNat hzero
        rw [BitVec.toNat_twoPow_of_lt hw] at hval
        exact absurd hval (Nat.two_pow_pos _).ne'
      simpa using hne
    | false => simp
  have hsub : (if rawU &&& (1#32 <<< (width-1)) = 0 then 0 else 1#32 <<< width) =
      if rawU.getLsbD (width-1) then 1#32 <<< width else 0 := by
    simp only [hmask]
    cases rawU.getLsbD (width-1) <;> rfl
  have h1 : nfmt = 1 ↔ nfmt.toNat = 1 := word_eq_iff nfmt (by decide)
  have h4 : nfmt = 4 ↔ nfmt.toNat = 4 := word_eq_iff nfmt (by decide)
  have h5 : nfmt = 5 ↔ nfmt.toNat = 5 := word_eq_iff nfmt (by decide)
  have h7 : nfmt = 7 ↔ nfmt.toNat = 7 := word_eq_iff nfmt (by decide)
  unfold packedSelect packedInt
  simp only [hsub, h1, h4, h5, h7]
  generalize nfmt.toNat = k
  -- the outermost select is the one that picks the half-floats
  by_cases hfloat : k = 7
  · subst hfloat
    rfl
  by_cases hsint : k = 5
  · subst hsint
    rfl
  by_cases huint : k = 4
  · subst huint
    rfl
  by_cases hsnorm : k = 1
  · subst hsnorm
    rfl
  simp [*]

end RawComponent

/-- The bound buffer: the dwords from the base of its V# on. -/
def boundDwords (g : GuestMemory) (base : BitVec 64) (j : Word) : Word :=
  g.word (base+j.setWidth 64*4)

namespace PushGroup

variable (p : PushGroup)

def nfmt : Word := (p.format >>> 8) &&& 0xff#32

def is8 : Bool := p.dfmt = 1 ∨ p.dfmt = 3 ∨ p.dfmt = 10

def is16 : Bool := p.dfmt = 2 ∨ p.dfmt = 5 ∨ p.dfmt = 12

def selector (channel : ℕ) : Word := (p.dstSel >>> (channel*3)) &&& 7#32

def convertPackedComponent (F : FloatOps) (rawU : Word) (width : ℕ) (nfmt floatVal : Word) : Word :=
  let masked := rawU &&& (1#32 <<< (width-1))
  let sub := if masked = 0 then 0 else 1#32 <<< width
  let uf := F.ofU32 rawU
  let sf := F.ofI32 (rawU-sub)
  let unorm := F.div uf (F.ofU32 ((1#32 <<< width)-1))
  let snorm := F.max F32.negOne (F.div sf (F.ofU32 ((1#32 <<< (width-1))-1)))
  let r := if nfmt = 1 then snorm else unorm
  let r := if nfmt = 4 then uf else r
  let r := if nfmt = 5 then sf else r
  if nfmt = 7 then floatVal else r

/-- One channel of a fetch, over the dwords of the bound buffer: the three loads, the selects by
the format, then those by the swizzle. -/
def fetchBufferComponent (F : FloatOps) (buf : Word → Word) (index byteOffset : Word)
    (channel : ℕ) : Word :=
  let dwordBase := p.dwordBase index byteOffset
  let srcComp := p.srcComp channel
  let rawBits := buf (if p.isPacked then dwordBase else dwordBase+srcComp)
  let byte := (buf dwordBase >>> (srcComp <<< 3)) &&& 0xff#32
  let val8 := convertPackedComponent F byte 8 p.nfmt F32.zero
  let halfIdx := srcComp &&& 1#32
  let d16Bits := buf (dwordBase+(srcComp >>> 1))
  let halfU := (d16Bits >>> (halfIdx <<< 4)) &&& 0xffff#32
  let halfF := if halfIdx = 1 then F.ofHalf ((d16Bits >>> 16).setWidth 16)
    else F.ofHalf (d16Bits.setWidth 16)
  let val16 := convertPackedComponent F halfU 16 p.nfmt halfF
  let unpacked := if p.is8 then val8 else if p.is16 then val16 else rawBits
  if p.selector channel = 0 then F32.zero else if p.selector channel = 1 then F32.one else unpacked

/-- The component a channel unpacks, before it is scaled and before the selects of the
swizzle. -/
def unpacked (buf : Word → Word) (index byteOffset : Word) (channel : ℕ) : RawComponent :=
  let dwordBase := p.dwordBase index byteOffset
  let srcComp := p.srcComp channel
  let byte := (buf dwordBase >>> (srcComp <<< 3)) &&& 0xff#32
  let halfIdx := srcComp &&& 1#32
  let d16Bits := buf (dwordBase+(srcComp >>> 1))
  let halfU := (d16Bits >>> (halfIdx <<< 4)) &&& 0xffff#32
  let halfF := if halfIdx = 1 then (d16Bits >>> 16).setWidth 16 else d16Bits.setWidth 16
  if p.is8 then .packedSelect byte 8 p.nfmt .zero
  else if p.is16 then .packedSelect halfU 16 p.nfmt (.half halfF)
  else .dword (buf (if p.isPacked then dwordBase else dwordBase+srcComp))

lemma emitted_packedSelect (F : FloatOps) (rawU : Word) (width : ℕ) (nfmt : Word)
    (floatVal : RawComponent) :
    (RawComponent.packedSelect rawU width nfmt floatVal).emitted F =
      convertPackedComponent F rawU width nfmt (floatVal.emitted F) := by
  simp only [RawComponent.packedSelect, convertPackedComponent, apply_ite (RawComponent.emitted F)]
  rfl

/-- What a fetch writes: a constant of the swizzle, or its unpacked component, scaled. -/
lemma fetchBufferComponent_eq (F : FloatOps) (buf : Word → Word) (index byteOffset : Word)
    (channel : ℕ) :
    p.fetchBufferComponent F buf index byteOffset channel =
      if p.selector channel = 0 then F32.zero
      else if p.selector channel = 1 then F32.one
      else (p.unpacked buf index byteOffset channel).emitted F := by
  simp only [fetchBufferComponent, unpacked, apply_ite (RawComponent.emitted F),
    emitted_packedSelect, RawComponent.emitted_dword, RawComponent.emitted_half,
    RawComponent.emitted_zero, apply_ite F.ofHalf]

/-- The V# whose fields the group carries. -/
def vsharp (base : BitVec 64) : VSharp where
  base := base
  stride := p.stride.setWidth 64
  numRecords := p.numRecords.setWidth 64
  nfmt := p.nfmt.toNat
  dfmt := p.dfmt.toNat

/-- The format word keeps both fields of the V#. -/
lemma packedFormat_fields : ∀ dfmt < 16, ∀ nfmt < 8,
    let format := BitVec.ofNat 32 dfmt ||| (BitVec.ofNat 32 nfmt <<< 8)
    (format &&& 0xff#32).toNat = dfmt ∧ ((format >>> 8) &&& 0xff#32).toNat = nfmt := by
  decide

/-- The group a draw pushes for a V# with a stride carries the fields the interpreter decodes. -/
theorem vsharp_pushGroup (w : VWords) {strideBytes : ℕ} (hstride : (decodeVSharp w).stride ≠ 0) :
    (pushGroup (decodeVSharp w).vertexRange strideBytes).vsharp
      (VSharp.ofWords w.w0 w.w1 w.w2 w.w3).base = VSharp.ofWords w.w0 w.w1 w.w2 w.w3 := by
  have hdfmt : (decodeVSharp w).dfmt < 16 :=
    lt_of_le_of_lt (by simpa [decodeVSharp] using Nat.and_le_right) (by decide : 15 < 16)
  have hnfmt : (decodeVSharp w).nfmt < 8 :=
    lt_of_le_of_lt (by simpa [decodeVSharp] using Nat.and_le_right) (by decide : 7 < 8)
  obtain ⟨hd,hn⟩ := packedFormat_fields _ hdfmt _ hnfmt
  have hformat : (pushGroup (decodeVSharp w).vertexRange strideBytes).format =
      (decodeVSharp w).packedFormat := by
    simp [pushGroup, BufferDesc.vertexRange]
  have hstride' : (pushGroup (decodeVSharp w).vertexRange strideBytes).stride =
      (w.w1 >>> 16) &&& 0x3fff#32 :=
    calc BitVec.ofNat 32 (vbStride (decodeVSharp w).stride strideBytes)
        = BitVec.ofNat 32 ((w.w1 >>> 16) &&& 0x3fff#32).toNat :=
          congrArg (BitVec.ofNat 32) (if_pos hstride)
      _ = (w.w1 >>> 16) &&& 0x3fff#32 := by rw [BitVec.ofNat_toNat, BitVec.setWidth_eq]
  have hrecords : (pushGroup (decodeVSharp w).vertexRange strideBytes).numRecords = w.w2 := by
    simp [pushGroup, BufferDesc.vertexRange, decodeVSharp]
  simp only [vsharp, VSharp.ofWords, dfmt, nfmt, hformat, hstride', hrecords,
    BufferDesc.packedFormat, hd, hn]
  rfl

lemma is8_iff : p.is8 ↔ p.dfmt.toNat = 1 ∨ p.dfmt.toNat = 3 ∨ p.dfmt.toNat = 10 := by
  rw [is8, decide_eq_true_iff, ← RawComponent.word_eq_iff p.dfmt (by decide : 1 < 2^32),
    ← RawComponent.word_eq_iff p.dfmt (by decide : 3 < 2^32),
    ← RawComponent.word_eq_iff p.dfmt (by decide : 10 < 2^32)]
  rfl

lemma is16_iff : p.is16 ↔ p.dfmt.toNat = 2 ∨ p.dfmt.toNat = 5 ∨ p.dfmt.toNat = 12 := by
  rw [is16, decide_eq_true_iff, ← RawComponent.word_eq_iff p.dfmt (by decide : 2 < 2^32),
    ← RawComponent.word_eq_iff p.dfmt (by decide : 5 < 2^32),
    ← RawComponent.word_eq_iff p.dfmt (by decide : 12 < 2^32)]
  rfl

lemma isPacked_eq : p.isPacked = (p.is8 || p.is16) := by
  simp [isPacked, is8, is16, Bool.or_assoc]

/-- Where the emitted code starts to load. -/
def loadAddr (base : BitVec 64) (index byteOffset : Word) : BitVec 64 :=
  base+(p.dwordBase index byteOffset).setWidth 64*4

/-- A dword past the first one is that many bytes past the address. -/
lemma boundDwords_add (g : GuestMemory) (base : BitVec 64) (index byteOffset : Word) {k : Word}
    (hk : k.toNat < 4) :
    boundDwords g base (p.dwordBase index byteOffset+k) =
      g.word (p.loadAddr base index byteOffset+BitVec.ofNat 64 (k.toNat*4)) := by
  have hbase := p.dwordBase_lt index byteOffset
  unfold boundDwords loadAddr
  rw [add_assoc]
  congr 2
  have hfour : (4 : BitVec 64).toNat = 4 := rfl
  apply BitVec.eq_of_toNat_eq
  simp only [BitVec.toNat_mul, BitVec.toNat_add, BitVec.toNat_setWidth, BitVec.toNat_ofNat, hfour]
  omega

/-- What a channel unpacks is what the interpreter would extract from the bytes at the address
the emitted code loads from. -/
lemma unpacked_eq_extract (g : GuestMemory) (base : BitVec 64) (index byteOffset : Word)
    {channel count : ℕ} (hsrc : (p.srcComp channel).toNat < count) :
    p.unpacked (boundDwords g base) index byteOffset channel =
      .extract p.dfmt.toNat p.nfmt.toNat (g.bytes (p.loadAddr base index byteOffset) (count*4))
        (p.srcComp channel).toNat := by
  have hlt := p.srcComp_lt channel
  unfold unpacked
  generalize p.srcComp channel = src at hsrc hlt
  have hfirst : boundDwords g base (p.dwordBase index byteOffset) =
      readLeU32 (g.bytes (p.loadAddr base index byteOffset) (count*4)) 0 := by
    rw [g.readLeU32_bytes _ (by omega)]
    exact congrArg g.word (by simp [loadAddr])
  have hraw : boundDwords g base (p.dwordBase index byteOffset+src) =
      readLeU32 (g.bytes (p.loadAddr base index byteOffset) (count*4)) (src.toNat*4) := by
    rw [g.readLeU32_bytes _ (by omega), p.boundDwords_add g base index byteOffset hlt]
  have hshift : (src >>> 1).toNat = src.toNat/2 := by
    rw [BitVec.toNat_ushiftRight, Nat.shiftRight_eq_div_pow, pow_one]
  have hhalf : boundDwords g base (p.dwordBase index byteOffset+(src >>> 1)) =
      readLeU32 (g.bytes (p.loadAddr base index byteOffset) (count*4)) (src.toNat/2*4) := by
    rw [g.readLeU32_bytes _ (by omega),
      p.boundDwords_add g base index byteOffset (by omega : (src >>> 1).toNat < 4), hshift]
  have hbyte : (src <<< 3).toNat = src.toNat*8 := by
    rw [BitVec.toNat_shiftLeft, Nat.shiftLeft_eq]
    omega
  have hidx : (src &&& 1#32).toNat = src.toNat%2 := by
    rw [BitVec.toNat_and]
    exact Nat.and_one_is_mod _
  have hlane : ((src &&& 1#32) <<< 4).toNat = src.toNat%2*16 := by
    rw [BitVec.toNat_shiftLeft, hidx, Nat.shiftLeft_eq]
    omega
  have hone : src &&& 1#32 = 1 ↔ src.toNat%2 = 1 := by
    rw [← hidx]
    exact RawComponent.word_eq_iff _ (by decide)
  have hwidth (x : Word) : (x &&& 0xffff#32).setWidth 16 = x.setWidth 16 := by
    rw [BitVec.setWidth_and, show (0xffff#32).setWidth 16 = BitVec.allOnes 16 from rfl,
      BitVec.and_allOnes]
  have hfloat (x : Word) : (if src &&& 1#32 = 1 then (x >>> 16).setWidth 16 else x.setWidth 16) =
      ((x >>> (src.toNat%2*16)) &&& 0xffff#32).setWidth 16 := by
    rw [hwidth]
    by_cases hodd : src.toNat%2 = 1
    · rw [if_pos (hone.mpr hodd), hodd, one_mul]
    · have heven : src.toNat%2 = 0 := by omega
      rw [if_neg (mt hone.mp hodd), heven, zero_mul, BitVec.ushiftRight_zero]
  dsimp only
  rw [RawComponent.extract_eq_ite]
  by_cases h8 : p.is8
  · rw [if_pos h8, if_pos (p.is8_iff.mp h8), RawComponent.packedSelect_eq _ _ (by decide), hfirst,
      BitVec.ushiftRight_eq', hbyte]
  rw [if_neg h8, if_neg (mt p.is8_iff.mpr h8)]
  by_cases h16 : p.is16
  · rw [if_pos h16, if_pos (p.is16_iff.mp h16), RawComponent.packedSelect_eq _ _ (by decide),
      hfloat, hhalf, BitVec.ushiftRight_eq', hlane]
  · rw [if_neg h16, if_neg (mt p.is16_iff.mpr h16), p.isPacked_eq, if_neg (by simp [h8, h16]), hraw]

end PushGroup

namespace FetchOp

variable (f : FetchOp)

/-- The `soff_const` of a constant operand. -/
def soffConst : Operand → Option Word
  | .inlineInt i => some (BitVec.ofInt 32 i)
  | .inlineFloat bits => some bits
  | .literal v => some v
  | _ => none

/-- The recompiler accepts an instruction that makes this load. -/
def Accepted (t : DescriptorTables) : Prop :=
  ∃ vdata vaddr srsrc soffset idxen offen off r, soffConst soffset = some f.soff ∧
    t.emitMubuf f.op vdata vaddr srsrc soffset f.offset.toNat idxen offen off = .ok r

/-- The address `exec_mubuf` loads from. -/
def address (v : VSharp) (index : Word) : BitVec 64 :=
  v.fetchAddr (clampRecord v.numRecords (index.setWidth 64)) f.soff f.offset.toNat 0

/-- Component `i` as `exec_mubuf` extracts it. -/
def extracted (g : GuestMemory) (v : VSharp) (index : Word) (i : ℕ) : RawComponent :=
  .extract v.dfmt v.nfmt (g.bytes (f.address v index) (f.count*4)) i

/-- Whatever the buffer holds, wherever it lies and however its channels are swizzled, a channel
unpacks the component of its number that the interpreter extracts. -/
def Unpacks (p : PushGroup) (index : Word) : Prop :=
  ∀ (g : GuestMemory) (base : BitVec 64) (dstSel : Word) (channel : ℕ), channel < f.count →
    let q := { p with dstSel := dstSel }
    (q.srcComp channel).toNat < f.count →
      q.unpacked (boundDwords g base) index f.byteOffset channel =
        f.extracted g (p.vsharp base) index (q.srcComp channel).toNat

/-- Byte offset of the element from the base of its buffer. -/
def byteAt (p : PushGroup) (index : Word) : ℕ :=
  min index.toNat (p.numRecords.toNat-1)*p.stride.toNat+f.soff.toNat+f.offset.toNat

/-- A buffer without records is fetched at its first one, and the element starts at an aligned
offset that 32 bits can hold. -/
structure Addressed (p : PushGroup) (index : Word) : Prop where
  records : p.numRecords = 0 → index = 0 ∨ p.stride = 0
  narrow : f.byteAt p index < 2^32
  aligned : 4 ∣ f.byteAt p index

lemma clampIndex_toNat_eq (index nr : Word) :
    (PushGroup.clampIndex index nr).toNat = min index.toNat (nr.toNat-1) := by
  unfold PushGroup.clampIndex
  by_cases hnr : nr = 0
  · subst hnr
    simp
  have hpos : 0 < nr.toNat := Nat.pos_of_ne_zero fun h => hnr (BitVec.eq_of_toNat_eq h)
  have hlast : (nr-1).toNat = nr.toNat-1 := BitVec.toNat_sub_of_le (BitVec.le_def.mpr hpos)
  rw [if_neg hnr]
  by_cases hlt : index < nr
  · rw [if_pos hlt]
    have hlt' := BitVec.lt_def.mp hlt
    omega
  · rw [if_neg hlt, hlast]
    have hle := BitVec.not_lt.mp hlt
    rw [BitVec.le_def] at hle
    omega

lemma clampRecord_toNat_eq (index nr : Word) :
    (clampRecord (nr.setWidth 64) (index.setWidth 64)).toNat =
      if nr = 0 then index.toNat else min index.toNat (nr.toNat-1) := by
  have hindex : (index.setWidth 64).toNat = index.toNat := BitVec.toNat_setWidth_of_le (by decide)
  have hwide : (nr.setWidth 64).toNat = nr.toNat := BitVec.toNat_setWidth_of_le (by decide)
  have hzero : nr.setWidth 64 = 0 ↔ nr = 0 := by
    rw [← BitVec.toNat_inj, hwide, ← BitVec.toNat_inj]
    rfl
  unfold clampRecord
  by_cases hnr : nr = 0
  · rw [if_pos hnr, if_neg fun h => h.1 (hzero.mpr hnr), hindex]
  have hpos : 0 < nr.toNat := Nat.pos_of_ne_zero fun h => hnr (BitVec.eq_of_toNat_eq h)
  have hlast : (nr.setWidth 64-1).toNat = nr.toNat-1 := by
    rw [BitVec.toNat_sub_of_le (BitVec.le_def.mpr (by rw [hwide]; exact hpos)), hwide]
    rfl
  simp only [if_neg hnr, BitVec.le_def, hindex, hwide]
  split_ifs with h
  · rw [hlast]
    omega
  · have hlt : ¬nr.toNat ≤ index.toNat := fun hle => h ⟨mt hzero.mp hnr,hle⟩
    rw [hindex]
    omega

lemma clampRecord_zero (nr : BitVec 64) : clampRecord nr 0 = 0 := by
  unfold clampRecord
  split_ifs with h
  · exact absurd (BitVec.le_zero_iff.mp h.2) h.1
  · rfl

/-- The offset the emitted code rounds down to a dword. -/
lemma dwordBase_toNat_eq (p : PushGroup) (index : Word) :
    (p.dwordBase index f.byteOffset).toNat = f.byteAt p index%2^32/4 := by
  have hoff : (f.offset.setWidth 32).toNat = f.offset.toNat := BitVec.toNat_setWidth_of_le (by decide)
  simp only [PushGroup.dwordBase, byteOffset, byteAt, BitVec.toNat_udiv, BitVec.toNat_add,
    BitVec.toNat_mul, clampIndex_toNat_eq, hoff]
  rw [← Nat.add_mod, ← add_assoc]
  rfl

/-- The offset the interpreter adds to the base, which 64 bits hold. -/
lemma address_eq (p : PushGroup) (base : BitVec 64) (index : Word) :
    f.address (p.vsharp base) index = base+BitVec.ofNat 64
      ((clampRecord (p.numRecords.setWidth 64) (index.setWidth 64)).toNat*p.stride.toNat+
        f.soff.toNat+f.offset.toNat) := by
  simp only [address, VSharp.fetchAddr, PushGroup.vsharp, BitVec.ofNat_add, BitVec.ofNat_mul,
    BitVec.ofNat_toNat, BitVec.setWidth_eq, add_zero, add_assoc]

/-- The two addresses are the same exactly when the fetch is addressed in 32 bits. -/
lemma loadAddr_eq_iff (p : PushGroup) (base : BitVec 64) (index : Word) :
    p.loadAddr base index f.byteOffset = f.address (p.vsharp base) index ↔ f.Addressed p index := by
  have hdword := f.dwordBase_toNat_eq p index
  have hfour : (4 : BitVec 64).toNat = 4 := rfl
  rw [address_eq, PushGroup.loadAddr, add_right_inj, ← BitVec.toNat_inj, BitVec.toNat_mul,
    BitVec.toNat_setWidth, BitVec.toNat_ofNat, hdword, hfour, clampRecord_toNat_eq]
  have hrecords : f.Addressed p index ↔ (p.numRecords = 0 → index = 0 ∨ p.stride = 0) ∧
      f.byteAt p index < 2^32 ∧ 4 ∣ f.byteAt p index :=
    ⟨fun h => ⟨h.records,h.narrow,h.aligned⟩,fun ⟨h₁,h₂,h₃⟩ => ⟨h₁,h₂,h₃⟩⟩
  have hprod : index.toNat*p.stride.toNat ≤ (2^32-1)*(2^32-1) := Nat.mul_le_mul (by omega) (by omega)
  have hproduct : index.toNat*p.stride.toNat = 0 ↔ index = 0 ∨ p.stride = 0 := by
    rw [Nat.mul_eq_zero, ← BitVec.toNat_inj, ← BitVec.toNat_inj]
    rfl
  have hs := f.soff.isLt
  have ho := f.offset.isLt
  rw [hrecords, ← hproduct]
  unfold byteAt
  split_ifs with hnr
  · have hmin : min index.toNat (p.numRecords.toNat-1) = 0 := by simp [hnr]
    rw [hmin, zero_mul]
    generalize index.toNat*p.stride.toNat = x at hprod
    simp only [hnr, forall_const]
    omega
  · have hle : min index.toNat (p.numRecords.toNat-1)*p.stride.toNat ≤ index.toNat*p.stride.toNat :=
      Nat.mul_le_mul_right _ (min_le_left _ _)
    simp only [hnr, false_imp_iff, true_and]
    omega

/-- The swizzle that passes every channel through. -/
def identitySwizzle : Word := 0xfac#32

lemma selector_identity {p : PushGroup} (hp : p.dstSel = identitySwizzle) {channel : ℕ}
    (h : channel < 4) : p.selector channel = BitVec.ofNat 32 (4+channel) := by
  unfold PushGroup.selector
  rw [hp]
  interval_cases channel <;> rfl

lemma srcComp_identity {p : PushGroup} (hp : p.dstSel = identitySwizzle) {channel : ℕ}
    (h : channel < 4) : (p.srcComp channel).toNat = channel := by
  unfold PushGroup.srcComp
  rw [hp]
  interval_cases channel <;> rfl

lemma Accepted.count_pos {f : FetchOp} {t : DescriptorTables} (h : f.Accepted t) : 0 < f.count := by
  obtain ⟨vdata,vaddr,srsrc,soffset,idxen,offen,off,r,-,h⟩ := h
  unfold DescriptorTables.emitMubuf at h
  unfold count
  cases hop : f.op with
  | other code =>
    rw [hop] at h
    cases h
  | _ => decide

/-- The recompiled fetch unpacks what the interpreter extracts exactly when the element is
addressed in 32 bits, or the format is an 8-bit float, which both sides make a zero. -/
theorem unpacks_iff {f : FetchOp} {t : DescriptorTables} (h : f.Accepted t) (p : PushGroup)
    (index : Word) : f.Unpacks p index ↔ f.Addressed p index ∨ p.is8 ∧ p.nfmt = 7 := by
  have hnfmt : p.nfmt = 7 ↔ p.nfmt.toNat = 7 := RawComponent.word_eq_iff p.nfmt (by decide)
  constructor
  · intro hunpacks
    by_contra hnot
    rw [not_or] at hnot
    -- a byte that stands out where the interpreter reads tells the two addresses apart
    have hne : p.loadAddr 0 index f.byteOffset ≠ f.address (p.vsharp 0) index :=
      mt (f.loadAddr_eq_iff p 0 index).mp hnot.1
    have hzero : ¬((p.dfmt.toNat = 1 ∨ p.dfmt.toNat = 3 ∨ p.dfmt.toNat = 10) ∧ p.nfmt.toNat = 7) := by
      rw [← p.is8_iff, ← hnfmt]
      exact hnot.2
    let g := markedMemory (f.address (p.vsharp 0) index)
    have hsrc : (PushGroup.srcComp { p with dstSel := identitySwizzle } 0).toNat = 0 :=
      srcComp_identity rfl (by decide)
    have hcount : (PushGroup.srcComp { p with dstSel := identitySwizzle } 0).toNat < f.count := by
      rw [hsrc]
      exact h.count_pos
    have heq := hunpacks g 0 identitySwizzle 0 h.count_pos hcount
    rw [PushGroup.unpacked_eq_extract _ g 0 index f.byteOffset hcount, hsrc] at heq
    have hlow := congrArg RawComponent.lowByte heq
    have hload := RawComponent.lowByte_extract g (p.loadAddr 0 index f.byteOffset) h.count_pos hzero
    have hread := RawComponent.lowByte_extract g (f.address (p.vsharp 0) index) h.count_pos hzero
    have hbytes := (hload.symm.trans hlow).trans hread
    have hsame : p.loadAddr 0 index f.byteOffset = f.address (p.vsharp 0) index := by
      simpa [g, markedMemory] using hbytes
    exact hne hsame
  · rintro (haddr | ⟨h8,h7⟩) g base dstSel channel hchannel q hsrc
    · have hload := (f.loadAddr_eq_iff p base index).mpr haddr
      rw [PushGroup.unpacked_eq_extract q g base index f.byteOffset hsrc]
      exact congrArg (fun a => RawComponent.extract p.dfmt.toNat p.nfmt.toNat
        (g.bytes a (f.count*4)) (q.srcComp channel).toNat) hload
    · rw [PushGroup.unpacked_eq_extract q g base index f.byteOffset hsrc]
      have hzero (bytes : List (BitVec 8)) (i : ℕ) :
          RawComponent.extract p.dfmt.toNat p.nfmt.toNat bytes i = .zero := by
        rw [RawComponent.extract_eq_ite, if_pos (p.is8_iff.mp h8), hnfmt.mp h7]
        rfl
      exact (hzero _ _).trans (hzero _ _).symm

/-- An accepted load of an empty buffer: the emitted code fetches the first record, the
interpreter the one the index names. -/
theorem not_unpacks_empty :
    let f : FetchOp := ⟨.bufferLoadFormatX,0,0⟩
    let p : PushGroup := ⟨0,16,identitySwizzle,0x704⟩
    f.Accepted { DescriptorTables.new .vertex with vsharpSgprs := fun _ => some (2,0) } ∧
      ¬f.Unpacks p 1 := by
  refine ⟨⟨.vgpr 4,.vgpr 0,8,.inlineInt 0,true,false,0,_,rfl,rfl⟩,fun h => ?_⟩
  have hfirst := h (markedMemory 0) 0 identitySwizzle 0 (by decide) (by decide)
  exact absurd hfirst (by decide)

/-- The second record of a stream of floats, read from its third component on. -/
theorem unpacks_second :
    (⟨.bufferLoadFormatXy,0,8⟩ : FetchOp).Unpacks ⟨4,16,identitySwizzle,0x70b⟩ 1 :=
  (unpacks_iff (t := { DescriptorTables.new .vertex with vsharpSgprs := fun _ => some (2,0) })
    ⟨.vgpr 4,.vgpr 0,8,.inlineInt 0,true,false,0,_,rfl,rfl⟩ _ _).mpr
      (.inl ⟨by decide,by decide,by decide⟩)

/-- A lane of an accepted load writes the components it extracts, scaled. -/
theorem execMubuf_extracted {E : Env} {g : GuestMemory} (hmem : E.mem = g.view) {v : VSharp}
    {index : Word} {w : Wave} {vdata vaddr soffset : Operand} {srsrc off : ℕ} {idxen : Bool}
    {lane : Lane} {op : LaneOp} {writes : List LaneWrite}
    (hrun : execMubuf E f.op vdata vaddr srsrc soffset f.offset.toNat idxen false off w = .ok op)
    (hlive : op.live w lane = .ok writes) (hv : w.decodeVSharp srsrc off = .ok v)
    (hs : soffConst soffset = some f.soff)
    (hi : (if idxen then w.readSrcLane vaddr lane off else .ok 0) = .ok index) :
    ∃ vdata0, vdata = .vgpr vdata0 ∧ writes = (List.range f.count).map fun i =>
      .vgpr (vdata0+i) ((f.extracted g v index i).value E.floats) := by
  have hsoff : mubufSoffset w soffset off = .ok f.soff := by
    cases soffset with
    | inlineInt i => exact congrArg Except.ok (Option.some.inj hs)
    | inlineFloat bits => exact congrArg Except.ok (Option.some.inj hs)
    | literal x => exact congrArg Except.ok (Option.some.inj hs)
    | _ => cases hs
  have hindex : w.fetchIndex vaddr idxen v.numRecords lane off =
      .ok (clampRecord v.numRecords (index.setWidth 64)) := by
    cases idxen with
    | true =>
      simp only [if_true] at hi
      simp only [Wave.fetchIndex, if_true, hi]
      rfl
    | false =>
      obtain rfl : 0 = index := Except.ok.inj hi
      exact congrArg Except.ok (clampRecord_zero v.numRecords).symm
  unfold execMubuf at hrun
  unfold count
  cases hop : f.op.vdataCount with
  | none =>
    rw [hop] at hrun
    cases hrun
  | some n =>
    rw [hop] at hrun
    obtain ⟨soff,hsoff',hrun⟩ := bind_eq_ok.mp hrun
    obtain rfl : f.soff = soff := Except.ok.inj (hsoff.symm.trans hsoff')
    obtain ⟨v',hv',hrun⟩ := bind_eq_ok.mp hrun
    obtain rfl := Except.ok.inj (hv.symm.trans hv')
    obtain ⟨vdata0,hvdata,hrun⟩ := bind_eq_ok.mp hrun
    obtain ⟨reg,hreg,hrun⟩ := bind_eq_ok.mp hrun
    obtain rfl : none = reg := Except.ok.inj hreg
    obtain rfl := Except.ok.inj hrun
    obtain ⟨index',hindex',hlive⟩ := bind_eq_ok.mp hlive
    obtain rfl := Except.ok.inj (hindex.symm.trans hindex')
    obtain ⟨voffset,hoffset,hlive⟩ := bind_eq_ok.mp hlive
    obtain rfl : 0 = voffset := Except.ok.inj hoffset
    obtain ⟨bytes,hbytes,hlive⟩ := bind_eq_ok.mp hlive
    obtain rfl := Except.ok.inj hlive
    rw [hmem] at hbytes
    obtain rfl := g.load_view hbytes
    refine ⟨vdata0,?_,?_⟩
    · unfold vectorReg at hvdata
      split at hvdata
      · rw [Except.ok.inj hvdata]
      · cases hvdata
    · simp only [extracted, RawComponent.value_extract, count, hop, address]
      rfl

/-- What a channel of the recompiled fetch writes under the identity swizzle is the word the
interpreter stores. -/
theorem fetchBufferComponent_eq_value {F : FloatOps}
    (hmax : ∀ x, F.max F32.negOne x = F.max x F32.negOne) {p : PushGroup} {index : Word}
    (h : f.Unpacks p index) (hp : p.dstSel = identitySwizzle) (g : GuestMemory) (base : BitVec 64)
    {channel : ℕ} (hchannel : channel < f.count) :
    p.fetchBufferComponent F (boundDwords g base) index f.byteOffset channel =
      (f.extracted g (p.vsharp base) index channel).value F := by
  have hlt : channel < 4 := lt_of_lt_of_le hchannel f.count_le
  have hsel := selector_identity hp hlt
  have hsrc := srcComp_identity hp hlt
  have hzero : p.selector channel ≠ 0 := by
    rw [hsel]
    interval_cases channel <;> decide
  have hone : p.selector channel ≠ 1 := by
    rw [hsel]
    interval_cases channel <;> decide
  have hunpacked := h g base p.dstSel channel hchannel (by rw [hsrc]; exact hchannel)
  rw [p.fetchBufferComponent_eq, if_neg hzero, if_neg hone, RawComponent.emitted_eq_value hmax,
    hunpacked, hsrc]

end FetchOp

end Unemups4.Gnm

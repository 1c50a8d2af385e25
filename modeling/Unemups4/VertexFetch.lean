import Unemups4.Interp
import Unemups4.Submit

/-! A vertex fetch end to end: the span that is uploaded for a V#, the push constants a draw
sends for its stream, the dwords the recompiled fetch loads under them, and the guest bytes
the interpreter reads. -/
namespace Unemups4.Gnm
open Gcn Fallible

/-- Bytes of one element; zero for a format without a size. -/
def elementSize (dfmt : ℕ) : ℕ :=
  match dfmt with
  | 1 => 1
  | 2 | 3 => 2
  | 4 | 5 | 10 => 4
  | 11 | 12 => 8
  | 13 => 12
  | 14 => 16
  | _ => 0

structure BufferDesc where
  base : ℕ
  stride : ℕ
  numRecords : ℕ
  dfmt : ℕ
  nfmt : ℕ
  dstSel : Vector (BitVec 32) 4
  deriving DecidableEq

/-- The four dwords of a V#. -/
structure VWords where
  w0 : BitVec 32
  w1 : BitVec 32
  w2 : BitVec 32
  w3 : BitVec 32
  deriving DecidableEq, Repr

def decodeVSharp (w : VWords) : BufferDesc where
  base := (w.w0.setWidth 64 ||| ((w.w1 &&& 0xffff#32).setWidth 64 <<< 32)).toNat
  stride := ((w.w1 >>> 16) &&& 0x3fff#32).toNat
  numRecords := w.w2.toNat
  dfmt := ((w.w3 >>> 15) &&& 0xf#32).toNat
  nfmt := ((w.w3 >>> 12) &&& 0x7#32).toNat
  dstSel := #v[w.w3 &&& 7#32,(w.w3 >>> 3) &&& 7#32,(w.w3 >>> 6) &&& 7#32,(w.w3 >>> 9) &&& 7#32]

namespace BufferDesc

variable (d : BufferDesc)

def byteSpan : ℕ := saturatingMul (if d.stride ≠ 0 then d.stride else elementSize d.dfmt) d.numRecords

def isNull : Bool := d.base = 0 ∨ d.dfmt = 0 ∨ d.byteSpan = 0

def packedDstSel : BitVec 32 :=
  (d.dstSel[0] &&& 7#32) ||| ((d.dstSel[1] &&& 7#32) <<< 3) ||| ((d.dstSel[2] &&& 7#32) <<< 6) |||
    ((d.dstSel[3] &&& 7#32) <<< 9)

def packedFormat : BitVec 32 := BitVec.ofNat 32 d.dfmt ||| (BitVec.ofNat 32 d.nfmt <<< 8)

/-- The range of a resolved vertex slot. -/
def vertexRange : BufferRange where
  addr := d.base
  size := d.byteSpan
  stride := d.stride
  numRecords := d.numRecords
  dstSel := d.packedDstSel.toNat
  format := d.packedFormat.toNat

end BufferDesc

/-- The push-constant group of one vertex stream. -/
structure PushGroup where
  numRecords : BitVec 32
  stride : BitVec 32
  dstSel : BitVec 32
  format : BitVec 32
  deriving DecidableEq, Repr

/-- `VB_ELEMENT_STRIDE`, the stride every recompiled vertex stream declares. -/
def vbElementStride : ℕ := 16

/-- The stride a draw sends for a stream. -/
def vbStride (stride strideBytes : ℕ) : ℕ := if stride ≠ 0 then stride else strideBytes

/-- The group a draw fills from a stream's range. -/
def pushGroup (range : BufferRange) (strideBytes : ℕ) : PushGroup where
  numRecords := BitVec.ofNat 32 range.numRecords
  stride := BitVec.ofNat 32 (vbStride range.stride strideBytes)
  dstSel := BitVec.ofNat 32 range.dstSel
  format := BitVec.ofNat 32 range.format

/-- The group the backend pushes for a storage bind. -/
def BackendCmd.pushed : BackendCmd → Option PushGroup
  | .bindStorageBuffer _ _ numRecords stride dstSel format _ =>
      some ⟨BitVec.ofNat 32 numRecords,BitVec.ofNat 32 stride,BitVec.ofNat 32 dstSel,
        BitVec.ofNat 32 format⟩
  | _ => none

/-- The draw path sends exactly the group of the stream's range. -/
theorem Exec.bindStorage_pushed {e e' : Exec} {now stream : ℕ} {binding : BufferBinding}
    {range : BufferRange} (h : e.bindStorage now (stream,binding,range) = some e') :
    ∃ cmd, e'.cmds.getLast? = some cmd ∧
      cmd.pushed = some (pushGroup range binding.strideBytes) := by
  simp only [bindStorage, Option.map_eq_some_iff] at h
  obtain ⟨⟨id,e₁⟩,-,rfl⟩ := h
  exact ⟨_,List.getLast?_concat,rfl⟩

namespace PushGroup

variable (p : PushGroup)

def dfmt : BitVec 32 := p.format &&& 0xff#32

def isPacked : Bool :=
  p.dfmt = 1 ∨ p.dfmt = 3 ∨ p.dfmt = 10 ∨ p.dfmt = 2 ∨ p.dfmt = 5 ∨ p.dfmt = 12

def clampIndex (index nr : BitVec 32) : BitVec 32 :=
  if nr = 0 then 0 else if index < nr then index else nr-1

/-- The component the stream's swizzle selects for a channel. -/
def srcComp (channel : ℕ) : BitVec 32 :=
  let sel := (p.dstSel >>> (channel*3)) &&& 7#32
  if 4#32 ≤ sel then sel-4 else 0

def dwordBase (index byteOffset : BitVec 32) : BitVec 32 :=
  (clampIndex index p.numRecords*p.stride+byteOffset)/4

/-- The dwords of the bound buffer that one channel loads: the raw one, the one of the 8-bit
formats and the one of the 16-bit formats, all loaded before the format selects. -/
def channelLoads (index byteOffset : BitVec 32) (channel : ℕ) : List (BitVec 32) :=
  let base := p.dwordBase index byteOffset
  [if p.isPacked then base else base+p.srcComp channel,base,base+(p.srcComp channel >>> 1)]

/-- How many dwords past its base a channel reads. -/
def reach (channel : ℕ) : ℕ :=
  if p.isPacked then (p.srcComp channel).toNat/2 else (p.srcComp channel).toNat

end PushGroup

/-- A buffer load as the two sides share it: its opcode, its scalar offset and its
immediate. -/
structure FetchOp where
  op : MubufOp
  soff : BitVec 32
  offset : BitVec 16
  deriving DecidableEq, Repr

namespace FetchOp

variable (f : FetchOp)

def count : ℕ := f.op.vdataCount.getD 0

def byteOffset : BitVec 32 := f.soff+f.offset.setWidth 32

/-- The group of a stream whose slot resolved to this V#. -/
def group (w : VWords) : PushGroup := pushGroup (decodeVSharp w).vertexRange vbElementStride

/-- The address the interpreter reads the `4 * count` bytes of a fetch from. -/
def guestAddr (w : VWords) (index : BitVec 32) : BitVec 64 :=
  let v := VSharp.ofWords w.w0 w.w1 w.w2 w.w3
  v.fetchAddr (clampRecord v.numRecords (index.setWidth 64)) f.soff f.offset.toNat 0

/-- Every byte a recompiled fetch loads lies in the uploaded range and is one of the guest
bytes the interpreter reads. -/
def Agrees (w : VWords) (index : BitVec 32) : Prop :=
  ∀ channel < f.count, ∀ j ∈ (group w).channelLoads index f.byteOffset channel, ∀ b < 4,
    j.toNat*4+b < (decodeVSharp w).byteSpan ∧
      (f.guestAddr w index).toNat ≤ (decodeVSharp w).base+j.toNat*4+b ∧
      (decodeVSharp w).base+j.toNat*4+b < (f.guestAddr w index).toNat+f.count*4

/-- The record both sides fetch. -/
def record (w : VWords) (index : BitVec 32) : ℕ :=
  if index.toNat < (decodeVSharp w).numRecords then index.toNat else (decodeVSharp w).numRecords-1

/-- Byte offset of the fetched element from the base of its V#. -/
def elementOffset (w : VWords) (index : BitVec 32) : ℕ :=
  record w index*(decodeVSharp w).stride+f.soff.toNat+f.offset.toNat

/-- The element starts at an aligned offset the shader's 32-bit arithmetic can hold, every
selected component is one the opcode fetches, the last dword is inside the span, and a
V# without a stride is read at its first record (the default stride vanishes modulo `2 ^ 32`
at the multiples of `2 ^ 28`). -/
def Fits (w : VWords) (index : BitVec 32) : Prop :=
  ∀ channel < f.count,
    ((decodeVSharp w).stride = 0 → 2^28 ∣ record w index) ∧
      f.elementOffset w index < 2^32 ∧ 4 ∣ f.elementOffset w index ∧
      (group w).reach channel < f.count ∧
      f.elementOffset w index+(group w).reach channel*4+4 ≤ (decodeVSharp w).byteSpan

/-- The two decoders read the same fields. -/
lemma ofWords_base (w : VWords) :
    (VSharp.ofWords w.w0 w.w1 w.w2 w.w3).base.toNat = (decodeVSharp w).base := rfl

lemma ofWords_stride (w : VWords) :
    (VSharp.ofWords w.w0 w.w1 w.w2 w.w3).stride.toNat = (decodeVSharp w).stride :=
  BitVec.toNat_setWidth_of_le (by omega)

lemma ofWords_numRecords (w : VWords) :
    (VSharp.ofWords w.w0 w.w1 w.w2 w.w3).numRecords.toNat = (decodeVSharp w).numRecords :=
  BitVec.toNat_setWidth_of_le (by omega)

lemma base_lt (w : VWords) : (decodeVSharp w).base < 2^48 := by
  have hlo : w.w0.toNat < 2^48 := by omega
  have hhi : (w.w1 &&& 0xffff#32).toNat < 2^16 := by
    rw [BitVec.toNat_and]
    exact lt_of_le_of_lt Nat.and_le_right (by decide)
  have hshift : (w.w1 &&& 0xffff#32).toNat <<< 32 < 2^48 := by
    rw [Nat.shiftLeft_eq]
    omega
  have hmod : (w.w1 &&& 0xffff#32).toNat <<< 32 % 2^64 = (w.w1 &&& 0xffff#32).toNat <<< 32 :=
    Nat.mod_eq_of_lt (by omega)
  have hbase : (decodeVSharp w).base = w.w0.toNat ||| (w.w1 &&& 0xffff#32).toNat <<< 32 := by
    simp only [decodeVSharp, BitVec.toNat_or, BitVec.toNat_shiftLeft]
    rw [BitVec.toNat_setWidth_of_le (by omega), BitVec.toNat_setWidth_of_le (by omega), hmod]
  rw [hbase]
  exact Nat.or_lt_two_pow hlo hshift

lemma stride_lt (w : VWords) : (decodeVSharp w).stride < 2^14 := by
  simp only [decodeVSharp, BitVec.toNat_and]
  exact lt_of_le_of_lt Nat.and_le_right (by decide)

lemma numRecords_lt (w : VWords) : (decodeVSharp w).numRecords < 2^32 := w.w2.isLt

lemma group_numRecords (w : VWords) : (group w).numRecords = w.w2 := BitVec.ofNat_toNat 32 w.w2

lemma group_stride (w : VWords) :
    (group w).stride.toNat = vbStride (decodeVSharp w).stride vbElementStride := by
  have hlt := stride_lt w
  have hpush : vbStride (decodeVSharp w).stride vbElementStride < 2^32 := by
    unfold vbStride vbElementStride
    split <;> omega
  exact (BitVec.toNat_ofNat _ _).trans (Nat.mod_eq_of_lt hpush)

lemma record_lt (w : VWords) (index : BitVec 32) : record w index < 2^32 := by
  have hlt := numRecords_lt w
  unfold record
  split <;> omega

lemma clampIndex_toNat {w : VWords} (hn : (decodeVSharp w).numRecords ≠ 0) (index : BitVec 32) :
    (PushGroup.clampIndex index w.w2).toNat = record w index := by
  have hzero : w.w2 ≠ 0 := fun h => hn (congrArg BitVec.toNat h)
  have hone : (1#32).toNat ≤ w.w2.toNat := Nat.one_le_iff_ne_zero.mpr hn
  have hlast : (w.w2-1).toNat = w.w2.toNat-1 := BitVec.toNat_sub_of_le hone
  have hiff : index < w.w2 ↔ index.toNat < (decodeVSharp w).numRecords := BitVec.lt_def
  unfold PushGroup.clampIndex record
  rw [if_neg hzero]
  by_cases hlt : index < w.w2
  · rw [if_pos hlt, if_pos (hiff.mp hlt)]
  · rw [if_neg hlt, if_neg fun h => hlt (hiff.mpr h)]
    exact hlast

lemma clampRecord_toNat {w : VWords} (hn : (decodeVSharp w).numRecords ≠ 0) (index : BitVec 32) :
    (clampRecord (VSharp.ofWords w.w0 w.w1 w.w2 w.w3).numRecords (index.setWidth 64)).toNat =
      record w index := by
  have hnr := ofWords_numRecords w
  have hindex : (index.setWidth 64).toNat = index.toNat := BitVec.toNat_setWidth_of_le (by omega)
  generalize (VSharp.ofWords w.w0 w.w1 w.w2 w.w3).numRecords = nr at hnr
  have hzero : nr ≠ 0 := by
    rintro rfl
    exact hn hnr.symm
  have hone : (1#64).toNat ≤ nr.toNat := by
    rw [hnr]
    exact Nat.one_le_iff_ne_zero.mpr hn
  have hlast : (nr-1).toNat = nr.toNat-1 := BitVec.toNat_sub_of_le hone
  simp only [clampRecord, record, ne_eq, hzero, not_false_eq_true, true_and, BitVec.le_def, hnr,
    hindex, ← not_lt]
  split_ifs
  · exact hindex
  · rw [hlast, hnr]

lemma guestAddr_toNat (f : FetchOp) {w : VWords} (hn : (decodeVSharp w).numRecords ≠ 0)
    (index : BitVec 32) :
    (f.guestAddr w index).toNat = (decodeVSharp w).base+f.elementOffset w index := by
  have hbase := base_lt w
  have hrec := record_lt w index
  have hmul : record w index*(decodeVSharp w).stride < 2^46 :=
    calc record w index*(decodeVSharp w).stride < 2^32*2^14 :=
          Nat.mul_lt_mul'' hrec (stride_lt w)
      _ = 2^46 := by norm_num
  have hsoff : (f.soff.setWidth 64).toNat = f.soff.toNat := BitVec.toNat_setWidth_of_le (by omega)
  have hoff : (BitVec.ofNat 64 f.offset.toNat).toNat = f.offset.toNat := by
    rw [BitVec.toNat_ofNat]
    omega
  simp only [guestAddr, VSharp.fetchAddr, BitVec.toNat_add, BitVec.toNat_mul, ofWords_base,
    ofWords_stride, clampRecord_toNat hn, hsoff, hoff, elementOffset]
  have hs := f.soff.isLt
  have ho := f.offset.isLt
  have hzero : (0 : BitVec 64).toNat = 0 := rfl
  rw [Nat.mod_eq_of_lt (show record w index*(decodeVSharp w).stride < 2^64 by omega), hzero]
  omega

/-- The dword a recompiled fetch starts at. -/
lemma dwordBase_toNat (f : FetchOp) {w : VWords} (hn : (decodeVSharp w).numRecords ≠ 0)
    (index : BitVec 32) :
    ((group w).dwordBase index f.byteOffset).toNat =
      (record w index*vbStride (decodeVSharp w).stride vbElementStride+f.soff.toNat+
        f.offset.toNat)%2^32/4 := by
  have hoff : (f.offset.setWidth 32).toNat = f.offset.toNat := BitVec.toNat_setWidth_of_le (by omega)
  simp only [PushGroup.dwordBase, byteOffset, BitVec.toNat_udiv, BitVec.toNat_add, BitVec.toNat_mul,
    group_numRecords, group_stride, clampIndex_toNat hn, hoff]
  rw [← Nat.add_mod, ← add_assoc]
  rfl

end FetchOp

namespace PushGroup

lemma srcComp_lt (p : PushGroup) (channel : ℕ) : (p.srcComp channel).toNat < 4 := by
  have hsel : ((p.dstSel >>> (channel*3)) &&& 7#32).toNat ≤ 7 := by
    rw [BitVec.toNat_and]
    exact Nat.and_le_right
  unfold srcComp
  generalize (p.dstSel >>> (channel*3)) &&& 7#32 = sel at hsel
  dsimp only
  split_ifs with h
  · have hsub : (sel-4).toNat = sel.toNat-4 := BitVec.toNat_sub_of_le h
    omega
  · decide

lemma dwordBase_lt (p : PushGroup) (index byteOffset : BitVec 32) :
    (p.dwordBase index byteOffset).toNat < 2^30 := by
  unfold dwordBase
  have hfour : (4 : BitVec 32).toNat = 4 := rfl
  have h := (clampIndex index p.numRecords*p.stride+byteOffset).isLt
  rw [BitVec.toNat_udiv, hfour]
  omega

/-- The loads of a channel run from its base to its reach, and both ends are loaded. -/
lemma forall_channelLoads (p : PushGroup) (index byteOffset : BitVec 32) (channel : ℕ)
    (P : ℕ → Prop) (hP : ∀ i j k, i ≤ j → j ≤ k → P i → P k → P j) :
    (∀ j ∈ p.channelLoads index byteOffset channel, P j.toNat) ↔
      P (p.dwordBase index byteOffset).toNat ∧
        P ((p.dwordBase index byteOffset).toNat+p.reach channel) := by
  have hbase := p.dwordBase_lt index byteOffset
  have hsrc := p.srcComp_lt channel
  generalize hk : p.srcComp channel = k at hsrc
  generalize hb : p.dwordBase index byteOffset = b at hbase
  have hraw : (b+k).toNat = b.toNat+k.toNat := BitVec.toNat_add_of_lt (by omega)
  have hshift : (k >>> 1).toNat = k.toNat/2 := by
    rw [BitVec.toNat_ushiftRight, Nat.shiftRight_eq_div_pow, pow_one]
  have hhalf : (b+(k >>> 1)).toNat = b.toNat+k.toNat/2 := by
    rw [BitVec.toNat_add_of_lt (by omega), hshift]
  simp only [channelLoads, reach, hk, hb, List.forall_mem_cons, List.not_mem_nil, false_imp_iff,
    implies_true, and_true, hhalf]
  cases p.isPacked with
  | true => simp
  | false =>
    simp only [Bool.false_eq_true, if_false, hraw]
    constructor
    · exact fun h => ⟨h.2.1,h.1⟩
    · exact fun h => ⟨h.2,h.1,hP b.toNat _ (b.toNat+k.toNat) (by omega) (by omega) h.1 h.2⟩

end PushGroup

namespace FetchOp

lemma count_le (f : FetchOp) : f.count ≤ 4 := by
  unfold count
  cases f.op with
  | other => exact Nat.zero_le 4
  | _ => decide

/-- Loads from `W / 4` on stay inside `[D, D + 4 * count)` only when `W` is `D` itself. -/
lemma base_eq_of_within {W D count reach idx stride rest : ℕ}
    (hW : W = (idx*vbStride stride vbElementStride+rest)%2^32) (hD : D = idx*stride+rest)
    (hcount : count ≤ 4) (hlo : D ≤ W/4*4) (hhi : (W/4+reach)*4+3 < D+count*4) :
    W = D ∧ (stride = 0 → 2^28 ∣ idx) := by
  unfold vbStride vbElementStride at hW
  split_ifs at hW with hs
  · have hle : W ≤ D := by
      rw [hW, hD]
      exact Nat.mod_le _ _
    exact ⟨by omega,fun h => absurd h hs⟩
  · rw [not_not] at hs
    subst hs
    omega

/-- The converse: nothing of the offset is lost to the 32-bit arithmetic of the shader. -/
lemma base_eq_of_fits {D idx stride rest : ℕ} (hD : D = idx*stride+rest) (hlt : D < 2^32)
    (hzero : stride = 0 → 2^28 ∣ idx) :
    (idx*vbStride stride vbElementStride+rest)%2^32 = D := by
  unfold vbStride vbElementStride
  split_ifs with hs
  · rw [← hD]
    exact Nat.mod_eq_of_lt hlt
  · rw [not_not] at hs
    subst hs
    have hdvd := hzero rfl
    omega

/-- The dwords of a recompiled fetch lie in the uploaded span and among the bytes the
interpreter reads exactly when the fetch fits. -/
theorem agrees_iff_fits (f : FetchOp) (w : VWords) (index : BitVec 32) :
    f.Agrees w index ↔ f.Fits w index := by
  unfold Agrees Fits
  refine forall₂_congr fun channel hch => ?_
  by_cases hn : (decodeVSharp w).numRecords = 0
  · have hspan : (decodeVSharp w).byteSpan = 0 := by simp [BufferDesc.byteSpan, saturatingMul, hn]
    have hload : (group w).dwordBase index f.byteOffset ∈
        (group w).channelLoads index f.byteOffset channel := by simp [PushGroup.channelLoads]
    constructor
    · intro h
      have hbound := (h _ hload 0 (by decide)).1
      omega
    · intro h
      omega
  have haddr := f.guestAddr_toNat hn index
  have hbase := f.dwordBase_toNat hn index
  have hcount := f.count_le
  rw [PushGroup.forall_channelLoads _ _ _ _ (fun j => ∀ b < 4,
    j*4+b < (decodeVSharp w).byteSpan ∧ (f.guestAddr w index).toNat ≤ (decodeVSharp w).base+j*4+b ∧
      (decodeVSharp w).base+j*4+b < (f.guestAddr w index).toNat+f.count*4)]
  · rw [haddr, hbase]
    have hD : f.elementOffset w index =
        record w index*(decodeVSharp w).stride+(f.soff.toNat+f.offset.toNat) := add_assoc _ _ _
    rw [add_assoc (record w index*vbStride _ _)]
    generalize hW : (record w index*vbStride (decodeVSharp w).stride vbElementStride+
      (f.soff.toNat+f.offset.toNat))%2^32 = W
    constructor
    · rintro ⟨hfirst,hlast⟩
      have hlo : f.elementOffset w index ≤ W/4*4 := by
        have h := (hfirst 0 (by decide)).2.1
        omega
      have hhi : (W/4+(group w).reach channel)*4+3 < f.elementOffset w index+f.count*4 := by
        have h := (hlast 3 (by decide)).2.2
        omega
      have hspan := (hlast 3 (by decide)).1
      obtain ⟨rfl,hzero⟩ := base_eq_of_within hW.symm hD hcount hlo hhi
      exact ⟨hzero,by omega,by omega,by omega,by omega⟩
    · rintro ⟨hzero,hlt,hdvd,hreach,hspan⟩
      obtain rfl : W = f.elementOffset w index := hW.symm.trans (base_eq_of_fits hD hlt hzero)
      exact ⟨fun b hb => by omega,fun b hb => by omega⟩
  · intro i j k hij hjk hi hk b hb
    have hlo := hi b hb
    have hhi := hk b hb
    omega

/-- A lane of an indexed buffer load reads its bytes where `guestAddr` says. -/
theorem execMubuf_load {E : Env} {f : FetchOp} {v : VWords} {index : BitVec 32} {w : Wave}
    {vdata vaddr soffset : Operand} {srsrc off : ℕ} {lane : Lane} {op : LaneOp}
    {writes : List LaneWrite}
    (hrun : execMubuf E f.op vdata vaddr srsrc soffset f.offset.toNat true false off w = .ok op)
    (hlive : op.live w lane = .ok writes)
    (hv : w.decodeVSharp srsrc off = .ok (VSharp.ofWords v.w0 v.w1 v.w2 v.w3))
    (hs : mubufSoffset w soffset off = .ok f.soff) (hi : w.readSrcLane vaddr lane off = .ok index) :
    ∃ bytes, E.mem.load (f.guestAddr v index) (f.count*4) = .ok bytes ∧
      writes.length = f.count := by
  unfold execMubuf at hrun
  unfold count
  cases hop : f.op.vdataCount with
  | none =>
    rw [hop] at hrun
    cases hrun
  | some n =>
    rw [hop] at hrun
    obtain ⟨soff,hsoff,hrun⟩ := bind_eq_ok.mp hrun
    obtain rfl : f.soff = soff := Except.ok.inj (hs.symm.trans hsoff)
    obtain ⟨v',hv',hrun⟩ := bind_eq_ok.mp hrun
    obtain rfl := Except.ok.inj (hv.symm.trans hv')
    obtain ⟨vdata0,-,hrun⟩ := bind_eq_ok.mp hrun
    obtain ⟨reg,hreg,hrun⟩ := bind_eq_ok.mp hrun
    obtain rfl : none = reg := Except.ok.inj hreg
    obtain rfl := Except.ok.inj hrun
    obtain ⟨index',hindex,hlive⟩ := bind_eq_ok.mp hlive
    obtain rfl := Except.ok.inj (hindex.symm.trans (show w.fetchIndex vaddr true
      (VSharp.ofWords v.w0 v.w1 v.w2 v.w3).numRecords lane off = .ok
        (clampRecord _ (index.setWidth 64)) by simp only [Wave.fetchIndex, if_true, hi]; rfl))
    obtain ⟨voffset,hoffset,hlive⟩ := bind_eq_ok.mp hlive
    obtain rfl : 0 = voffset := Except.ok.inj hoffset
    obtain ⟨bytes,hbytes,hlive⟩ := bind_eq_ok.mp hlive
    obtain rfl := Except.ok.inj hlive
    exact ⟨bytes,hbytes,by simp⟩

/-- A V# without a stride: a draw sends the default stride where the span and the interpreter
take none. -/
theorem not_agrees_packed :
    let w : VWords := ⟨0x1000,0,2,0x27fac⟩
    (decodeVSharp w).isNull = false ∧ ¬(⟨.bufferLoadFormatX,0,0⟩ : FetchOp).Agrees w 1 := by
  refine ⟨by decide,fun h => ?_⟩
  have hlt := (h 0 (by decide) 4 (by decide) 0 (by decide)).1
  exact absurd hlt (by decide)

end FetchOp

end Unemups4.Gnm

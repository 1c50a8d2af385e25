import Unemups4.Inst

/-! The decoder of GCN machine code: the class of an instruction and its length are read off
its first word, the operands off both. A walk lands on the next instruction also past a
trailing literal. -/
namespace Unemups4.Gcn

/-- The bits of a word from `lo` on. -/
def bits (w : Word) (lo len : ℕ) : ℕ := (w >>> lo).toNat % 2^len

def flag (w : Word) (i : ℕ) : Bool := bits w i 1 = 1

namespace Operand

def isLiteral : Operand → Bool
  | literal _ => true
  | _ => false

/-- The value of the eight inline floats, as bit patterns. -/
def inlineFloats : List Word :=
  [0x3f000000,0xbf000000,0x3f800000,0xbf800000,0x40000000,0xc0000000,0x40800000,0xc0800000]

end Operand

/-- `LITERAL_SRC` -/
def literalSrc : ℕ := 255

/-- A source field of nine bits; a literal stands with zero until its word is spliced in. -/
def decodeSrc (field : ℕ) : Operand :=
  let f := field % 512
  if f ≤ 103 then .sgpr f
  else if f = 106 then .special .vccLo
  else if f = 107 then .special .vccHi
  else if f = 124 then .special .m0
  else if f = 126 then .special .execLo
  else if f = 127 then .special .execHi
  else if 128 ≤ f ∧ f ≤ 192 then .inlineInt (f-128)
  else if 193 ≤ f ∧ f ≤ 208 then .inlineInt (-(f-192))
  else if 240 ≤ f ∧ f ≤ 247 then .inlineFloat (Operand.inlineFloats.getD (f-240) 0)
  else if f = literalSrc then .literal 0
  else if f = 253 then .special .scc
  else if 256 ≤ f then .vgpr (f-256)
  else .raw f

namespace Sop1Op

def ofCode : ℕ → Sop1Op
  | 0x03 => sMovB32
  | 0x04 => sMovB64
  | 0x0a => sWqmB64
  | 0x20 => sSetpcB64
  | 0x21 => sSwappcB64
  | code => other code

/-- Either ends a fetch shader. -/
def isReturn : Sop1Op → Bool
  | sSetpcB64 | sSwappcB64 => true
  | _ => false

end Sop1Op

def SoppOp.ofCode : ℕ → SoppOp
  | 0x00 => sNop
  | 0x01 => sEndpgm
  | 0x02 => sBranch
  | 0x04 => sCbranchScc0
  | 0x05 => sCbranchScc1
  | 0x06 => sCbranchVccz
  | 0x07 => sCbranchVccnz
  | 0x08 => sCbranchExecz
  | 0x09 => sCbranchExecnz
  | 0x0a => sBarrier
  | 0x0c => sWaitcnt
  | code => other code

def SmrdOp.ofCode : ℕ → SmrdOp
  | 0x00 => sLoadDword
  | 0x01 => sLoadDwordx2
  | 0x02 => sLoadDwordx4
  | 0x03 => sLoadDwordx8
  | 0x04 => sLoadDwordx16
  | 0x08 => sBufferLoadDword
  | 0x09 => sBufferLoadDwordx2
  | 0x0a => sBufferLoadDwordx4
  | 0x0b => sBufferLoadDwordx8
  | 0x0c => sBufferLoadDwordx16
  | code => other code

/-- The comparisons have one code in both of their encodings. -/
def CmpOp.ofCode : ℕ → Option CmpOp
  | 0x01 => some ltF32
  | 0x02 => some eqF32
  | 0x03 => some leF32
  | 0x04 => some gtF32
  | 0x06 => some geF32
  | 0x81 => some ltI32
  | 0x82 => some eqI32
  | 0x83 => some leI32
  | 0x84 => some gtI32
  | 0x85 => some neI32
  | 0x86 => some geI32
  | 0xc1 => some ltU32
  | 0xc2 => some eqU32
  | 0xc3 => some leU32
  | 0xc4 => some gtU32
  | 0xc5 => some neU32
  | 0xc6 => some geU32
  | _ => none

def VopcOp.ofCode (code : ℕ) : VopcOp := (CmpOp.ofCode code).elim (other code) cmp

def Vop1Op.ofCode : ℕ → Vop1Op
  | 0x00 => vNop
  | 0x01 => vMovB32
  | 0x05 => vCvtF32I32
  | 0x06 => vCvtF32U32
  | 0x07 => vCvtU32F32
  | 0x08 => vCvtI32F32
  | 0x0e => vCvtOffF32I4
  | 0x20 => vFractF32
  | 0x22 => vCeilF32
  | 0x24 => vFloorF32
  | 0x2a => vRcpF32
  | 0x33 => vSqrtF32
  | 0x35 => vSinF32
  | code => other code

namespace Vop2Op

def ofCode : ℕ → Vop2Op
  | 0x00 => vCndmaskB32
  | 0x03 => vAddF32
  | 0x04 => vSubF32
  | 0x05 => vSubrevF32
  | 0x08 => vMulF32
  | 0x0f => vMinF32
  | 0x10 => vMaxF32
  | 0x16 => vLshrrevB32
  | 0x1a => vLshlrevB32
  | 0x1b => vAndB32
  | 0x1f => vMacF32
  | 0x20 => vMadmkF32
  | 0x21 => vMadakF32
  | 0x25 => vAddI32
  | 0x2f => vCvtPkrtzF16F32
  | code => other code

/-- A constant always follows these. -/
def hasInlineLiteral : Vop2Op → Bool
  | vMadmkF32 | vMadakF32 => true
  | _ => false

end Vop2Op

def Vop3Op.ofCode (code : ℕ) : Vop3Op :=
  match CmpOp.ofCode code with
  | some c => cmp c
  | none =>
      match code with
      | 0x100 => vCndmaskB32
      | 0x108 => vMulF32
      | 0x12f => vCvtPkrtzF16F32
      | 0x11f => vMacF32
      | 0x141 => vMadF32
      | 0x143 => vMadU32U24
      | 0x14b => vFmaF32
      | 0x157 => vMed3F32
      | 0x1a0 => vFractF32
      | code => other code

def MimgOp.ofCode : ℕ → MimgOp
  | 0x00 => imageLoad
  | 0x08 => imageStore
  | 0x20 => imageSample
  | code => other code

def VintrpOp.ofCode : ℕ → VintrpOp
  | 0x00 => vInterpP1F32
  | 0x01 => vInterpP2F32
  | 0x02 => vInterpMovF32
  | code => other code

def MubufOp.ofCode : ℕ → MubufOp
  | 0x00 => bufferLoadFormatX
  | 0x01 => bufferLoadFormatXy
  | 0x02 => bufferLoadFormatXyz
  | 0x03 => bufferLoadFormatXyzw
  | 0x04 => bufferStoreFormatX
  | 0x0c => bufferLoadDword
  | 0x1c => bufferStoreDword
  | code => other code

def ExportTarget.decode (tgt : ℕ) : ExportTarget :=
  if tgt ≤ 7 then mrt tgt
  else if tgt = 8 then mrtZ
  else if tgt = 9 then null
  else if 12 ≤ tgt ∧ tgt ≤ 15 then pos (tgt-12)
  else if 32 ≤ tgt ∧ tgt ≤ 63 then param (tgt-32)
  else raw tgt

/-- An instruction at a placeholder offset. -/
def decoded (inst : Inst) (sizeDwords : ℕ) : Decoded := ⟨inst,sizeDwords,0⟩

/-- A source operand with its literal, and whether it takes one. -/
def readSrc (field : ℕ) (w1 : Word) : Operand × Bool :=
  if (decodeSrc field).isLiteral then (.literal w1,true) else (decodeSrc field,false)

def decodeScalar (w0 w1 : Word) : Decoded :=
  let sdst := decodeSrc (bits w0 16 7)
  let ssrc0 := readSrc (bits w0 0 8) w1
  let ssrc1 := readSrc (bits w0 8 8) w1
  if w0 >>> 23 = 0b101111111#32 then
    decoded (.sopp (.ofCode (bits w0 16 7)) (w0.setWidth 16)) 1
  else if w0 >>> 23 = 0b101111110#32 then
    decoded (.sopc (bits w0 16 7) ssrc0.1 ssrc1.1) (1+(ssrc0.2 || ssrc1.2).toNat)
  else if w0 >>> 23 = 0b101111101#32 then
    decoded (.sop1 (.ofCode (bits w0 8 8)) sdst ssrc0.1) (1+ssrc0.2.toNat)
  else if w0 >>> 28 = 0b1011#32 then
    decoded (.sopk (bits w0 23 5) sdst (w0.setWidth 16)) 1
  else
    decoded (.sop2 (bits w0 23 7) sdst ssrc0.1 ssrc1.1) (1+(ssrc0.2 || ssrc1.2).toNat)

def decodeSmrd (w0 : Word) : Decoded :=
  decoded (.smrd (.ofCode (bits w0 22 5)) (decodeSrc (bits w0 15 7)) (bits w0 9 6*2) (flag w0 8)
    (bits w0 0 8)) 1

def decodeVop1 (w0 w1 : Word) : Decoded :=
  let src0 := readSrc (bits w0 0 9) w1
  decoded (.vop1 (.ofCode (bits w0 9 8)) (.vgpr (bits w0 17 8)) src0.1) (1+src0.2.toNat)

def decodeVop2 (w0 w1 : Word) : Decoded :=
  let op := Vop2Op.ofCode (bits w0 25 6)
  let src0 := readSrc (bits w0 0 9) w1
  let k := if op.hasInlineLiteral then some w1 else none
  decoded (.vop2 op (.vgpr (bits w0 17 8)) src0.1 (.vgpr (bits w0 9 8)) k)
    (if op.hasInlineLiteral then 2 else 1+src0.2.toNat)

def decodeVopc (w0 w1 : Word) : Decoded :=
  let src0 := readSrc (bits w0 0 9) w1
  decoded (.vopc (.ofCode (bits w0 17 8)) src0.1 (.vgpr (bits w0 9 8))) (1+src0.2.toNat)

/-- The result of a comparison is a scalar. -/
def decodeVop3 (w0 w1 : Word) : Decoded :=
  let op := bits w0 17 9
  let vdst := if op < 0x100 then decodeSrc (bits w0 0 8) else .vgpr (bits w0 0 8)
  decoded (.vop3 (.ofCode op) vdst (decodeSrc (bits w1 0 9)) (decodeSrc (bits w1 9 9))
    (decodeSrc (bits w1 18 9)) (BitVec.ofNat 8 (bits w0 8 3)) (BitVec.ofNat 8 (bits w1 29 3))
    (bits w1 27 2) (flag w0 11)) 2

def decodeVintrp (w0 : Word) : Decoded :=
  decoded (.vintrp (.ofCode (bits w0 16 2)) (.vgpr (bits w0 18 8)) (.vgpr (bits w0 0 8))
    (bits w0 10 6) (bits w0 8 2)) 1

/-- A scalar offset takes no literal here. -/
def decodeMubuf (w0 w1 : Word) : Decoded :=
  let soffset := bits w1 24 8
  decoded (.mubuf (.ofCode (bits w0 18 7)) (.vgpr (bits w1 8 8)) (.vgpr (bits w1 0 8))
    (bits w1 16 5*4) (if soffset = literalSrc then .raw soffset else decodeSrc soffset)
    (bits w0 0 12) (flag w0 13) (flag w0 12)) 2

def decodeMimg (w0 w1 : Word) : Decoded :=
  decoded (.mimg (.ofCode (bits w0 18 7)) (.vgpr (bits w1 8 8)) (.vgpr (bits w1 0 8))
    (bits w1 16 5*4) (bits w1 21 5*4) (BitVec.ofNat 8 (bits w0 8 4)) (flag w0 12)) 2

def decodeExp (w0 w1 : Word) : Decoded :=
  let srcs := (List.range 4).map fun i =>
    if flag w0 i then some (Operand.vgpr (bits w1 (8*i) 8)) else none
  decoded (.exp (.decode (bits w0 4 6)) srcs (flag w0 11) (flag w0 10) (flag w0 12)) 2

/-- The class goes by the high bits of the first word, the widest prefix last. -/
def decodeOne (w0 : Word) (rest : List Word) : Decoded :=
  let w1 := rest.headD 0
  if w0 >>> 26 = 0b111110#32 then decodeExp w0 w1
  else if w0 >>> 26 = 0b111000#32 then decodeMubuf w0 w1
  else if w0 >>> 26 = 0b111100#32 then decodeMimg w0 w1
  else if w0 >>> 26 = 0b110010#32 then decodeVintrp w0
  else if w0 >>> 25 = 0b0111111#32 then decodeVop1 w0 w1
  else if w0 >>> 25 = 0b0111110#32 then decodeVopc w0 w1
  else if w0 >>> 26 = 0b110100#32 then decodeVop3 w0 w1
  else if w0 >>> 27 = 0b11000#32 then decodeSmrd w0
  else if w0 >>> 30 = 0b10#32 then decodeScalar w0 w1
  else if w0 >>> 31 = 0#32 then decodeVop2 w0 w1
  else decoded (.unknown w0 []) 1

/-- The walk from `pc` on, over what is left of the code; a truncated tail ends with it. -/
def decodeFrom : ℕ → ℕ → List Word → List Decoded
  | fuel+1, pc, w0 :: rest =>
      let d := decodeOne w0 rest
      let size := min d.sizeDwords (rest.length+1)
      ⟨d.inst,size,pc⟩ :: decodeFrom fuel (pc+size) ((w0 :: rest).drop size)
  | _, _, _ => []

def decodeAll (code : List Word) : List Decoded := decodeFrom code.length 0 code

def Inst.isReturn : Inst → Bool
  | sop1 op _ _ => op.isReturn
  | _ => false

/-- The dwords that an instruction takes, by its first. -/
def instSize (w0 : Word) : ℕ := (decodeOne w0 []).sizeDwords

def isReturn (w0 : Word) : Bool := (decodeOne w0 []).inst.isReturn

@[simp] lemma decoded_sizeDwords (inst : Inst) (size : ℕ) : (decoded inst size).sizeDwords = size :=
  rfl

@[simp] lemma decoded_inst (inst : Inst) (size : ℕ) : (decoded inst size).inst = inst := rfl

lemma readSrc_snd (field : ℕ) (w1 : Word) : (readSrc field w1).2 = (decodeSrc field).isLiteral := by
  unfold readSrc
  split_ifs with h <;> simp [h]

/-- What a decoder of one class reads off its second word is operands only. -/
def ByFirst (f : Word → Decoded) : Prop := ∀ w1,
  (f w1).sizeDwords = (f 0).sizeDwords ∧ (f w1).inst.isReturn = (f 0).inst.isReturn ∧
    1 ≤ (f w1).sizeDwords ∧ (f w1).sizeDwords ≤ 2

lemma literal_bounds (b : Bool) : 1 ≤ 1+b.toNat ∧ 1+b.toNat ≤ 2 := by
  cases b <;> decide

/-- An encoding of one length that is not the one of a return. -/
lemma byFirst_of_fixed {f : Word → Decoded} {size : ℕ} (hsize : ∀ w1, (f w1).sizeDwords = size)
    (hreturn : ∀ w1, (f w1).inst.isReturn = false) (hpos : 1 ≤ size) (hle : size ≤ 2) : ByFirst f := by
  intro w1
  rw [hsize, hsize, hreturn, hreturn]
  exact ⟨rfl,rfl,hpos,hle⟩

lemma byFirst_decodeExp (w0 : Word) : ByFirst (decodeExp w0) :=
  byFirst_of_fixed (fun _ => rfl) (fun _ => rfl) one_le_two le_rfl

lemma byFirst_decodeMubuf (w0 : Word) : ByFirst (decodeMubuf w0) :=
  byFirst_of_fixed (fun _ => rfl) (fun _ => rfl) one_le_two le_rfl

lemma byFirst_decodeMimg (w0 : Word) : ByFirst (decodeMimg w0) :=
  byFirst_of_fixed (fun _ => rfl) (fun _ => rfl) one_le_two le_rfl

lemma byFirst_decodeVintrp (w0 : Word) : ByFirst fun _ => decodeVintrp w0 :=
  byFirst_of_fixed (fun _ => rfl) (fun _ => rfl) le_rfl one_le_two

lemma byFirst_decodeVop1 (w0 : Word) : ByFirst (decodeVop1 w0) := by
  intro w1
  simp only [decodeVop1, decoded_sizeDwords, decoded_inst, readSrc_snd, Inst.isReturn, true_and]
  exact literal_bounds _

lemma byFirst_decodeVopc (w0 : Word) : ByFirst (decodeVopc w0) := by
  intro w1
  simp only [decodeVopc, decoded_sizeDwords, decoded_inst, readSrc_snd, Inst.isReturn, true_and]
  exact literal_bounds _

lemma byFirst_decodeVop3 (w0 : Word) : ByFirst (decodeVop3 w0) :=
  byFirst_of_fixed (fun _ => rfl) (fun _ => rfl) one_le_two le_rfl

lemma byFirst_decodeSmrd (w0 : Word) : ByFirst fun _ => decodeSmrd w0 :=
  byFirst_of_fixed (fun _ => rfl) (fun _ => rfl) le_rfl one_le_two

lemma byFirst_decodeScalar (w0 : Word) : ByFirst (decodeScalar w0) := by
  intro w1
  unfold decodeScalar
  split_ifs
  all_goals
    simp only [decoded_sizeDwords, decoded_inst, readSrc_snd, Inst.isReturn, true_and, le_refl,
      one_le_two]
  · exact literal_bounds _
  · exact literal_bounds _
  · exact literal_bounds _

lemma byFirst_decodeVop2 (w0 : Word) : ByFirst (decodeVop2 w0) := by
  intro w1
  simp only [decodeVop2, decoded_sizeDwords, decoded_inst, readSrc_snd, Inst.isReturn]
  split_ifs
  · simp
  · exact ⟨trivial,trivial,literal_bounds _⟩

lemma byFirst_ite {f g : Word → Decoded} (c : Prop) [Decidable c] (hf : ByFirst f)
    (hg : ByFirst g) : ByFirst fun w1 => if c then f w1 else g w1 := by
  by_cases hc : c
  · simpa only [if_pos hc] using hf
  · simpa only [if_neg hc] using hg

/-- The class of an instruction goes by its first word alone. -/
lemma byFirst_decodeOne (w0 : Word) : ByFirst fun w1 => decodeOne w0 [w1] := by
  unfold decodeOne
  refine byFirst_ite _ (byFirst_decodeExp w0) ?_
  refine byFirst_ite _ (byFirst_decodeMubuf w0) ?_
  refine byFirst_ite _ (byFirst_decodeMimg w0) ?_
  refine byFirst_ite _ (byFirst_decodeVintrp w0) ?_
  refine byFirst_ite _ (byFirst_decodeVop1 w0) ?_
  refine byFirst_ite _ (byFirst_decodeVopc w0) ?_
  refine byFirst_ite _ (byFirst_decodeVop3 w0) ?_
  refine byFirst_ite _ (byFirst_decodeSmrd w0) ?_
  refine byFirst_ite _ (byFirst_decodeScalar w0) ?_
  refine byFirst_ite _ (byFirst_decodeVop2 w0) ?_
  exact byFirst_of_fixed (fun _ => rfl) (fun _ => rfl) le_rfl one_le_two

lemma decodeOne_headD (w0 : Word) (rest : List Word) :
    decodeOne w0 rest = decodeOne w0 [rest.headD 0] := rfl

lemma decodeOne_class (w0 : Word) (rest : List Word) :
    (decodeOne w0 rest).sizeDwords = instSize w0 ∧
      (decodeOne w0 rest).inst.isReturn = isReturn w0 := by
  obtain ⟨hsize,hreturn,-⟩ := byFirst_decodeOne w0 (rest.headD 0)
  exact ⟨hsize,hreturn⟩

lemma instSize_bounds (w0 : Word) : 1 ≤ instSize w0 ∧ instSize w0 ≤ 2 :=
  (byFirst_decodeOne w0 0).2.2

lemma decodeFrom_cons (fuel pc : ℕ) (w0 : Word) (rest : List Word) :
    decodeFrom (fuel+1) pc (w0 :: rest) =
      ⟨(decodeOne w0 rest).inst,min (instSize w0) (rest.length+1),pc⟩ ::
        decodeFrom fuel (pc+min (instSize w0) (rest.length+1))
          ((w0 :: rest).drop (min (instSize w0) (rest.length+1))) := by
  rw [decodeFrom, (decodeOne_class w0 rest).1]

/-- A walk starts where it is told to, and no instruction of it lies past the code. -/
lemma decodeFrom_contiguous (fuel pc : ℕ) (code : List Word) :
    Contiguous (decodeFrom fuel pc code) ∧
      (∀ d ∈ (decodeFrom fuel pc code).head?, d.offsetDwords = pc) ∧
      ∀ d ∈ decodeFrom fuel pc code,
        1 ≤ d.sizeDwords ∧ d.offsetDwords+d.sizeDwords ≤ pc+code.length := by
  induction fuel generalizing pc code with
  | zero => simp [decodeFrom, Contiguous]
  | succ fuel ih =>
    cases code with
    | nil => simp [decodeFrom, Contiguous]
    | cons w0 rest =>
      have hsize := (instSize_bounds w0).1
      rw [decodeFrom_cons]
      obtain ⟨hcont,hhead,hend⟩ := ih (pc+min (instSize w0) (rest.length+1))
        ((w0 :: rest).drop (min (instSize w0) (rest.length+1)))
      refine ⟨?_,by simp,?_⟩
      · cases htail : decodeFrom fuel (pc+min (instSize w0) (rest.length+1))
            ((w0 :: rest).drop (min (instSize w0) (rest.length+1))) with
        | nil => simpa [Contiguous] using hsize
        | cons d ds =>
          rw [htail] at hcont hhead
          have hd : d.offsetDwords = pc+min (instSize w0) (rest.length+1) := hhead d rfl
          exact ⟨by dsimp only; omega,hd,hcont⟩
      · intro d hd
        rcases List.mem_cons.mp hd with rfl | hd
        · simp only [List.length_cons]
          omega
        · obtain ⟨hpos,hle⟩ := hend d hd
          simp only [List.length_drop, List.length_cons] at hle ⊢
          omega

/-- The stream of a code segment. -/
def decodeStream (code : List Word) (h : code.length ≤ 2^32) : Stream where
  insts := decodeAll code
  contiguous := (decodeFrom_contiguous _ _ _).1
  bounded d hd := by
    have := (decodeFrom_contiguous code.length 0 code).2.2 d hd
    omega

end Unemups4.Gcn

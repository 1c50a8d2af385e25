import Unemups4.Inst

/-! Lane arithmetic shared by the two executors. The host's binary32 and binary16
operations are a parameter over bit patterns; what the source builds from them
(the micro-op bodies, the input and output modifiers, packed-format conversion) is
written out here. -/
namespace Unemups4.Gcn

/-- The binary32 operations of the host, on bit patterns. Float-to-integer casts
saturate; `ofHalf` and `toHalf` convert from and to binary16. -/
structure FloatOps where
  add : Word → Word → Word
  sub : Word → Word → Word
  mul : Word → Word → Word
  div : Word → Word → Word
  min : Word → Word → Word
  max : Word → Word → Word
  fma : Word → Word → Word → Word
  abs : Word → Word
  neg : Word → Word
  floor : Word → Word
  ceil : Word → Word
  sqrt : Word → Word
  sin : Word → Word
  lt : Word → Word → Bool
  eq : Word → Word → Bool
  le : Word → Word → Bool
  ofU32 : Word → Word
  ofI32 : Word → Word
  toU32 : Word → Word
  toI32 : Word → Word
  toI64 : Word → ℤ
  ofHalf : BitVec 16 → Word
  toHalf : Word → BitVec 16

namespace F32

def zero : Word := 0x00000000#32
def half : Word := 0x3f000000#32
def one : Word := 0x3f800000#32
def negOne : Word := 0xbf800000#32
def two : Word := 0x40000000#32
def four : Word := 0x40800000#32
def sixteen : Word := 0x41800000#32
def maxByte : Word := 0x437f0000#32
def tau : Word := 0x40c90fdb#32
def belowOne : Word := 0x3f7fffff#32

end F32

namespace FloatOps

variable (F : FloatOps)

def fract (x : Word) : Word :=
  let f := F.sub x (F.floor x)
  if F.le F32.one f then F32.belowOne else f

def median3 (a b c : Word) : Word :=
  F.min (F.max a b) (F.max (F.min a b) c)

def applyMods (v : Word) (abs neg : BitVec 8) (idx : ℕ) : Word :=
  let v := if abs.getLsbD idx then F.abs v else v
  if neg.getLsbD idx then F.neg v else v

def applyOmod (v : Word) (omod : ℕ) : Word :=
  match omod with
  | 1 => F.mul v F32.two
  | 2 => F.mul v F32.four
  | 3 => F.mul v F32.half
  | _ => v

def applyClamp (v : Word) (clamp : Bool) : Word :=
  if clamp then F.min (F.max v F32.zero) F32.one else v

def evalVop2 (op : Vop2Op) (a b dstOld : Word) (k : Option Word) : Word :=
  match op with
  | .vAddF32 => F.add a b
  | .vSubF32 => F.sub a b
  | .vSubrevF32 => F.sub b a
  | .vMulF32 => F.mul a b
  | .vMinF32 => F.min a b
  | .vMaxF32 => F.max a b
  | .vMacF32 => F.add (F.mul a b) dstOld
  | .vMadmkF32 => F.add (F.mul a (k.getD 0)) b
  | _ => F.add (F.mul a b) (k.getD 0)

def evalVop3 (op : Vop3Op) (a b c dstOld : Word) : Word :=
  match op with
  | .vMulF32 => F.mul a b
  | .vMacF32 => F.add (F.mul a b) dstOld
  | .vMadF32 => F.add (F.mul a b) c
  | .vFmaF32 => F.fma a b c
  | .vFractF32 => F.fract a
  | _ => F.median3 a b c

/-- The `sext4(S0[3:0]) / 16.0` of `v_cvt_off_f32_i4`. -/
def cvtOffI4 (x : Word) : Word :=
  F.div (F.ofI32 (((x &&& 0xf#32) <<< 28).sshiftRight 28)) F32.sixteen

def pkrtz (a b : Word) : Word :=
  ((F.toHalf b).setWidth 32 <<< 16) ||| (F.toHalf a).setWidth 32

/-- A packed component of `width` bits as the float its number format gives. -/
def convertPackedInt (rawU : Word) (width : ℕ) (nfmt : ℕ) (floatVal : Word) : Word :=
  let maxU := F.ofU32 ((1#32 <<< width)-1)
  let halfMax := F.ofU32 ((1#32 <<< (width-1))-1)
  let sub := if rawU.getLsbD (width-1) then 1#32 <<< width else 0
  let uf := F.ofU32 rawU
  let sf := F.ofI32 (rawU-sub)
  match nfmt with
  | 1 => F.max (F.div sf halfMax) F32.negOne
  | 4 => uf
  | 5 => sf
  | 7 => floatVal
  | _ => F.div uf maxU

/-- The ordered f32 comparisons; an integer comparison is not one of them. -/
def compare (c : CmpOp) (a b : Word) : Option Bool :=
  match c with
  | .ltF32 => some (F.lt a b)
  | .eqF32 => some (F.eq a b)
  | .leF32 => some (F.le a b)
  | .gtF32 => some (F.lt b a)
  | .geF32 => some (F.le b a)
  | _ => none

end FloatOps

end Unemups4.Gcn

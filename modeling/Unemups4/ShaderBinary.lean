import Unemups4.CacheMachine
import Unemups4.Fallible
import Unemups4.IoLayout

/-! The container of a compiled shader: its code, a small table, and a header that is found
by scanning forward from the code. Reads go through a bounded view of guest memory. -/
namespace Unemups4.Gnm
open Gcn Fallible

/-- A bounded read returns all the bytes asked for, or faults. -/
abbrev Reader := ℕ → ℕ → Option Bytes

/-- Guest memory behind the bounded reads; its addresses are words. -/
structure GuestBytes where
  mapped : ℕ → Bool
  byte : ℕ → UInt8
  isWord : ∀ a, mapped a → a < 2^64

namespace GuestBytes

variable (g : GuestBytes)

def Mapped (addr len : ℕ) : Prop := ∀ i < len, g.mapped (addr+i)

instance (addr len : ℕ) : Decidable (g.Mapped addr len) :=
  inferInstanceAs (Decidable (∀ i < len, g.mapped (addr+i)))

def window (addr len : ℕ) : Bytes := (List.range len).map fun i => g.byte (addr+i)

/-- A read succeeds exactly when all its bytes are mapped. -/
def readRanged : Reader := fun addr len =>
  if g.Mapped addr len then some (g.window addr len) else none

variable {g}

lemma Mapped.mono {addr len len' : ℕ} (h : g.Mapped addr len) (hle : len' ≤ len) :
    g.Mapped addr len' := fun i hi => h i (hi.trans_le hle)

/-- A range is mapped when its two parts are; they may overlap. -/
lemma Mapped.append {addr len len' start : ℕ} (h : g.Mapped addr len)
    (h' : g.Mapped (addr+start) len') (hstart : start ≤ len) : g.Mapped addr (start+len') := by
  intro i hi
  rcases lt_or_ge i len with hlt | hge
  · exact h i hlt
  · have hpart := h' (i-start) (by omega)
    rwa [Nat.add_assoc, Nat.add_sub_cancel' (hstart.trans hge)] at hpart

lemma Mapped.drop {addr len start : ℕ} (h : g.Mapped addr (start+len)) :
    g.Mapped (addr+start) len := by
  intro i hi
  rw [Nat.add_assoc]
  exact h (start+i) (by omega)

@[simp] lemma length_window (addr len : ℕ) : (g.window addr len).length = len := by
  simp [window]

/-- A piece of a window. -/
lemma take_drop_window {addr len i n : ℕ} (h : i+n ≤ len) :
    ((g.window addr len).drop i).take n = g.window (addr+i) n := by
  refine List.ext_getElem (by simp; omega) fun j hj hj' => ?_
  simp [window, Nat.add_assoc]

end GuestBytes

namespace ShaderBinary

def orbshdrMagic : Bytes := [0x4f,0x72,0x62,0x53,0x68,0x64,0x72]

def shaderBinaryInfoSize : ℕ := 28

def maxScanBytes : ℕ := 2^20

def maxFooterGap : ℕ := 256

def sEndpgm : UInt32 := 0xbf810000

/-- The hardware stage of a shader. -/
inductive SbStage where
  | pixel
  | vertex
  | exportStage
  | localStage
  | compute
  | geometry
  | hull
  | domain
  deriving DecidableEq, Repr

inductive SbParseError where
  | magicNotFound
  | badMagic
  | truncated
  | lengthMismatch
  | unknownStage (mType : ℕ)
  | memoryFault
  deriving DecidableEq, Repr

def SbStage.fromMType : ℕ → Except SbParseError SbStage
  | 0 => .ok pixel
  | 1 => .ok vertex
  | 2 => .ok exportStage
  | 3 => .ok localStage
  | 4 => .ok compute
  | 5 => .ok geometry
  | 7 => .ok hull
  | 8 => .ok domain
  | other => .error (.unknownStage other)

/-- The stages that present as a vertex shader, and the pixel stage. -/
def SbStage.logicalStage : SbStage → Option ShaderStage
  | vertex | exportStage | localStage | domain => some .vertex
  | pixel => some .pixel
  | compute | geometry | hull => none

def word (bytes : Bytes) (offset : ℕ) : UInt32 :=
  let byte i := (bytes.getD (offset+i) 0).toUInt32
  byte 0 ||| byte 1 <<< 8 ||| byte 2 <<< 16 ||| byte 3 <<< 24

/-- The header fields that the provider reads. -/
structure ShaderBinaryInfo where
  stage : SbStage
  codeLen : ℕ
  shaderHash0 : UInt32
  shaderHash1 : UInt32
  crc32 : UInt32
  deriving DecidableEq, Repr

def ShaderBinaryInfo.parse (bytes : Bytes) : Except SbParseError ShaderBinaryInfo :=
  if bytes.length < shaderBinaryInfoSize then .error .truncated
  else if bytes.take 7 ≠ orbshdrMagic then .error .badMagic
  else do
    let bits := word bytes 8
    let stage ← SbStage.fromMType ((bits >>> 2) &&& 0xf).toNat
    return ⟨stage,(bits >>> 8).toNat,word bytes 16,word bytes 20,word bytes 24⟩

structure SbShader where
  stage : SbStage
  codeStart : ℕ
  codeEnd : ℕ
  info : ShaderBinaryInfo
  deriving DecidableEq, Repr

/-- Read up to a size, halving it on a fault until it drops to the floor. -/
def readShrinking (read : Reader) (addr floor : ℕ) : ℕ → ℕ → Option Bytes
  | 0, _ => none
  | fuel+1, len =>
      match read addr len with
      | some bytes => some bytes
      | none => if len ≤ floor then none else readShrinking read addr floor fuel (max (len/2) floor)

def findMagic (bytes : Bytes) : Option ℕ :=
  (List.range (bytes.length-6)).find? fun i => (bytes.drop i).take 7 = orbshdrMagic

/-- A window overlaps the next one, so that a magic across the two is found. Every window
moves on, so that the bound of the scan is fuel enough. -/
def scanForMagic (read : Reader) (codeStart : ℕ) : ℕ → ℕ → Option ℕ
  | 0, _ => none
  | fuel+1, offset =>
      if maxScanBytes ≤ offset ∨ codeStart+offset > u64Max then none
      else
        match readShrinking read (codeStart+offset) 7 4102 4102 with
        | none => none
        | some bytes =>
            match findMagic bytes with
            | some i => some (codeStart+offset+i)
            | none => scanForMagic read codeStart fuel (offset+(bytes.length-6))

/-- The header must describe code that ends shortly before it, in an end of program. -/
def validateSbCandidate (read : Reader) (codeStart headerAddr : ℕ) :
    Except SbParseError SbShader := do
  let raw ← (read headerAddr shaderBinaryInfoSize).elim (.error .memoryFault) .ok
  let info ← ShaderBinaryInfo.parse raw
  let codeEnd := codeStart+info.codeLen
  if codeEnd > u64Max ∨ headerAddr < codeEnd ∨ headerAddr-codeEnd > maxFooterGap ∨
      codeEnd < codeStart+4 then .error .lengthMismatch
  else
    let tail ← (read (codeEnd-4) 4).elim (.error .memoryFault) .ok
    if word tail 0 ≠ sEndpgm then .error .lengthMismatch
    else return ⟨info.stage,codeStart,codeEnd,info⟩

/-- The first magic whose header describes the code; each one that does not is passed over. -/
def parseFrom (read : Reader) (codeStart : ℕ) :
    ℕ → ℕ → SbParseError → Except SbParseError SbShader
  | 0, _, last => .error last
  | fuel+1, offset, last =>
      match scanForMagic read codeStart maxScanBytes offset with
      | none => .error last
      | some headerAddr =>
          match validateSbCandidate read codeStart headerAddr with
          | .ok shader => .ok shader
          | .error e => parseFrom read codeStart fuel (headerAddr-codeStart+1) e

def parseSb (read : Reader) (codeStart : ℕ) : Except SbParseError SbShader :=
  parseFrom read codeStart maxScanBytes 0 .magicNotFound

/-- What the guest bytes are as little-endian words; an odd tail is dropped. -/
def wordsOf : Bytes → List UInt32
  | a :: b :: c :: d :: rest => word [a,b,c,d] 0 :: wordsOf rest
  | _ => []

lemma validateSbCandidate_range {read : Reader} {codeStart headerAddr : ℕ} {sb : SbShader}
    (h : validateSbCandidate read codeStart headerAddr = .ok sb) :
    sb.codeStart = codeStart ∧ sb.codeEnd = codeStart+sb.info.codeLen ∧ codeStart+4 ≤ sb.codeEnd ∧
      sb.codeEnd ≤ u64Max := by
  unfold validateSbCandidate at h
  obtain ⟨raw,-,h⟩ := bind_eq_ok.mp h
  obtain ⟨info,-,h⟩ := bind_eq_ok.mp h
  simp only at h
  split_ifs at h with hbad
  obtain ⟨tail,-,h⟩ := bind_eq_ok.mp h
  split_ifs at h
  cases h
  simp only [not_or, not_lt] at hbad
  exact ⟨rfl,rfl,hbad.2.2.2,hbad.1⟩

/-- The code of a parsed shader starts where it was looked for and is as long as its header
says. -/
theorem parseSb_range {read : Reader} {codeStart : ℕ} {sb : SbShader}
    (h : parseSb read codeStart = .ok sb) :
    sb.codeStart = codeStart ∧ sb.codeEnd = codeStart+sb.info.codeLen ∧ codeStart+4 ≤ sb.codeEnd ∧
      sb.codeEnd ≤ u64Max := by
  have hfrom : ∀ fuel offset last, parseFrom read codeStart fuel offset last = .ok sb →
      sb.codeStart = codeStart ∧ sb.codeEnd = codeStart+sb.info.codeLen ∧
        codeStart+4 ≤ sb.codeEnd ∧ sb.codeEnd ≤ u64Max := by
    intro fuel
    induction fuel with
    | zero => exact fun offset last h => by cases h
    | succ fuel ih =>
      intro offset last h
      simp only [parseFrom] at h
      split at h
      · cases h
      · split at h
        next hvalid =>
          cases h
          exact validateSbCandidate_range hvalid
        next => exact ih _ _ h
  exact hfrom _ _ _ h

end ShaderBinary

end Unemups4.Gnm

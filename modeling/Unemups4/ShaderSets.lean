import Unemups4.BindOrder

/-! The packets of a register bind read back: decoded and applied, they set the registers the
block maps to and no others, so that the draw after them derives the block's program. -/
namespace Unemups4.Gnm
open Gcn

/-- A register that a bind writes, with the field of the block it takes; without one it is
written as zero. -/
structure RegSlot where
  bank : RegBank
  index : Dword
  field : Option ℕ
  deriving DecidableEq, Repr

def RegSlot.value (regs : List Dword) (r : RegSlot) : Dword :=
  match r.field with
  | some i => Gnm.field regs i
  | none => 0

/-- Where the fields of a block belong; those of the second word are dropped. -/
def stageSlots : ShaderStage → List RegSlot
  | .vertex =>
    [⟨.sh,0x2c48,some 0⟩,⟨.sh,0x2c49,none⟩,⟨.sh,0x2c4a,some 2⟩,⟨.sh,0x2c4b,some 3⟩,
     ⟨.context,0xa207,some 6⟩,⟨.context,0xa1b1,some 4⟩,⟨.context,0xa1c3,some 5⟩]
  | .pixel =>
    [⟨.sh,0x2c08,some 0⟩,⟨.sh,0x2c09,none⟩,⟨.sh,0x2c0a,some 2⟩,⟨.sh,0x2c0b,some 3⟩,
     ⟨.context,0xa1c4,some 4⟩,⟨.context,0xa1c5,some 5⟩,⟨.context,0xa1b3,some 6⟩,
     ⟨.context,0xa1b4,some 7⟩,⟨.context,0xa1b6,some 8⟩,⟨.context,0xa1b8,some 9⟩,
     ⟨.context,0xa203,some 10⟩,⟨.context,0xa08f,some 11⟩]

/-- The value that a block gives a register. -/
def blockValue (stage : ShaderStage) (regs : List Dword) (bank : RegBank) (reg : Dword) :
    Option Dword :=
  ((stageSlots stage).find? fun r => r.bank = bank ∧ r.index = reg).map (RegSlot.value regs)

/-- The footprint of a program. -/
structure GcnResources where
  numVgprs : ℕ
  numSgprs : ℕ
  numUserSgprs : ℕ
  fetchAddr : Option ℕ
  deriving DecidableEq, Repr

def numVgprs (rsrc1 : Dword) : ℕ := ((rsrc1 &&& 0x3f).toNat+1)*4

def numSgprs (rsrc1 : Dword) : ℕ := (((rsrc1 >>> 6) &&& 0xf).toNat+1)*8

def numUserSgprs (rsrc2 : Dword) : ℕ := ((rsrc2 >>> 1) &&& 0x1f).toNat

def pgmRsrc2 : ShaderStage → Dword
  | .pixel => 0x2c0b
  | .vertex => 0x2c4b

/-- The footprint that `gcn_ref_from_regs` puts into the reference; a resource word that was
never written reads as zero. -/
def GpuState.gcnResources (s : GpuState) (stage : ShaderStage) : GcnResources where
  numVgprs := Gnm.numVgprs ((s.banks .sh (pgmRsrc1 stage)).getD 0)
  numSgprs := Gnm.numSgprs ((s.banks .sh (pgmRsrc1 stage)).getD 0)
  numUserSgprs := Gnm.numUserSgprs ((s.banks .sh (pgmRsrc2 stage)).getD 0)
  fetchAddr := s.fetchAddr stage

/-- One register written. -/
def GpuState.setReg (s : GpuState) (w : RegBank × Dword × Dword) : GpuState :=
  { s with banks := Function.update s.banks w.1 (Function.update (s.banks w.1) w.2.1 (some w.2.2)) }

/-- The registers that values take from `start` on. -/
def regWrites (bank : RegBank) (start : Dword) : List Dword → List (RegBank × Dword × Dword)
  | [] => []
  | value :: values => (bank,start,value) :: regWrites bank (start+1) values

def RegRun.writes (r : RegRun) : List (RegBank × Dword × Dword) :=
  regWrites r.bank (r.bank.base+r.offset) r.values

namespace GpuState

lemma setReg_write (s : GpuState) (bank : RegBank) (start : Dword) (values : List Dword) :
    { s with banks := Function.update s.banks bank ((s.banks bank).write start values) } =
      (regWrites bank start values).foldl setReg s := by
  induction values generalizing s start with
  | nil => simp [regWrites, RegFile.write]
  | cons value values ih =>
    have h := ih (s.setReg (bank,start,value)) (start+1)
    simp only [setReg, Function.update_self, Function.update_idem] at h
    simpa [regWrites, RegFile.write, setReg] using h

lemma applySetReg_writes (s : GpuState) (r : RegRun) :
    s.applySetReg r.bank r.body = r.writes.foldl setReg s :=
  s.setReg_write r.bank (r.bank.base+r.offset) r.values

/-- A list of runs writes its registers one after another. -/
lemma applyRuns_writes (s : GpuState) (runs : List RegRun) :
    s.applyRuns runs = (runs.flatMap RegRun.writes).foldl setReg s := by
  induction runs generalizing s with
  | nil => rfl
  | cons r runs ih =>
    rw [List.flatMap_cons, List.foldl_append, ← applySetReg_writes]
    exact ih _

lemma setReg_banks (s : GpuState) (w : RegBank × Dword × Dword) (bank : RegBank) (reg : Dword) :
    (s.setReg w).banks bank reg =
      if w.1 = bank ∧ w.2.1 = reg then some w.2.2 else s.banks bank reg := by
  obtain ⟨bank',reg',value⟩ := w
  by_cases hbank : bank = bank'
  · subst hbank
    simp [setReg, Function.update_apply, eq_comm]
  · simp [setReg, hbank, Ne.symm hbank]

/-- Where no register is written twice, each holds the value written, or what it held. -/
lemma setReg_foldl_banks (slots : List RegSlot) (value : RegSlot → Dword) (s : GpuState)
    (hslots : slots.Pairwise fun r r' => ¬(r.bank = r'.bank ∧ r.index = r'.index)) (bank : RegBank)
    (reg : Dword) :
    ((slots.map fun r => (r.bank,r.index,value r)).foldl setReg s).banks bank reg =
      ((slots.find? fun r => r.bank = bank ∧ r.index = reg).map value).or (s.banks bank reg) := by
  induction slots generalizing s with
  | nil => simp
  | cons r slots ih =>
    obtain ⟨hr,hslots⟩ := List.pairwise_cons.mp hslots
    rw [List.map_cons, List.foldl_cons, ih _ hslots, setReg_banks]
    by_cases h : r.bank = bank ∧ r.index = reg
    · have hnone : slots.find? (fun r' => r'.bank = bank ∧ r'.index = reg) = none := by
        simp only [List.find?_eq_none, decide_eq_true_eq]
        intro r' hr' h'
        exact hr r' hr' ⟨h.1.trans h'.1.symm,h.2.trans h'.2.symm⟩
      rw [hnone, List.find?_cons_of_pos (by simp [h])]
      simp [h]
    · simp [h]

end GpuState

/-- The runs of a bind are the slots of its stage, in groups of consecutive registers. -/
lemma stageRuns_writes (stage : ShaderStage) (regs : List Dword) :
    (stageRuns stage regs).flatMap RegRun.writes =
      (stageSlots stage).map fun r => (r.bank,r.index,r.value regs) := by
  cases stage <;>
    simp [stageRuns, vsRuns, psRuns, RegRun.writes, RegRun.run, regWrites, RegBank.base, stageSlots,
      RegSlot.value]

lemma stageSlots_pairwise (stage : ShaderStage) :
    (stageSlots stage).Pairwise fun r r' => ¬(r.bank = r'.bank ∧ r.index = r'.index) := by
  cases stage <;> decide

namespace GpuState

variable (s : GpuState) (stage : ShaderStage) (regs : List Dword)

lemma program_banks (bank : RegBank) (reg : Dword) :
    (s.program stage regs).banks bank reg =
      (blockValue stage regs bank reg).or (s.banks bank reg) := by
  rw [program, applyRuns_writes, stageRuns_writes]
  exact setReg_foldl_banks _ _ s (stageSlots_pairwise stage) bank reg

/-- The footprint follows the resource words of the block. -/
lemma program_gcnResources : (s.program stage regs).gcnResources stage =
    ⟨Gnm.numVgprs (field regs 2),Gnm.numSgprs (field regs 2),Gnm.numUserSgprs (field regs 3),
      s.fetchAddr stage⟩ := by
  cases stage <;> rfl

lemma program_gcnResources_ne {stage' : ShaderStage} (h : stage' ≠ stage) :
    (s.program stage regs).gcnResources stage' = s.gcnResources stage' := by
  cases stage <;> cases stage'
  · exact absurd rfl h
  · rfl
  · rfl
  · exact absurd rfl h

lemma get_deriveBoundShaders : s.deriveBoundShaders.get stage = s.deriveStage stage := by
  cases stage <;> rfl

/-- The stage derives the program of the block. -/
lemma program_deriveStage (h : ∀ st id, s.shaders.get stage ≠ some (.embedded st id)) :
    (s.program stage regs).deriveStage stage =
      some (.gcnBinary ⟨pgmAddr (field regs 0) 0,s.fetchAddr stage,s.psInputMap stage⟩) := by
  obtain ⟨hlo,hhi⟩ := s.program_pgm stage regs stage
  have href : (s.program stage regs).gcnRefFromRegs stage =
      some (.gcnBinary ⟨pgmAddr (field regs 0) 0,s.fetchAddr stage,s.psInputMap stage⟩) := by
    simp [gcnRefFromRegs, hlo, hhi, program_fetchAddr, program_psInputMap]
  cases hget : s.shaders.get stage with
  | none => simp [deriveStage, hget, href]
  | some r =>
    cases r with
    | embedded st id => exact absurd hget (h st id)
    | gcnBinary r => simp [deriveStage, hget, href]

lemma program_deriveStage_ne {stage' : ShaderStage} (h : stage' ≠ stage) :
    (s.program stage regs).deriveStage stage' = s.deriveStage stage' := by
  obtain ⟨hlo,hhi⟩ := s.program_pgm stage regs stage'
  rw [if_neg h] at hlo hhi
  simp [deriveStage, gcnRefFromRegs, hlo, hhi, program_fetchAddr, program_psInputMap]

/-- The packets that are no draw, one after another. -/
lemma execute_fst (packets : List Pm4Packet) :
    (s.execute packets).1 = packets.foldl writePacket s := by
  induction packets generalizing s with
  | nil => rfl
  | cons packet packets ih => simp [execute, ih]

end GpuState

/-- The trailing filler of a bind. -/
def blockFiller : Pm4Packet := .type3 itNop nopDataBlock (List.replicate nopDataBlock 0)

lemma decode_setStageShader (stage : ShaderStage) (regs rest : List Dword) :
    decode (setStageShader stage regs ++ rest) =
      (stageRuns stage regs).map RegRun.packet ++ blockFiller :: decode rest := by
  have hruns : ∀ r ∈ stageRuns stage regs, r.values.length ≤ 0x3fff := by
    cases stage <;> simp [stageRuns, vsRuns, psRuns, RegRun.run]
  have hfiller := @decode_type3 itNop (List.replicate nopDataBlock 0) (by decide) (by decide) rest
  have hdecode := decode_runs (stageRuns stage regs) hruns
    (t3Header itNop nopDataBlock :: List.replicate nopDataBlock 0 ++ rest)
  have hemit : setStageShader stage regs = emitShaderSet (stageRuns stage regs) := by
    cases stage <;> rfl
  rw [hemit, emitShaderSet, List.append_assoc, hdecode]
  exact congrArg _ hfiller

lemma foldl_setStageShader (s : GpuState) (stage : ShaderStage) (regs : List Dword) :
    (decode (setStageShader stage regs)).foldl GpuState.writePacket s = s.program stage regs := by
  rw [← GpuState.execute_fst, (means_setStageShader stage regs).2, GpuState.execute_runs]
  rfl

/-- Decoded and applied, the dwords of a bind set the registers of its block and leave the
others, and unless an embedded shader is bound the stage derives the block's program; whatever
follows them is decoded on its own. -/
theorem setStageShader_readBack (s : GpuState) (stage : ShaderStage) (regs : List Dword) :
    let s' := (decode (setStageShader stage regs)).foldl GpuState.writePacket s
    (∀ bank reg, s'.banks bank reg = (blockValue stage regs bank reg).or (s.banks bank reg)) ∧
      ((∀ st id, s.shaders.get stage ≠ some (.embedded st id)) →
        s'.deriveBoundShaders.get stage =
            some (.gcnBinary ⟨pgmAddr (field regs 0) 0,s.fetchAddr stage,s.psInputMap stage⟩) ∧
          s'.gcnResources stage = ⟨numVgprs (field regs 2),numSgprs (field regs 2),
            numUserSgprs (field regs 3),s.fetchAddr stage⟩) ∧
      (∀ stage' ≠ stage, s'.deriveBoundShaders.get stage' = s.deriveBoundShaders.get stage' ∧
        s'.gcnResources stage' = s.gcnResources stage') ∧
      ∀ rest, decode (setStageShader stage regs ++ rest) =
        (stageRuns stage regs).map RegRun.packet ++ blockFiller :: decode rest := by
  simp only [foldl_setStageShader, GpuState.get_deriveBoundShaders]
  refine ⟨s.program_banks stage regs,fun h => ?_,fun stage' h => ?_,?_⟩
  · exact ⟨s.program_deriveStage stage regs h,s.program_gcnResources stage regs⟩
  · exact ⟨s.program_deriveStage_ne stage regs h,s.program_gcnResources_ne stage regs h⟩
  · exact decode_setStageShader stage regs

/-- A block of one word names a program without a footprint of its own. -/
theorem setStageShader_readBack_short :
    ((decode (setStageShader .vertex [0x1000])).foldl GpuState.writePacket
        ⟨fun _ _ => none,.none⟩).gcnResources .vertex = ⟨4,8,0,none⟩ :=
  ((setStageShader_readBack ⟨fun _ _ => none,.none⟩ .vertex [0x1000]).2.1
    (by simp [BoundShaders.none, BoundShaders.get])).2

end Unemups4.Gnm

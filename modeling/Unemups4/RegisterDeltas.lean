import Unemups4.Registers
import Unemups4.SortedDelta

/-! The register file as a capture of a frame sees it: each recorded draw comes with what changed since
the draw before, and a frame starts from an empty file. -/
namespace Unemups4.Gnm
open Deltas

/-- The values that a bank holds, in the order that a walk over them finds. -/
abbrev RegTable := AList fun _ : Dword => Dword

namespace RegTable

/-- The bank as a function of the register. -/
def file (bank : RegTable) : RegFile := fun i => bank.lookup i

def write (bank : RegTable) (start : Dword) : List Dword → RegTable
  | [] => bank
  | value :: values => write (bank.insert start value) (start+1) values

lemma file_insert (bank : RegTable) (i value : Dword) :
    file (bank.insert i value) = Function.update bank.file i (some value) := by
  funext j
  by_cases hj : j = i
  · subst hj
    simp [file]
  · simp [file,AList.lookup_insert_ne hj,Function.update_of_ne hj]

lemma file_write (bank : RegTable) (start : Dword) (values : List Dword) :
    (bank.write start values).file = bank.file.write start values := by
  induction values generalizing bank start with
  | nil => rfl
  | cons value values ih => rw [write,ih,file_insert,RegFile.write]

end RegTable

/-- The number of a bank in a capture. -/
def RegBank.number : RegBank → ℕ
  | context => 0
  | sh => 1
  | uconfig => 2
  | config => 3

/-- The bank that a packet's base names; whatever is no other base names the last. -/
def bankOf (base : Dword) : RegBank :=
  if base = RegBank.context.base then .context
  else if base = RegBank.sh.base then .sh
  else if base = RegBank.uconfig.base then .uconfig
  else .config

structure Reg where
  bank : RegBank
  index : Dword
  deriving DecidableEq, Repr

namespace Reg

def rank (r : Reg) : ℕ ×ₗ ℕ := toLex (r.bank.number,r.index.toNat)

lemma rank_injective : Function.Injective rank := by
  rintro ⟨b,i⟩ ⟨c,j⟩ h
  have hpair : b.number = c.number ∧ i.toNat = j.toNat := by simpa [rank] using h
  obtain rfl : i = j := BitVec.eq_of_toNat_eq hpair.2
  have hbank : b = c := by
    have hnumber := hpair.1
    cases b <;> cases c <;> first | rfl | simp [RegBank.number] at hnumber
  rw [hbank]

instance : LinearOrder Reg := LinearOrder.lift' rank rank_injective

end Reg

/-- The banks in the order of a capture. -/
def captured : List RegBank := [.context,.sh,.uconfig,.config]

/-- The whole register file, bank after bank. -/
def listed (banks : RegBank → RegTable) : List (Reg × Dword) :=
  captured.flatMap fun bank => (banks bank).entries.map fun e => (⟨bank,e.1⟩,e.2)

lemma mem_listed {banks : RegBank → RegTable} {r : Reg} {value : Dword} :
    (r,value) ∈ listed banks ↔ (banks r.bank).lookup r.index = some value := by
  obtain ⟨bank,index⟩ := r
  have hbank : bank ∈ captured := by cases bank <;> decide
  rw [← Option.mem_def,AList.mem_lookup_iff]
  simp only [listed,List.mem_flatMap,List.mem_map,Prod.mk.injEq,Reg.mk.injEq]
  constructor
  · rintro ⟨_,-,e,he,⟨rfl,rfl⟩,rfl⟩
    exact he
  · exact fun he => ⟨bank,hbank,_,he,⟨rfl,rfl⟩,rfl⟩

lemma listed_keys_nodup (banks : RegBank → RegTable) : ((listed banks).map Prod.fst).Nodup := by
  have hkeys : (listed banks).map Prod.fst =
      captured.flatMap fun bank => (banks bank).keys.map (Reg.mk bank) := by
    simp [listed,List.map_flatMap,AList.keys,List.keys,Function.comp_def]
  rw [hkeys,List.nodup_flatMap]
  constructor
  · intro bank _
    exact (banks bank).keys_nodup.map fun i j h => (Reg.mk.inj h).2
  · have hdistinct : captured.Pairwise (· ≠ ·) := by decide
    refine hdistinct.imp fun {b c} hne => ?_
    simp only [Function.onFun,List.disjoint_left,List.mem_map]
    rintro _ ⟨i,-,rfl⟩ ⟨j,-,h⟩
    exact hne (Reg.mk.inj h).1.symm

/-- A register may not stand behind one that it comes before. -/
def InOrder (a b : Reg × Dword) : Prop := a.1 ≤ b.1

instance : DecidableRel InOrder := fun a b => inferInstanceAs (Decidable (a.1 ≤ b.1))

instance : Std.Total InOrder := ⟨fun a b => le_total a.1 b.1⟩

instance : IsTrans (Reg × Dword) InOrder := ⟨fun _ _ _ => le_trans⟩

/-- Entries in order, with one for each register, increase. -/
lemma increasing_of_inOrder {entries : List (Reg × Dword)} (h : entries.Pairwise InOrder)
    (hkeys : (entries.map Prod.fst).Nodup) : entries.Pairwise fun a b => a.1 < b.1 :=
  (h.and (List.pairwise_map.mp hkeys)).imp fun hab => lt_of_le_of_ne hab.1 hab.2

abbrev RegSnapshot := Sparse Reg Dword

namespace RegSnapshot

def capture (banks : RegBank → RegTable) : RegSnapshot where
  entries := (listed banks).insertionSort InOrder
  sorted := by
    refine increasing_of_inOrder (List.pairwise_insertionSort _ _) ?_
    exact ((List.perm_insertionSort _ _).map _).nodup_iff.mpr (listed_keys_nodup banks)

/-- A capture holds what the banks hold. -/
lemma value_capture (banks : RegBank → RegTable) (r : Reg) :
    (capture banks).value r = (banks r.bank).file r.index := by
  ext value
  rw [Sparse.value,lookup_eq_some_iff (capture banks).sorted,RegTable.file,← mem_listed]
  exact (List.perm_insertionSort _ _).mem_iff

end RegSnapshot

abbrev RegChange := Change Reg Dword

/-- What a recorded draw says of the registers, with the banks it was recorded at. -/
structure DrawRegs where
  regDelta : List RegChange
  banks : RegBank → RegTable

namespace DrawRegs

/-- The contents of the four banks at the draw. -/
def contents (d : DrawRegs) (r : Reg) : Option Dword := (d.banks r.bank).file r.index

def stage (d : DrawRegs) : Stage Reg Dword := ⟨d.regDelta,d.contents⟩

end DrawRegs

structure Recorder where
  armed : Bool
  frame : ℕ
  draws : List DrawRegs
  prevRegs : RegSnapshot

/-- The banks and the recorder, with the captures that were written. -/
structure CaptureState where
  banks : RegBank → RegTable
  recorder : Recorder
  written : List (ℕ × List DrawRegs)

inductive CaptureAct where
  | setReg (base : Dword) (body : List Dword)
  | clearRegs
  | draw
  | frameBoundary (takeFrame : Bool) (frame : ℕ)
  deriving DecidableEq, Repr

namespace CaptureState

def start : CaptureState := ⟨fun _ => ∅,⟨false,0,[],.empty⟩,[]⟩

variable (s : CaptureState)

def applySetReg (base : Dword) : List Dword → CaptureState
  | [] => s
  | offset :: values =>
      let bank := bankOf base
      { s with banks := Function.update s.banks bank ((s.banks bank).write (base+offset) values) }

def clearRegs : CaptureState := { s with banks := fun _ => ∅ }

def recordDraw : CaptureState :=
  if s.recorder.armed then
    let regs := RegSnapshot.capture s.banks
    let record : DrawRegs := ⟨regs.delta s.recorder.prevRegs,s.banks⟩
    { s with recorder :=
      { s.recorder with draws := s.recorder.draws ++ [record], prevRegs := regs } }
  else s

/-- A capture ends before the next one begins. -/
def onFrameBoundary (takeFrame : Bool) (frame : ℕ) : CaptureState :=
  let s := if s.recorder.armed then
    { s with
      recorder := { s.recorder with armed := false, draws := [] }
      written := s.written ++ [(s.recorder.frame,s.recorder.draws)] }
    else s
  if takeFrame then { s with recorder := ⟨true,frame,[],.empty⟩ } else s

def step : CaptureAct → CaptureState
  | .setReg base body => s.applySetReg base body
  | .clearRegs => s.clearRegs
  | .draw => s.recordDraw
  | .frameBoundary takeFrame frame => s.onFrameBoundary takeFrame frame

def run (acts : List CaptureAct) : CaptureState := acts.foldl step start

/-- The banks as the walk of the packets has them. -/
def registers (shaders : BoundShaders) : GpuState := ⟨fun bank => (s.banks bank).file,shaders⟩

lemma bankOf_base (bank : RegBank) : bankOf bank.base = bank := by cases bank <;> decide

/-- The banks that are walked over follow the ones that the draws read. -/
theorem registers_applySetReg (shaders : BoundShaders) (bank : RegBank) (body : List Dword) :
    (s.applySetReg bank.base body).registers shaders =
      (s.registers shaders).applySetReg bank body := by
  cases body with
  | nil => rfl
  | cons offset values =>
    simp only [applySetReg,registers,GpuState.applySetReg,bankOf_base]
    congr 1
    funext bank'
    by_cases hbank : bank' = bank
    · subst hbank
      simp [RegTable.file_write]
    · simp [Function.update_of_ne hbank]

theorem registers_clearRegs (shaders : BoundShaders) :
    s.clearRegs.registers shaders = (s.registers shaders).clearRegs := by
  simp only [clearRegs,registers,GpuState.clearRegs]
  congr 1

end CaptureState

/-- The banks at each draw of the frame that is captured, and of each that was. -/
structure FrameLog where
  current : Option (ℕ × List (RegBank → RegTable))
  done : List (ℕ × List (RegBank → RegTable))

/-- A draw of a captured frame adds the banks of its moment; a boundary ends the frame. -/
def FrameLog.step (l : FrameLog) (banks : RegBank → RegTable) : CaptureAct → FrameLog
  | .draw => { l with current := l.current.map fun c => (c.1,c.2 ++ [banks]) }
  | .frameBoundary takeFrame frame =>
      ⟨if takeFrame then some (frame,[]) else none,l.done ++ l.current.toList⟩
  | _ => l

namespace CaptureState

/-- What the acts log, with the banks as they come to be. -/
def log (s : CaptureState) (l : FrameLog) : List CaptureAct → FrameLog
  | [] => l
  | act :: acts => (s.step act).log (l.step s.banks act) acts

/-- What the recorder has of the frames, but for the deltas. -/
def frames (s : CaptureState) : FrameLog where
  current :=
    if s.recorder.armed then some (s.recorder.frame,s.recorder.draws.map DrawRegs.banks) else none
  done := s.written.map fun capture => (capture.1,capture.2.map DrawRegs.banks)

lemma frames_step (s : CaptureState) (act : CaptureAct) :
    (s.step act).frames = s.frames.step s.banks act := by
  cases act with
  | setReg base body => cases body <;> rfl
  | clearRegs => rfl
  | draw => cases harmed : s.recorder.armed <;> simp [step, recordDraw, frames, FrameLog.step, harmed]
  | frameBoundary takeFrame frame =>
    cases harmed : s.recorder.armed <;> cases takeFrame <;>
      simp [step, onFrameBoundary, frames, FrameLog.step, harmed]

lemma frames_foldl (s : CaptureState) (acts : List CaptureAct) :
    (acts.foldl step s).frames = s.log s.frames acts := by
  induction acts generalizing s with
  | nil => rfl
  | cons act acts ih => rw [List.foldl_cons, ih, frames_step, log]

end CaptureState

/-- The value of a register at the draw before, in an empty file at the first. -/
def previousValue (draws : List DrawRegs) : ℕ → Reg → Option Dword
  | 0,_ => none
  | i+1,r => draws[i]?.bind fun d => d.contents r

/-- The deltas of a frame tell the registers of each of its draws. -/
structure Reconstructs (draws : List DrawRegs) : Prop where
  contents : ∀ (i : ℕ) (h : i < draws.length),
    apply (fun _ => none) ((draws.take (i+1)).flatMap DrawRegs.regDelta) = draws[i].contents
  previous : ∀ (i : ℕ) (h : i < draws.length), ∀ c ∈ draws[i].regDelta,
    c.before = previousValue draws i c.key
  distinct : ∀ d ∈ draws, (d.regDelta.map Change.key).Nodup

/-- The draws as stages from an empty file. -/
def Chained (draws : List DrawRegs) (g : Reg → Option Dword) : Prop :=
  Chain (fun _ => none) (draws.map DrawRegs.stage) g

lemma contentsBefore_stages (draws : List DrawRegs) (i : ℕ) (hi : i ≤ draws.length) :
    contentsBefore (fun _ => none) (draws.map DrawRegs.stage) i = previousValue draws i := by
  cases i with
  | zero => rfl
  | succ i =>
    have hlt : i < draws.length := hi
    funext r
    simp [contentsBefore,previousValue,hlt,DrawRegs.stage]

lemma Chained.reconstructs {draws : List DrawRegs} {g : Reg → Option Dword} (h : Chained draws g) :
    Reconstructs draws := by
  have hlength : (draws.map DrawRegs.stage).length = draws.length := by simp
  have hfollows : ∀ (i : ℕ) (hi : i < draws.length), draws[i].stage.Follows (previousValue draws i) := by
    intro i hi
    have hstage := Chain.follows h (hlength ▸ hi)
    rwa [List.getElem_map,contentsBefore_stages draws i hi.le] at hstage
  constructor
  · intro i hi
    have htake := Chain.apply_take h (hlength ▸ hi)
    rw [List.getElem_map,← List.map_take,List.flatMap_map] at htake
    exact htake
  · exact fun i hi => (hfollows i hi).before
  · intro d hd
    obtain ⟨i,hi,rfl⟩ := List.getElem_of_mem hd
    exact (hfollows i hi).distinct

/-- What the steps keep: the draws of the frame lead from an empty file to the registers of the last
one, and so did those of every frame that was written. -/
structure CaptureState.Sound (s : CaptureState) : Prop where
  current : Chained s.recorder.draws s.recorder.prevRegs.value ∨
    s.recorder.armed = false ∧ s.recorder.draws = []
  written : ∀ capture ∈ s.written, Reconstructs capture.2

namespace CaptureState.Sound

variable {s : CaptureState}

lemma reconstructs (h : s.Sound) : Reconstructs s.recorder.draws := by
  obtain hchain | ⟨-,hnone⟩ := h.current
  · exact hchain.reconstructs
  · rw [hnone]
    exact ⟨by simp,by simp,by simp⟩

lemma recordDraw (h : s.Sound) : s.recordDraw.Sound := by
  unfold CaptureState.recordDraw
  split_ifs with harmed
  · have hchain := h.current.resolve_right fun hidle => by simp [harmed] at hidle
    refine ⟨.inl ?_,h.written⟩
    let record : DrawRegs :=
      ⟨(RegSnapshot.capture s.banks).delta s.recorder.prevRegs,s.banks⟩
    have hcontents : (RegSnapshot.capture s.banks).value = record.contents :=
      funext fun r => RegSnapshot.value_capture s.banks r
    have hfollows : record.stage.Follows s.recorder.prevRegs.value := by
      have hdelta := (RegSnapshot.capture s.banks).delta_follows s.recorder.prevRegs
      rwa [hcontents] at hdelta
    have hnext := Chain.snoc hchain hfollows
    rw [show record.stage.contents = _ from hcontents.symm] at hnext
    simpa [Chained] using hnext
  · exact h

lemma onFrameBoundary (h : s.Sound) (takeFrame : Bool) (frame : ℕ) :
    (s.onFrameBoundary takeFrame frame).Sound := by
  have hclosed : ∀ capture ∈ s.written ++ [(s.recorder.frame,s.recorder.draws)],
      Reconstructs capture.2 := by
    intro capture hcapture
    obtain hcapture | hcapture := List.mem_append.mp hcapture
    · exact h.written capture hcapture
    · obtain rfl := List.mem_singleton.mp hcapture
      exact h.reconstructs
  have hstarts : Chained [] (Sparse.empty : RegSnapshot).value := rfl
  unfold CaptureState.onFrameBoundary
  cases harmed : s.recorder.armed <;> cases takeFrame
  · exact h
  · exact ⟨.inl hstarts,h.written⟩
  · exact ⟨.inr ⟨rfl,rfl⟩,hclosed⟩
  · exact ⟨.inl hstarts,hclosed⟩

/-- What a step keeps. -/
lemma step (h : s.Sound) (act : CaptureAct) : (s.step act).Sound := by
  cases act with
  | setReg base body =>
    cases body with
    | nil => exact h
    | cons offset values => exact ⟨h.current,h.written⟩
  | clearRegs => exact ⟨h.current,h.written⟩
  | draw => exact h.recordDraw
  | frameBoundary takeFrame frame => exact h.onFrameBoundary takeFrame frame

lemma foldl (h : s.Sound) (acts : List CaptureAct) : (acts.foldl CaptureState.step s).Sound := by
  induction acts generalizing s with
  | nil => exact h
  | cons act acts ih => exact ih (h.step act)

end CaptureState.Sound

/-- Over any writes, clears, draws and frames, each draw of a captured frame is recorded with the banks
of its moment, and the deltas of a frame in progress and of each frame that was written reconstruct
the registers of every draw from an empty file. -/
theorem deltas_reconstruct (acts : List CaptureAct) :
    (CaptureState.run acts).frames = CaptureState.start.log ⟨none,[]⟩ acts ∧
      Reconstructs (CaptureState.run acts).recorder.draws ∧
      ∀ capture ∈ (CaptureState.run acts).written, Reconstructs capture.2 := by
  have hstart : CaptureState.start.Sound := ⟨.inr ⟨rfl,rfl⟩,by simp [CaptureState.start]⟩
  have hsound : (CaptureState.run acts).Sound := hstart.foldl acts
  exact ⟨CaptureState.frames_foldl .start acts,hsound.reconstructs,hsound.written⟩

end Unemups4.Gnm

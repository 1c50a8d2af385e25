import Unemups4.Registers

/-! The shader and draw builders of the driver library. A register bind and a draw put packets
into a command buffer, to be executed when it is submitted; an embedded bind changes the
driver's view of the bound shaders at once and puts nothing anywhere. -/
namespace Unemups4.Gnm
open Gcn

/-- Consecutive registers of a bank, by the offset of the first. -/
structure RegRun where
  bank : RegBank
  offset : Dword
  values : List Dword
  deriving DecidableEq, Repr

namespace RegRun

def run (bank : RegBank) (absIndex : Dword) (values : List Dword) : RegRun :=
  ⟨bank,absIndex-bank.base,values⟩

def body (r : RegRun) : List Dword := r.offset :: r.values

def words (r : RegRun) : List Dword := t3Header r.bank.opcode r.body.length :: r.body

def packet (r : RegRun) : Pm4Packet := .type3 r.bank.opcode r.body.length r.body

end RegRun

lemma decode_runs (runs : List RegRun) (h : ∀ r ∈ runs, r.values.length ≤ 0x3fff) (s : List Dword) :
    decode (runs.flatMap RegRun.words ++ s) = runs.map RegRun.packet ++ decode s := by
  induction runs with
  | nil => rfl
  | cons r runs ih =>
    have hr := h r List.mem_cons_self
    have hlow : 1 ≤ r.body.length := by simp [RegRun.body]
    have hhigh : r.body.length ≤ 0x3fff+1 := by
      simp only [RegRun.body, List.length_cons]
      omega
    have hrest := ih fun r' hr' => h r' (List.mem_cons_of_mem _ hr')
    have hhead : decode (t3Header r.bank.opcode r.body.length ::
        (r.body ++ (runs.flatMap RegRun.words ++ s))) = _ := decode_type3 hlow hhigh _
    rw [List.flatMap_cons, List.append_assoc, RegRun.words, List.cons_append, hhead, hrest]
    rfl

def nopDataBlock : ℕ := 11

/-- `emit_shader_set`: the runs, then a filler of fixed length. -/
def emitShaderSet (runs : List RegRun) : List Dword :=
  runs.flatMap RegRun.words ++ t3Header itNop nopDataBlock :: List.replicate nopDataBlock 0

/-- Field `i` of a register block; a short block reads as zero. -/
def field (regs : List Dword) (i : ℕ) : Dword := regs.getD i 0

/-- The high half of a program address is always written as zero. -/
def vsRuns (regs : List Dword) : List RegRun :=
  [.run .sh 0x2c48 [field regs 0,0],
   .run .sh 0x2c4a [field regs 2,field regs 3],
   .run .context 0xa207 [field regs 6],
   .run .context 0xa1b1 [field regs 4],
   .run .context 0xa1c3 [field regs 5]]

def psRuns (regs : List Dword) : List RegRun :=
  [.run .sh 0x2c08 [field regs 0,0],
   .run .sh 0x2c0a [field regs 2,field regs 3],
   .run .context 0xa1c4 [field regs 4,field regs 5],
   .run .context 0xa1b3 [field regs 6,field regs 7],
   .run .context 0xa1b6 [field regs 8],
   .run .context 0xa1b8 [field regs 9],
   .run .context 0xa203 [field regs 10],
   .run .context 0xa08f [field regs 11]]

def setVsShader (regs : List Dword) : List Dword := emitShaderSet (vsRuns regs)

def setPsShader (regs : List Dword) : List Dword := emitShaderSet (psRuns regs)

def drawIndexAuto (indexCount : Dword) : List Dword := [t3Header itDrawIndexAuto 2,indexCount,0]

/-- The largest element the draw touches saturates. -/
def drawIndexOffset (indexOffset indexCount : Dword) : List Dword :=
  [t3Header itDrawIndexOffset2 4,
   BitVec.ofNat 32 (min (indexOffset.toNat+indexCount.toNat) (2^32-1)),indexOffset,indexCount,0]

/-- Where a builder writes: a command buffer, unless it is null or refuses the write, and the
dwords reserved there, zero for no bound. -/
structure CmdSlot where
  cmdbuf : Option ℕ
  size : BitVec 32
  deriving DecidableEq, Repr

/-- The driver and the command buffers. Each builder is handed the end of its buffer. -/
structure Driver where
  state : GpuState
  buffers : ℕ → List Dword

def maxDrawReservedDwords : ℕ := 0x1000

namespace Driver

variable (d : Driver)

/-- A slot too small for the packets is left alone. -/
def emitIntoCmdbuf (slot : CmdSlot) (pm4 : List Dword) : Driver :=
  match slot.cmdbuf with
  | none => d
  | some b =>
      if slot.size ≠ 0 ∧ slot.size.toNat < pm4.length then d
      else { d with
        buffers := Function.update d.buffers b (d.buffers b ++ padToReserved pm4 slot.size) }

def emitDrawIntoCmdbuf (slot : CmdSlot) (pm4 : List Dword) : Driver :=
  if maxDrawReservedDwords < slot.size.toNat then d else d.emitIntoCmdbuf slot pm4

def bindEmbedded (stage : ShaderStage) (id : ℕ) : Driver :=
  { d with state := d.state.bindEmbeddedShader stage id }

/-- An unreadable register block leaves everything as it is; a readable one ends the embedded
bind of the stage, also when the packets do not fit. -/
def setShader (stage : ShaderStage) (emit : List Dword → List Dword) (slot : CmdSlot) :
    Option (List Dword) → Driver
  | none => d
  | some regs =>
      { d with state := d.state.unbindEmbeddedShader stage }.emitIntoCmdbuf slot (emit regs)

def sceGnmSetEmbeddedVsShader (id : ℕ) : Driver := d.bindEmbedded .vertex id

def sceGnmSetEmbeddedPsShader (id : ℕ) : Driver := d.bindEmbedded .pixel id

def sceGnmSetVsShader (slot : CmdSlot) (regs : Option (List Dword)) : Driver :=
  d.setShader .vertex setVsShader slot regs

def sceGnmSetPsShader (slot : CmdSlot) (regs : Option (List Dword)) : Driver :=
  d.setShader .pixel setPsShader slot regs

def sceGnmSetPsShader350 (slot : CmdSlot) (regs : Option (List Dword)) : Driver :=
  d.setShader .pixel setPsShader slot regs

def sceGnmUpdatePsShader350 (slot : CmdSlot) (regs : Option (List Dword)) : Driver :=
  d.setShader .pixel setPsShader slot regs

def sceGnmUpdateVsShader (slot : CmdSlot) (regs : Option (List Dword)) : Driver :=
  d.setShader .vertex setVsShader slot regs

def sceGnmDrawIndexAuto (slot : CmdSlot) (indexCount : Dword) : Driver :=
  d.emitDrawIntoCmdbuf slot (drawIndexAuto indexCount)

def sceGnmDrawIndexOffset (slot : CmdSlot) (indexOffset indexCount : Dword) : Driver :=
  d.emitDrawIntoCmdbuf slot (drawIndexOffset indexOffset indexCount)

end Driver

/-- The builder calls. An embedded bind ignores the slot it is given. -/
inductive Call where
  | setEmbeddedVsShader (slot : CmdSlot) (id : ℕ)
  | setEmbeddedPsShader (slot : CmdSlot) (id : ℕ)
  | setVsShader (slot : CmdSlot) (regs : Option (List Dword))
  | setPsShader (slot : CmdSlot) (regs : Option (List Dword))
  | setPsShader350 (slot : CmdSlot) (regs : Option (List Dword))
  | updatePsShader350 (slot : CmdSlot) (regs : Option (List Dword))
  | updateVsShader (slot : CmdSlot) (regs : Option (List Dword))
  | drawIndexAuto (slot : CmdSlot) (indexCount : Dword)
  | drawIndexOffset (slot : CmdSlot) (indexOffset indexCount : Dword)
  deriving DecidableEq, Repr

/-- A submission names its command buffers in the order they are executed: of each pair the
draw buffer, then the constant buffer. -/
inductive Event where
  | call (c : Call)
  | submit (buffers : List ℕ)
  deriving DecidableEq, Repr

namespace Driver

def call (d : Driver) : Call → Driver
  | .setEmbeddedVsShader _ id => d.sceGnmSetEmbeddedVsShader id
  | .setEmbeddedPsShader _ id => d.sceGnmSetEmbeddedPsShader id
  | .setVsShader slot regs => d.sceGnmSetVsShader slot regs
  | .setPsShader slot regs => d.sceGnmSetPsShader slot regs
  | .setPsShader350 slot regs => d.sceGnmSetPsShader350 slot regs
  | .updatePsShader350 slot regs => d.sceGnmUpdatePsShader350 slot regs
  | .updateVsShader slot regs => d.sceGnmUpdateVsShader slot regs
  | .drawIndexAuto slot count => d.sceGnmDrawIndexAuto slot count
  | .drawIndexOffset slot offset count => d.sceGnmDrawIndexOffset slot offset count

/-- One walk after another over the banks that span submissions. -/
def submit (d : Driver) (buffers : List ℕ) : Driver × List BoundShaders :=
  let r := d.state.execute (buffers.flatMap fun b => decode (d.buffers b))
  ({ d with state := r.1 },r.2)

def step (d : Driver) : Event → Driver × List BoundShaders
  | .call c => (d.call c,[])
  | .submit buffers => d.submit buffers

/-- The shaders of every draw, in the order of execution. -/
def run (d : Driver) : List Event → Driver × List BoundShaders
  | [] => (d,[])
  | e :: es =>
      let r := d.step e
      let r' := r.1.run es
      (r'.1,r.2 ++ r'.2)

/-- No shader bound and no packet built yet. -/
def start (banks : RegBank → RegFile) : Driver := ⟨⟨banks,.none⟩,fun _ => []⟩

end Driver

/-- What a call leaves in the stream of its command buffer. -/
inductive Item where
  | embedded (stage : ShaderStage) (id : ℕ)
  | program (stage : ShaderStage) (regs : List Dword)
  | draw
  deriving DecidableEq, Repr

namespace CmdSlot

/-- The buffer that packets of this length go to. -/
def accepts (slot : CmdSlot) (len : ℕ) : Option ℕ :=
  if slot.size ≠ 0 ∧ slot.size.toNat < len then none else slot.cmdbuf

def acceptsDraw (slot : CmdSlot) (len : ℕ) : Option ℕ :=
  if maxDrawReservedDwords < slot.size.toNat then none else slot.accepts len

end CmdSlot

namespace Call

/-- The stage a shader call binds, with the embedded shader if it is one. -/
def route : Call → Option (ShaderStage × Option ℕ)
  | .setEmbeddedVsShader _ id => some (.vertex,some id)
  | .setEmbeddedPsShader _ id => some (.pixel,some id)
  | .setVsShader _ regs | .updateVsShader _ regs => regs.map fun _ => (.vertex,none)
  | .setPsShader _ regs | .setPsShader350 _ regs | .updatePsShader350 _ regs =>
      regs.map fun _ => (.pixel,none)
  | .drawIndexAuto _ _ | .drawIndexOffset _ _ _ => none

def itemOf (stage : ShaderStage) (len : ℕ) (slot : CmdSlot) (regs : Option (List Dword)) :
    Option (ℕ × Item) :=
  regs.bind fun regs => (slot.accepts len).map fun b => (b,.program stage regs)

/-- The place of a call in the streams. -/
def item : Call → Option (ℕ × Item)
  | .setEmbeddedVsShader slot id => slot.cmdbuf.map fun b => (b,.embedded .vertex id)
  | .setEmbeddedPsShader slot id => slot.cmdbuf.map fun b => (b,.embedded .pixel id)
  | .setVsShader slot regs | .updateVsShader slot regs => itemOf .vertex 29 slot regs
  | .setPsShader slot regs | .setPsShader350 slot regs | .updatePsShader350 slot regs =>
      itemOf .pixel 40 slot regs
  | .drawIndexAuto slot _ => (slot.acceptsDraw 3).map fun b => (b,.draw)
  | .drawIndexOffset slot _ _ => (slot.acceptsDraw 5).map fun b => (b,.draw)

end Call

/-- The streams after a call that may leave an item. -/
def pushItem (streams : ℕ → List Item) : Option (ℕ × Item) → ℕ → List Item
  | some (b,i) => Function.update streams b (streams b ++ [i])
  | none => streams

/-- The calls made, the streams built from them, and what was executed of these. -/
structure History where
  calls : List Call
  streams : ℕ → List Item
  executed : List Item

namespace History

def start : History := ⟨[],fun _ => [],[]⟩

def record (h : History) (c : Call) : History where
  calls := h.calls ++ [c]
  streams := pushItem h.streams c.item
  executed := h.executed

/-- The shaders of the draws of a stream, by what stands before each of them. -/
def drawsAlong (bound : List Item → BoundShaders) (before : List Item) :
    List Item → List BoundShaders
  | [] => []
  | i :: items =>
      let rest := drawsAlong bound (before ++ [i]) items
      if i = .draw then bound before :: rest else rest

def step (bound : List Call → List Item → BoundShaders) (h : History) :
    Event → History × List BoundShaders
  | .call c => (h.record c,[])
  | .submit buffers =>
      let items := buffers.flatMap h.streams
      ({ h with executed := h.executed ++ items },drawsAlong (bound h.calls) h.executed items)

def run (bound : List Call → List Item → BoundShaders) (h : History) : List Event → List BoundShaders
  | [] => []
  | e :: es => (h.step bound e).2 ++ (h.step bound e).1.run bound es

end History

/-- What a shader item of the stage binds. -/
def Item.shader (stage : ShaderStage) : Item → Option (ℕ ⊕ List Dword)
  | .embedded st id => if st = stage then some (.inl id) else none
  | .program st regs => if st = stage then some (.inr regs) else none
  | .draw => none

def Item.programOf (stage : ShaderStage) (i : Item) : Option (List Dword) :=
  (i.shader stage).bind Sum.getRight?

/-- The last shader of the stage in a stream. -/
def lastShader (stage : ShaderStage) (items : List Item) : Option (ℕ ⊕ List Dword) :=
  items.reverse.findSome? (·.shader stage)

/-- The last register bind of the stage in a stream. -/
def lastProgram (stage : ShaderStage) (items : List Item) : Option (List Dword) :=
  items.reverse.findSome? (·.programOf stage)

def Call.routeOf (stage : ShaderStage) (c : Call) : Option (Option ℕ) :=
  c.route.bind fun r => if r.1 = stage then some r.2 else none

/-- The last shader call of the stage, in the order the calls were made. -/
def lastRoute (stage : ShaderStage) (calls : List Call) : Option (Option ℕ) :=
  calls.reverse.findSome? (·.routeOf stage)

/-- The program of a register block, or the one the banks name at the start. -/
def programRef (banks : RegBank → RegFile) (stage : ShaderStage) :
    Option (List Dword) → Option ShaderRef
  | none => GpuState.gcnRefFromRegs ⟨banks,.none⟩ stage
  | some regs => some (.gcnBinary ⟨pgmAddr (field regs 0) 0,
      GpuState.fetchAddr ⟨banks,.none⟩ stage,GpuState.psInputMap ⟨banks,.none⟩ stage⟩)

/-- The shader set by the last shader call before the draw in the streams. -/
def streamShader (banks : RegBank → RegFile) (items : List Item) (stage : ShaderStage) :
    Option ShaderRef :=
  match lastShader stage items with
  | some (.inl id) => some (.embedded stage id)
  | some (.inr regs) => programRef banks stage (some regs)
  | none => programRef banks stage none

/-- The embedded shader if the last shader call made is an embedded bind, else the program of
the last register bind before the draw in the streams. -/
def routedShader (banks : RegBank → RegFile) (calls : List Call) (items : List Item)
    (stage : ShaderStage) : Option ShaderRef :=
  match lastRoute stage calls with
  | some (some id) => some (.embedded stage id)
  | _ => programRef banks stage (lastProgram stage items)

def streamBound (banks : RegBank → RegFile) (_ : List Call) (items : List Item) : BoundShaders :=
  ⟨streamShader banks items .vertex,streamShader banks items .pixel⟩

def routedBound (banks : RegBank → RegFile) (calls : List Call) (items : List Item) :
    BoundShaders :=
  ⟨routedShader banks calls items .vertex,routedShader banks calls items .pixel⟩

end Unemups4.Gnm

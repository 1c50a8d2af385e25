import Unemups4.ShaderBinds

/-! Each command buffer holds the packets of the calls built into it, and a submission gives
each draw the shaders of the routes: the driver's view of the calls made first, then the
registers of the packets executed. -/
namespace Unemups4.Gnm
open Gcn

namespace RegRun

lemma isDraw_packet (r : RegRun) : r.packet.isDraw = false := by
  obtain ⟨bank,offset,values⟩ := r
  cases bank <;> rfl

end RegRun

lemma setRegBank_opcode (bank : RegBank) : setRegBank bank.opcode = some bank := by
  cases bank <;> rfl

namespace GpuState

/-- The banks after a list of runs. -/
def applyRuns (s : GpuState) (runs : List RegRun) : GpuState :=
  runs.foldl (fun s r => s.applySetReg r.bank r.body) s

lemma execute_runs (s : GpuState) (runs : List RegRun) :
    s.execute (runs.map RegRun.packet) = (s.applyRuns runs,[]) := by
  induction runs generalizing s with
  | nil => rfl
  | cons r runs ih =>
    have hwrite : s.writePacket r.packet = s.applySetReg r.bank r.body := by
      simp only [writePacket, RegRun.packet, setRegBank_opcode]
    simp only [List.map_cons, execute, hwrite, ih, r.isDraw_packet]
    rfl

end GpuState

/-- Packets that neither write a register nor draw. -/
def Idle (packets : List Pm4Packet) : Prop := ∀ s : GpuState, s.execute packets = (s,[])

lemma idle_nop (len : ℕ) (body : List Dword) : Idle [.type3 itNop len body] := fun _ => rfl

lemma idle_filler (gap : ℕ) : Idle [filler gap] := by
  unfold filler
  split_ifs
  · exact fun _ => rfl
  · exact idle_nop _ _

/-- Packets whose execution is that of the given ones. -/
def Means (words : List Dword) (packets : List Pm4Packet) : Prop :=
  Complete words ∧ ∀ s : GpuState, s.execute (decode words) = s.execute packets

lemma Means.append {ws vs : List Dword} {ps qs : List Pm4Packet} (hw : Means ws ps)
    (hv : Means vs qs) : Means (ws ++ vs) (ps ++ qs) := by
  refine ⟨hw.1.append hv.1,fun s => ?_⟩
  rw [decode_append hw.1, GpuState.execute_append, GpuState.execute_append, hw.2, hv.2]

lemma means_nil : Means [] [] := ⟨by decide,fun _ => rfl⟩

lemma means_type3 (opcode : BitVec 8) (body : List Dword) (h1 : 1 ≤ body.length)
    (h2 : body.length ≤ 0x3fff+1) :
    Means (t3Header opcode body.length :: body) [.type3 opcode body.length body] := by
  have hdecode : decode (t3Header opcode body.length :: (body ++ [])) = _ := decode_type3 h1 h2 []
  rw [List.append_nil, decode_nil] at hdecode
  refine ⟨?_,fun s => by rw [hdecode]⟩
  intro packet hp
  rw [hdecode, List.mem_singleton] at hp
  rw [hp]
  rfl

lemma means_run (r : RegRun) (h : r.values.length ≤ 0x3fff) : Means r.words [r.packet] := by
  refine means_type3 _ r.body ?_ ?_
  · simp [RegRun.body]
  · simp only [RegRun.body, List.length_cons]
    omega

lemma means_runs (runs : List RegRun) (h : ∀ r ∈ runs, r.values.length ≤ 0x3fff) :
    Means (runs.flatMap RegRun.words) (runs.map RegRun.packet) := by
  induction runs with
  | nil => exact means_nil
  | cons r runs ih =>
    have hr := means_run r (h r List.mem_cons_self)
    exact hr.append (ih fun r' hr' => h r' (List.mem_cons_of_mem _ hr'))

/-- The filler at the end of a packet list changes nothing. -/
lemma Means.append_idle {ws vs : List Dword} {ps : List Pm4Packet} (hw : Means ws ps)
    (hv : Complete vs) (hidle : Idle (decode vs)) : Means (ws ++ vs) ps := by
  have h := hw.append (⟨hv,fun s => hidle s⟩ : Means vs [])
  rwa [List.append_nil] at h

lemma means_emitShaderSet (runs : List RegRun) (h : ∀ r ∈ runs, r.values.length ≤ 0x3fff) :
    Means (emitShaderSet runs) (runs.map RegRun.packet) := by
  refine (means_runs runs h).append_idle ?_ ?_
  · decide
  · exact idle_nop nopDataBlock (List.replicate nopDataBlock 0)

/-- Padding changes nothing either. -/
lemma Means.pad {ws : List Dword} {ps : List Pm4Packet} (hw : Means ws ps) (reserved : BitVec 32) :
    Means (padToReserved ws reserved) ps := by
  obtain ⟨hfits,hkeeps⟩ := decode_padToReserved hw.1 reserved []
  by_cases hfit : ws.length ≤ reserved.toNat ∧ reserved.toNat-ws.length ≤ maxNopFillDwords
  · obtain ⟨-,hdecode⟩ := hfits hfit
    rw [List.append_nil, decode_nil, List.append_nil] at hdecode
    refine ⟨?_,fun s => ?_⟩
    · intro packet hp
      rw [hdecode, List.mem_append] at hp
      rcases hp with hp | hp
      · exact hw.1 packet hp
      · split_ifs at hp with hfull
        · exact absurd hp List.not_mem_nil
        · rw [List.mem_singleton.mp hp, filler]
          split_ifs <;> rfl
    · rw [hdecode, GpuState.execute_append, hw.2]
      split_ifs
      · simp [GpuState.execute]
      · simp [idle_filler _ _]
  · rw [hkeeps hfit]
    exact hw

lemma means_drawIndexAuto (count : Dword) :
    Means (drawIndexAuto count) [.type3 itDrawIndexAuto 2 [count,0]] :=
  means_type3 itDrawIndexAuto [count,0] (by simp) (by simp)

lemma means_drawIndexOffset (offset count : Dword) : ∃ body,
    Means (drawIndexOffset offset count) [.type3 itDrawIndexOffset2 4 body] :=
  ⟨_,means_type3 itDrawIndexOffset2 [_,offset,count,0] (by simp) (by simp)⟩

/-- The runs of a register bind. -/
def stageRuns : ShaderStage → List Dword → List RegRun
  | .vertex => vsRuns
  | .pixel => psRuns

def setStageShader : ShaderStage → List Dword → List Dword
  | .vertex => setVsShader
  | .pixel => setPsShader

lemma means_setStageShader (stage : ShaderStage) (regs : List Dword) :
    Means (setStageShader stage regs) ((stageRuns stage regs).map RegRun.packet) := by
  cases stage with
  | vertex => exact means_emitShaderSet (vsRuns regs) (by simp [vsRuns, RegRun.run])
  | pixel => exact means_emitShaderSet (psRuns regs) (by simp [psRuns, RegRun.run])

lemma length_setStageShader (stage : ShaderStage) (regs : List Dword) :
    (setStageShader stage regs).length = match stage with
      | .vertex => 29
      | .pixel => 40 := by
  cases stage <;> rfl

namespace GpuState

variable (s : GpuState) (stage : ShaderStage) (regs : List Dword)

/-- The banks after a register bind. -/
def program : GpuState := s.applyRuns (stageRuns stage regs)

@[simp] lemma program_shaders : (s.program stage regs).shaders = s.shaders := by
  cases stage <;> rfl

/-- The program registers of the stage hold the block's, those of the other stage are kept. -/
lemma program_pgm (stage' : ShaderStage) :
    (s.program stage regs).banks .sh (pgmLo stage') =
        (if stage' = stage then some (field regs 0) else s.banks .sh (pgmLo stage')) ∧
      (s.program stage regs).banks .sh (pgmHi stage') =
        (if stage' = stage then some 0 else s.banks .sh (pgmHi stage')) := by
  cases stage <;> cases stage' <;> constructor <;> rfl

lemma program_fetchAddr (stage' : ShaderStage) :
    (s.program stage regs).fetchAddr stage' = s.fetchAddr stage' := by
  cases stage <;> cases stage' <;> rfl

/-- The context registers of a register bind. -/
def contextRegs : ShaderStage → List Dword
  | .vertex => [0xa207#32,0xa1b1#32,0xa1c3#32]
  | .pixel => [0xa1c4#32,0xa1c5#32,0xa1b3#32,0xa1b4#32,0xa1b6#32,0xa1b8#32,0xa203#32,0xa08f#32]

lemma program_context {reg : Dword} (h : reg ∉ contextRegs stage) :
    (s.program stage regs).banks .context reg = s.banks .context reg := by
  cases stage with
  | vertex =>
    simp only [contextRegs, List.mem_cons, List.not_mem_nil, or_false, not_or] at h
    simp [program, applyRuns, stageRuns, vsRuns, RegRun.run, RegRun.body, applySetReg,
      RegFile.write, RegBank.base, h]
  | pixel =>
    simp only [contextRegs, List.mem_cons, List.not_mem_nil, or_false, not_or] at h
    simp [program, applyRuns, stageRuns, psRuns, RegRun.run, RegRun.body, applySetReg,
      RegFile.write, RegBank.base, h]

/-- No register bind writes an input routing. -/
lemma inputCntl_not_mem : ∀ n < ShaderRef.psInputSlots,
    psInputCntl0+BitVec.ofNat 32 n ∉ contextRegs stage := by
  cases stage <;> decide

lemma program_psInputMap (stage' : ShaderStage) :
    (s.program stage regs).psInputMap stage' = s.psInputMap stage' := by
  cases stage' with
  | vertex => rfl
  | pixel =>
    simp only [psInputMap]
    refine List.map_congr_left fun n hn => ?_
    rw [s.program_context stage regs (inputCntl_not_mem stage n (List.mem_range.mp hn))]

end GpuState

namespace GpuState

/-- What the packets of a stream do to the banks; an embedded bind has none. -/
def executeItems (s : GpuState) : List Item → GpuState × List BoundShaders
  | [] => (s,[])
  | .embedded _ _ :: items => s.executeItems items
  | .program stage regs :: items => (s.program stage regs).executeItems items
  | .draw :: items =>
      let r := s.executeItems items
      (r.1,s.deriveBoundShaders :: r.2)

lemma executeItems_append (s : GpuState) (xs ys : List Item) :
    s.executeItems (xs ++ ys) = (((s.executeItems xs).1.executeItems ys).1,
      (s.executeItems xs).2 ++ ((s.executeItems xs).1.executeItems ys).2) := by
  induction xs generalizing s with
  | nil => rfl
  | cons i xs ih =>
    cases i with
    | embedded stage id => exact ih s
    | program stage regs => exact ih (s.program stage regs)
    | draw => simp only [List.cons_append, executeItems, ih]

end GpuState

/-- A command buffer holds the packets of a stream. -/
def Holds (words : List Dword) (items : List Item) : Prop :=
  Complete words ∧ ∀ s : GpuState, s.execute (decode words) = s.executeItems items

lemma holds_nil : Holds [] [] := ⟨by decide,fun _ => rfl⟩

lemma Means.holds {ws : List Dword} {ps : List Pm4Packet} {items : List Item} (h : Means ws ps)
    (hitems : ∀ s : GpuState, s.execute ps = s.executeItems items) : Holds ws items :=
  ⟨h.1,fun s => (h.2 s).trans (hitems s)⟩

lemma Holds.append {ws vs : List Dword} {xs ys : List Item} (hw : Holds ws xs) (hv : Holds vs ys) :
    Holds (ws ++ vs) (xs ++ ys) := by
  refine ⟨hw.1.append hv.1,fun s => ?_⟩
  rw [decode_append hw.1, GpuState.execute_append, GpuState.executeItems_append, hw.2, hv.2]

lemma holds_setStageShader (stage : ShaderStage) (regs : List Dword) (reserved : BitVec 32) :
    Holds (padToReserved (setStageShader stage regs) reserved) [.program stage regs] :=
  ((means_setStageShader stage regs).pad reserved).holds fun s => s.execute_runs _

lemma holds_drawIndexAuto (count : Dword) (reserved : BitVec 32) :
    Holds (padToReserved (drawIndexAuto count) reserved) [.draw] :=
  ((means_drawIndexAuto count).pad reserved).holds fun _ => rfl

lemma holds_drawIndexOffset (offset count : Dword) (reserved : BitVec 32) :
    Holds (padToReserved (drawIndexOffset offset count) reserved) [.draw] := by
  obtain ⟨body,hbody⟩ := means_drawIndexOffset offset count
  exact (hbody.pad reserved).holds fun _ => rfl

lemma holds_emit {d : Driver} {streams : ℕ → List Item} {slot : CmdSlot} {pm4 : List Dword} {i : Item}
    (h : ∀ b, Holds (d.buffers b) (streams b)) (hpm4 : Holds (padToReserved pm4 slot.size) [i]) (b : ℕ) :
    Holds ((d.emitIntoCmdbuf slot pm4).buffers b)
      (pushItem streams ((slot.accepts pm4.length).map fun b => (b,i)) b) := by
  unfold Driver.emitIntoCmdbuf CmdSlot.accepts
  cases hbuf : slot.cmdbuf with
  | none =>
    have hnone : (if slot.size ≠ 0 ∧ slot.size.toNat < pm4.length then none else none) =
        (none : Option ℕ) := ite_self _
    rw [hnone]
    exact h b
  | some b' =>
    dsimp only
    split_ifs
    · exact h b
    · simp only [Option.map_some, pushItem, Function.update_apply]
      split_ifs
      · exact (h b').append hpm4
      · exact h b

lemma holds_embedded {buffers : ℕ → List Dword} {streams : ℕ → List Item}
    (h : ∀ b, Holds (buffers b) (streams b)) (stage : ShaderStage) (id : ℕ) (slot : Option ℕ) (b : ℕ) :
    Holds (buffers b) (pushItem streams (slot.map fun b => (b,.embedded stage id)) b) := by
  cases slot with
  | none => exact h b
  | some b' =>
    simp only [Option.map_some, pushItem, Function.update_apply]
    split_ifs with hb
    · have hempty : Holds [] [.embedded stage id] := ⟨by decide,fun _ => rfl⟩
      have happ := (h b').append hempty
      rw [List.append_nil] at happ
      rw [hb]
      exact happ
    · exact h b

lemma holds_setShader {d : Driver} {streams : ℕ → List Item}
    (h : ∀ b, Holds (d.buffers b) (streams b)) (stage : ShaderStage) (slot : CmdSlot)
    (regs : Option (List Dword)) {len : ℕ} (hlen : ∀ regs, (setStageShader stage regs).length = len)
    (b : ℕ) : Holds ((d.setShader stage (setStageShader stage) slot regs).buffers b)
      (pushItem streams (Call.itemOf stage len slot regs) b) := by
  cases regs with
  | none => exact h b
  | some regs =>
    have hemit := holds_emit (d := { d with state := d.state.unbindEmbeddedShader stage }) h
      (holds_setStageShader stage regs slot.size) b
    rw [hlen regs] at hemit
    exact hemit

lemma holds_draw {d : Driver} {streams : ℕ → List Item} (h : ∀ b, Holds (d.buffers b) (streams b))
    {slot : CmdSlot} {pm4 : List Dword} (hpm4 : Holds (padToReserved pm4 slot.size) [.draw]) (b : ℕ) :
    Holds ((d.emitDrawIntoCmdbuf slot pm4).buffers b)
      (pushItem streams ((slot.acceptsDraw pm4.length).map fun b => (b,.draw)) b) := by
  unfold Driver.emitDrawIntoCmdbuf CmdSlot.acceptsDraw
  split_ifs
  · exact h b
  · exact holds_emit h hpm4 b

/-- Each buffer holds the packets of its stream after a call too. -/
lemma holds_call {d : Driver} {streams : ℕ → List Item} (h : ∀ b, Holds (d.buffers b) (streams b))
    (c : Call) (b : ℕ) : Holds ((d.call c).buffers b) (pushItem streams c.item b) := by
  cases c with
  | setEmbeddedVsShader slot id => exact holds_embedded h .vertex id slot.cmdbuf b
  | setEmbeddedPsShader slot id => exact holds_embedded h .pixel id slot.cmdbuf b
  | setVsShader slot regs | updateVsShader slot regs =>
    exact holds_setShader h .vertex slot regs (length_setStageShader .vertex) b
  | setPsShader slot regs | setPsShader350 slot regs | updatePsShader350 slot regs =>
    exact holds_setShader h .pixel slot regs (length_setStageShader .pixel) b
  | drawIndexAuto slot count => exact holds_draw h (holds_drawIndexAuto count slot.size) b
  | drawIndexOffset slot offset count =>
    exact holds_draw h (holds_drawIndexOffset offset count slot.size) b

/-- What the driver's view holds for a stage. -/
def shadowOf (stage : ShaderStage) : Option (Option ℕ) → Option ShaderRef
  | some (some id) => some (.embedded stage id)
  | _ => none

lemma lastRoute_append (stage : ShaderStage) (calls : List Call) (c : Call) :
    lastRoute stage (calls ++ [c]) = (c.routeOf stage).or (lastRoute stage calls) := by
  simp [lastRoute, List.findSome?_cons]
  cases c.routeOf stage <;> rfl

lemma lastProgram_append (stage : ShaderStage) (items : List Item) (i : Item) :
    lastProgram stage (items ++ [i]) = (i.programOf stage).or (lastProgram stage items) := by
  simp [lastProgram, List.findSome?_cons]
  cases i.programOf stage <;> rfl

lemma emitIntoCmdbuf_state (d : Driver) (slot : CmdSlot) (pm4 : List Dword) :
    (d.emitIntoCmdbuf slot pm4).state = d.state := by
  unfold Driver.emitIntoCmdbuf
  split
  · rfl
  · split_ifs <;> rfl

lemma emitDrawIntoCmdbuf_state (d : Driver) (slot : CmdSlot) (pm4 : List Dword) :
    (d.emitDrawIntoCmdbuf slot pm4).state = d.state := by
  unfold Driver.emitDrawIntoCmdbuf
  split_ifs
  · rfl
  · exact emitIntoCmdbuf_state d slot pm4

lemma setShader_state (d : Driver) (stage : ShaderStage) (emit : List Dword → List Dword)
    (slot : CmdSlot) (regs : Option (List Dword)) :
    (d.setShader stage emit slot regs).state =
      if regs.isSome then d.state.unbindEmbeddedShader stage else d.state := by
  cases regs with
  | none => rfl
  | some regs => exact emitIntoCmdbuf_state _ _ _

/-- A call changes the view of its own stage alone, and no register. -/
lemma call_state (d : Driver) (c : Call) : (d.call c).state.banks = d.state.banks ∧
    ∀ stage, (d.call c).state.shaders.get stage = match c.routeOf stage with
      | some r => shadowOf stage (some r)
      | none => d.state.shaders.get stage := by
  cases c with
  | setEmbeddedVsShader slot id | setEmbeddedPsShader slot id =>
    exact ⟨rfl,fun stage => by cases stage <;> rfl⟩
  | setVsShader slot regs | updateVsShader slot regs | setPsShader slot regs
  | setPsShader350 slot regs | updatePsShader350 slot regs =>
    simp only [Driver.call, Driver.sceGnmSetVsShader, Driver.sceGnmUpdateVsShader,
      Driver.sceGnmSetPsShader, Driver.sceGnmSetPsShader350, Driver.sceGnmUpdatePsShader350,
      setShader_state]
    cases regs with
    | none => exact ⟨rfl,fun stage => by cases stage <;> rfl⟩
    | some regs => exact ⟨rfl,fun stage => by cases stage <;> rfl⟩
  | drawIndexAuto slot count | drawIndexOffset slot offset count =>
    simp only [Driver.call, Driver.sceGnmDrawIndexAuto, Driver.sceGnmDrawIndexOffset,
      emitDrawIntoCmdbuf_state]
    exact ⟨trivial,fun stage => rfl⟩

/-- The banks name the programs of the last register binds; what else a draw derives is as at
the start. -/
structure Programmed (banks : RegBank → RegFile) (s : GpuState) (items : List Item) : Prop where
  program : ∀ stage, s.gcnRefFromRegs stage = programRef banks stage (lastProgram stage items)
  fetch : ∀ stage, s.fetchAddr stage = GpuState.fetchAddr ⟨banks,.none⟩ stage
  inputs : ∀ stage, s.psInputMap stage = GpuState.psInputMap ⟨banks,.none⟩ stage

namespace Programmed

variable {banks : RegBank → RegFile} {s s' : GpuState} {items : List Item}

lemma congr (h : Programmed banks s items) (hb : s'.banks = s.banks) : Programmed banks s' items := by
  obtain ⟨b,shaders⟩ := s
  obtain ⟨b',shaders'⟩ := s'
  obtain rfl : b' = b := hb
  exact ⟨h.program,h.fetch,h.inputs⟩

lemma idle (h : Programmed banks s items) {i : Item} (hi : ∀ stage, i.programOf stage = none) :
    Programmed banks s (items ++ [i]) := by
  refine ⟨fun stage => ?_,h.fetch,h.inputs⟩
  rw [lastProgram_append, hi stage, Option.none_or]
  exact h.program stage

lemma set (h : Programmed banks s items) (stage : ShaderStage) (regs : List Dword) :
    Programmed banks (s.program stage regs) (items ++ [.program stage regs]) := by
  have hfetch : ∀ stage', (s.program stage regs).fetchAddr stage' =
      GpuState.fetchAddr ⟨banks,.none⟩ stage' := fun stage' =>
    (s.program_fetchAddr stage regs stage').trans (h.fetch stage')
  have hinputs : ∀ stage', (s.program stage regs).psInputMap stage' =
      GpuState.psInputMap ⟨banks,.none⟩ stage' := fun stage' =>
    (s.program_psInputMap stage regs stage').trans (h.inputs stage')
  refine ⟨fun stage' => ?_,hfetch,hinputs⟩
  obtain ⟨hlo,hhi⟩ := s.program_pgm stage regs stage'
  by_cases hstage : stage' = stage
  · subst hstage
    have hlast : lastProgram stage' (items ++ [.program stage' regs]) = some regs := by
      rw [lastProgram_append]
      simp [Item.programOf, Item.shader]
    rw [if_pos rfl] at hlo hhi
    rw [hlast, GpuState.gcnRefFromRegs, hlo, hhi, hfetch, hinputs]
    rfl
  · have hlast : lastProgram stage' (items ++ [.program stage regs]) = lastProgram stage' items := by
      rw [lastProgram_append]
      simp [Item.programOf, Item.shader, Ne.symm hstage]
    rw [if_neg hstage] at hlo hhi
    rw [hlast, ← h.program stage', GpuState.gcnRefFromRegs, GpuState.gcnRefFromRegs, hlo, hhi,
      hfetch, hinputs, h.fetch, h.inputs]

/-- The shaders a draw derives. -/
lemma derive (h : Programmed banks s items) {calls : List Call}
    (hshadow : ∀ stage, s.shaders.get stage = shadowOf stage (lastRoute stage calls)) :
    s.deriveBoundShaders = routedBound banks calls items := by
  have hstage : ∀ stage, s.deriveStage stage = routedShader banks calls items stage := by
    intro stage
    have hnone : ∀ x : Option ShaderRef, (x <|> none) = x := by
      rintro (_ | r) <;> rfl
    unfold GpuState.deriveStage routedShader
    rw [hshadow, h.program]
    cases lastRoute stage calls with
    | none => exact hnone _
    | some r =>
      cases r with
      | none => exact hnone _
      | some id => rfl
  simp only [GpuState.deriveBoundShaders, hstage, routedBound]

/-- A stream executed on. -/
lemma executeItems (h : Programmed banks s items) {calls : List Call}
    (hshadow : ∀ stage, s.shaders.get stage = shadowOf stage (lastRoute stage calls))
    (more : List Item) :
    Programmed banks (s.executeItems more).1 (items ++ more) ∧
      (s.executeItems more).1.shaders = s.shaders ∧
      (s.executeItems more).2 = History.drawsAlong (routedBound banks calls) items more := by
  induction more generalizing s items with
  | nil =>
    rw [List.append_nil]
    exact ⟨h,rfl,rfl⟩
  | cons i more ih =>
    have hsplit : items ++ i :: more = items ++ [i] ++ more := by simp
    rw [hsplit]
    cases i with
    | embedded stage id =>
      have hidle : Programmed banks s (items ++ [.embedded stage id]) := by
        refine h.idle fun stage' => ?_
        simp only [Item.programOf, Item.shader]
        split_ifs <;> rfl
      exact ih hidle hshadow
    | program stage regs =>
      obtain ⟨hprog,hsame,hdraws⟩ := ih (h.set stage regs) (by simpa using hshadow)
      exact ⟨hprog,hsame.trans (s.program_shaders stage regs),hdraws⟩
    | draw =>
      obtain ⟨hprog,hsame,hdraws⟩ := ih (h.idle (i := .draw) fun _ => rfl) hshadow
      refine ⟨hprog,hsame,?_⟩
      have hnow := h.derive hshadow
      simp only [GpuState.executeItems, History.drawsAlong, if_true, hdraws, hnow]

end Programmed

/-- The driver stands where the history says. -/
structure Tracks (banks : RegBank → RegFile) (d : Driver) (h : History) : Prop where
  shadow : ∀ stage, d.state.shaders.get stage = shadowOf stage (lastRoute stage h.calls)
  programmed : Programmed banks d.state h.executed
  holds : ∀ b, Holds (d.buffers b) (h.streams b)

lemma tracks_start (banks : RegBank → RegFile) : Tracks banks (.start banks) .start :=
  ⟨fun stage => by cases stage <;> rfl,⟨fun _ => rfl,fun _ => rfl,fun _ => rfl⟩,fun _ => holds_nil⟩

lemma Tracks.call {banks : RegBank → RegFile} {d : Driver} {h : History} (ht : Tracks banks d h)
    (c : Call) : Tracks banks (d.call c) (h.record c) := by
  obtain ⟨hbanks,hshaders⟩ := call_state d c
  refine ⟨fun stage => ?_,ht.programmed.congr hbanks,holds_call ht.holds c⟩
  rw [hshaders, History.record, lastRoute_append]
  cases c.routeOf stage with
  | none => exact ht.shadow stage
  | some r => rfl

lemma execute_buffers {d : Driver} {streams : ℕ → List Item} (h : ∀ b, Holds (d.buffers b) (streams b))
    (buffers : List ℕ) (s : GpuState) : s.execute (buffers.flatMap fun b => decode (d.buffers b)) =
      s.executeItems (buffers.flatMap streams) := by
  induction buffers generalizing s with
  | nil => rfl
  | cons b buffers ih =>
    rw [List.flatMap_cons, List.flatMap_cons, GpuState.execute_append, GpuState.executeItems_append,
      (h b).2, ih]

lemma Tracks.submit {banks : RegBank → RegFile} {d : Driver} {h : History} (ht : Tracks banks d h)
    (buffers : List ℕ) :
    Tracks banks (d.submit buffers).1 (h.step (routedBound banks) (.submit buffers)).1 ∧
      (d.submit buffers).2 = (h.step (routedBound banks) (.submit buffers)).2 := by
  have hexec := execute_buffers ht.holds buffers d.state
  obtain ⟨hprog,hsame,hdraws⟩ := ht.programmed.executeItems ht.shadow (buffers.flatMap h.streams)
  rw [← hexec] at hprog hsame hdraws
  exact ⟨⟨fun stage => (congrArg (fun s => BoundShaders.get s stage) hsame).trans (ht.shadow stage),
    hprog,ht.holds⟩,hdraws⟩

lemma Tracks.run {banks : RegBank → RegFile} {d : Driver} {h : History} (ht : Tracks banks d h)
    (es : List Event) : (d.run es).2 = h.run (routedBound banks) es := by
  induction es generalizing d h with
  | nil => rfl
  | cons e es ih =>
    cases e with
    | call c =>
      have hrest := ih (ht.call c)
      simpa [Driver.run, History.run, Driver.step, History.step] using hrest
    | submit buffers =>
      obtain ⟨htracks,hdraws⟩ := ht.submit buffers
      have hrest := ih htracks
      simp only [Driver.run, History.run, Driver.step, hdraws, hrest]

/-- Every draw has, for each stage, the embedded shader if the last shader call made before its
submission was an embedded bind, else the program of the last register bind before it in the
submitted streams. -/
theorem run_routed (banks : RegBank → RegFile) (es : List Event) :
    ((Driver.start banks).run es).2 = History.start.run (routedBound banks) es :=
  (tracks_start banks).run es

/-- Two embedded binds around a draw in one buffer: the draw gets the second. -/
theorem not_run_stream : ¬∀ (banks : RegBank → RegFile) (es : List Event),
    ((Driver.start banks).run es).2 = History.start.run (streamBound banks) es := by
  intro h
  let slot : CmdSlot := ⟨some 0,0⟩
  have hrun := h (fun _ _ => none) [.call (.setEmbeddedVsShader slot 0),
    .call (.drawIndexAuto slot 3),.call (.setEmbeddedVsShader slot 1),.submit [0]]
  exact absurd hrun (by decide)

end Unemups4.Gnm

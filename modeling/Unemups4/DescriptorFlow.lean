import Unemups4.Descriptors

/-! Whether the source the recompiler records for a fetch or a sample designates the dwords
that the interpreter finds in the resource registers. -/
namespace Unemups4.Gcn
open Fallible

/-- The pointer pair and byte offset of a scalar load that fills a register. -/
def Inst.loadInto (reg : ℕ) : Inst → Option (ℕ × ℕ)
  | .smrd op (.sgpr dst) sbase _ offset =>
      if op.isBufferLoad = false ∧ dst ≤ reg ∧ reg < dst+op.dstCount.getD 0 then
        some (sbase,offset*4%2^32)
      else none
  | _ => none

/-- The last scalar load before instruction `k` that fills a register. -/
def lastLoad (insts : List Decoded) (k reg : ℕ) : Option (ℕ × ℕ) :=
  (insts.take k).reverse.findSome? (·.inst.loadInto reg)

/-- Where the last such load leads; the launch registers when there is none. -/
def resourceSource (insts : List Decoded) (k srsrc : ℕ) : DescriptorSource :=
  match lastLoad insts k srsrc with
  | some (sbase,descOffset) => .setPointer sbase descOffset
  | none => .inlineVSharp srsrc

/-- Dword `i` of the descriptor a source designates. -/
def DescriptorSource.origin (i : ℕ) : DescriptorSource → Origin
  | .inlineVSharp sgpr => .launch (sgpr+i)
  | .setPointer sgpr descOffset => .loaded sgpr (descOffset+i*4)

/-- The resource register of a fetch or a sample, and how many dwords its descriptor has. -/
def Inst.resource : Inst → Option (ℕ × ℕ)
  | .mubuf _ _ _ srsrc _ _ _ _ => some (srsrc,4)
  | .mimg _ _ _ srsrc _ _ _ => some (srsrc,8)
  | _ => none

/-- Instruction `k` stands before any `s_endpgm`. -/
def LiveAt (insts : List Decoded) (k : ℕ) (inst : Inst) : Prop :=
  (∀ d ∈ insts.take k, isEndpgm d = false) ∧ (insts[k]?.map (·.inst)) = some inst

namespace DescriptorTables

lemma ensureConstBuffer_vsharp {t t' : DescriptorTables} {sbase size off : ℕ}
    (h : t.ensureConstBuffer sbase size off = .ok t') : t'.vsharpSgprs = t.vsharpSgprs := by
  unfold ensureConstBuffer at h
  split at h
  · cases h
    rfl
  · split_ifs at h
    cases h
    rfl

lemma emitSmrd_vsharp {t t' : DescriptorTables} {op : SmrdOp} {sdst : Operand}
    {sbase offset off : ℕ} {imm : Bool} (h : t.emitSmrd op sdst sbase imm offset off = .ok t')
    (reg : ℕ) : t'.vsharpSgprs reg =
      ((Inst.smrd op sdst sbase imm offset).loadInto reg).or (t.vsharpSgprs reg) := by
  unfold emitSmrd at h
  dsimp only at h
  split at h
  · cases h
  · rename_i count hcount
    cases sdst with
    | sgpr dst =>
      dsimp only at h
      split_ifs at h with hbuffer hrange
      · unfold emitSBufferLoad at h
        split_ifs at h
        rw [ensureConstBuffer_vsharp h]
        simp [Inst.loadInto, hbuffer]
      · cases h
        simp only [Inst.loadInto, hcount, Option.getD_some]
        by_cases hreg : dst ≤ reg ∧ reg < dst+count
        · simp [hbuffer, hreg]
        · simp [hreg]
    | _ => cases h

lemma ensureVsBuffer_vsharp (t : DescriptorTables) (components : ℕ) (source : DescriptorSource) :
    (t.ensureVsBuffer components source).1.vsharpSgprs = t.vsharpSgprs := by
  unfold ensureVsBuffer
  split
  · rfl
  · dsimp only
    split_ifs <;> rfl

variable {t t' : DescriptorTables}

/-- What an accepted fetch records. -/
lemma emitMubuf_ok {op : MubufOp} {vdata vaddr soffset : Operand} {srsrc offset off stream : ℕ}
    {idxen offen : Bool} {source : DescriptorSource}
    (h : t.emitMubuf op vdata vaddr srsrc soffset offset idxen offen off = .ok (t',source,stream)) :
    ∃ sbase descOffset, t.vsharpSgprs srsrc = some (sbase,descOffset) ∧
      source = .setPointer sbase descOffset ∧ t'.vsharpSgprs = t.vsharpSgprs := by
  unfold emitMubuf at h
  dsimp only at h
  split at h
  · cases h
  · split at h
    · cases h
    · split at h
      · cases h
      · cases vdata with
        | vgpr vdata0 =>
          dsimp only at h
          split at h
          · cases h
          · rename_i sbase descOffset hload
            split_ifs at h
            cases h
            exact ⟨sbase,descOffset,hload,rfl,ensureVsBuffer_vsharp _ _ _⟩
        | _ => cases h

lemma ensurePsTexture_ok {source : DescriptorSource} {sOffset off : ℕ} {b : SamplerBinding}
    (h : t.ensurePsTexture source sOffset off = .ok (t',b)) :
    b.source = source ∧ b.sOffset = sOffset ∧ t'.vsharpSgprs = t.vsharpSgprs := by
  unfold ensurePsTexture at h
  split at h
  · rename_i found hfound
    cases h
    obtain ⟨hsource,hsOffset⟩ : b.source = source ∧ b.sOffset = sOffset := by
      simpa using List.find?_some hfound
    exact ⟨hsource,hsOffset,rfl⟩
  · dsimp only at h
    split_ifs at h
    cases h
    exact ⟨rfl,rfl,rfl⟩

/-- What an accepted sample records. -/
lemma emitMimg_ok {op : MimgOp} {vdata vaddr : Operand} {srsrc ssamp off : ℕ} {dmask : BitVec 8}
    {unrm : Bool} {b : SamplerBinding}
    (h : t.emitMimg op vdata vaddr srsrc ssamp dmask unrm off = .ok (t',b)) :
    b.source = t.texSource srsrc ∧ b.sOffset = ssamp ∧ t'.vsharpSgprs = t.vsharpSgprs := by
  unfold emitMimg at h
  dsimp only at h
  split_ifs at h
  split at h
  · split_ifs at h with hvu hvdata
    · obtain ⟨r,-,h⟩ := bind_eq_ok.mp h
      cases h
    · obtain ⟨r,hr,h⟩ := bind_eq_ok.mp h
      cases h
      exact ensurePsTexture_ok hr
  · cases h
  · cases h

/-- Only a load through a pointer writes the notes. -/
lemma emitInst_vsharp {d : Decoded} (h : t.emitInst d = .ok t') (reg : ℕ) :
    t'.vsharpSgprs reg = (d.inst.loadInto reg).or (t.vsharpSgprs reg) := by
  obtain ⟨inst,size,off⟩ := d
  cases inst with
  | smrd op sdst sbase imm offset => exact emitSmrd_vsharp h reg
  | mubuf op vdata vaddr srsrc soffset offset idxen offen =>
    obtain ⟨⟨t₁,source,stream⟩,hr,h⟩ := map_eq_ok.mp h
    cases h
    obtain ⟨_,_,-,-,hsame⟩ := emitMubuf_ok hr
    exact congrFun hsame reg
  | mimg op vdata vaddr srsrc ssamp dmask unrm =>
    obtain ⟨⟨t₁,b⟩,hr,h⟩ := map_eq_ok.mp h
    cases h
    exact congrFun (emitMimg_ok hr).2.2 reg
  | sopp op simm =>
    cases op with
    | sEndpgm | sWaitcnt | sNop =>
      cases h
      rfl
    | _ => cases h
  | sop1 | vop1 | vop2 | vop3 | vopc | vintrp | exp =>
    cases h
    rfl
  | _ => cases h

/-- The notes after a straight line are the last loads. -/
lemma emit_vsharp {ds : List Decoded} (hend : ∀ d ∈ ds, isEndpgm d = false)
    (h : t.emit ds = .ok t') (reg : ℕ) :
    t'.vsharpSgprs reg = (ds.reverse.findSome? (·.inst.loadInto reg)).or (t.vsharpSgprs reg) := by
  induction ds generalizing t with
  | nil =>
    cases h
    rfl
  | cons d ds ih =>
    obtain ⟨t₁,hd,h⟩ := bind_eq_ok.mp h
    rw [hend d List.mem_cons_self] at h
    rw [ih (fun e he => hend e (List.mem_cons_of_mem _ he)) h, emitInst_vsharp hd]
    simp [List.findSome?_append, Option.or_assoc]

end DescriptorTables

/-- Instruction `k` uses a descriptor of `n` dwords, recorded with this source. A fetch past the
cap on streams has no binding of its own. -/
inductive Records (stage : ShaderStage) (insts : List Decoded) (k : ℕ) :
    ℕ → ℕ → DescriptorSource → Prop where
  | fetch (off : ℕ) {t t' : DescriptorTables} {op : MubufOp} {vdata vaddr soffset : Operand}
      {srsrc offset stream : ℕ} {idxen offen : Bool} {source : DescriptorSource}
      (at_ : LiveAt insts k (.mubuf op vdata vaddr srsrc soffset offset idxen offen))
      (before : (DescriptorTables.new stage).emit (insts.take k) = .ok t)
      (accepted : t.emitMubuf op vdata vaddr srsrc soffset offset idxen offen off =
        .ok (t',source,stream))
      (binding : t'.buffers[stream]?.map (·.source) = some source) : Records stage insts k srsrc 4 source
  | sample (off : ℕ) {t t' : DescriptorTables} {op : MimgOp} {vdata vaddr : Operand}
      {srsrc ssamp : ℕ} {dmask : BitVec 8} {unrm : Bool} {b : SamplerBinding}
      (at_ : LiveAt insts k (.mimg op vdata vaddr srsrc ssamp dmask unrm))
      (before : (DescriptorTables.new stage).emit (insts.take k) = .ok t)
      (accepted : t.emitMimg op vdata vaddr srsrc ssamp dmask unrm off = .ok (t',b)) :
      Records stage insts k srsrc 8 b.source

lemma new_emit_vsharp {stage : ShaderStage} {insts : List Decoded} {k : ℕ} {t : DescriptorTables}
    (hend : ∀ d ∈ insts.take k, isEndpgm d = false)
    (h : (DescriptorTables.new stage).emit (insts.take k) = .ok t) (reg : ℕ) :
    t.vsharpSgprs reg = lastLoad insts k reg :=
  (DescriptorTables.emit_vsharp hend h reg).trans Option.or_none

lemma texSource_eq {stage : ShaderStage} {insts : List Decoded} {k : ℕ} {t : DescriptorTables}
    (hend : ∀ d ∈ insts.take k, isEndpgm d = false)
    (h : (DescriptorTables.new stage).emit (insts.take k) = .ok t) (srsrc : ℕ) :
    t.texSource srsrc = resourceSource insts k srsrc := by
  have hlast := new_emit_vsharp hend h srsrc
  cases hload : lastLoad insts k srsrc with
  | none => simp only [DescriptorTables.texSource, resourceSource, hlast, hload]
  | some p => simp only [DescriptorTables.texSource, resourceSource, hlast, hload]

/-- The source on record is where the last load of the resource register leads. -/
lemma Records.source_eq {stage : ShaderStage} {insts : List Decoded} {k srsrc n : ℕ}
    {source : DescriptorSource} (h : Records stage insts k srsrc n source) :
    source = resourceSource insts k srsrc ∧
      ∃ inst, LiveAt insts k inst ∧ inst.resource = some (srsrc,n) := by
  cases h with
  | fetch off hat hbefore haccepted hbinding =>
    obtain ⟨sbase,descOffset,hload,rfl,-⟩ := DescriptorTables.emitMubuf_ok haccepted
    rw [new_emit_vsharp hat.1 hbefore] at hload
    exact ⟨by simp [resourceSource, hload],_,hat,rfl⟩
  | sample off hat hbefore haccepted =>
    refine ⟨?_,_,hat,rfl⟩
    rw [(DescriptorTables.emitMimg_ok haccepted).1]
    exact texSource_eq hat.1 hbefore _

/-- A launch holds `w` when it reaches instruction `k` of a straight line. -/
def Reaches (F : FloatOps) (g : GuestMemory) (abi : LaunchAbi) (insts : List Decoded) (k : ℕ)
    (w : Wave) : Prop :=
  runBody ⟨F,g.view,abi.inputs⟩ insts (List.range k) (initLaunch abi) = .ok (false,w)

lemma Reaches.hold {F : FloatOps} {g : GuestMemory} {abi : LaunchAbi} {insts : List Decoded} {k : ℕ}
    {w : Wave} (h : Reaches F g abi insts k w) :
    (Origins.before insts k).Hold g (initLaunch abi).sgprs w :=
  Origins.hold_before rfl h

/-- Every source on record designates the dwords in the resource registers, whatever the launch
and the memory. -/
def SourcesExact (F : FloatOps) (stage : ShaderStage) (insts : List Decoded) : Prop :=
  ∀ g abi k srsrc n source w, Records stage insts k srsrc n source → Reaches F g abi insts k w →
    ∀ i < n, (source.origin i).Holds g (initLaunch abi).sgprs (w.sgprs (srsrc+i))

/-- The resource registers of every fetch and every sample still hold what the last load of the
first of them put there. -/
def SourcesFollow (insts : List Decoded) : Prop :=
  ∀ k inst srsrc n, LiveAt insts k inst → inst.resource = some (srsrc,n) →
    ∀ i < n, Origins.before insts k (srsrc+i) = (resourceSource insts k srsrc).origin i

theorem sourcesExact_of_follow (F : FloatOps) (stage : ShaderStage) {insts : List Decoded}
    (h : SourcesFollow insts) : SourcesExact F stage insts := by
  intro g abi k srsrc n source w hrec hreach i hi
  obtain ⟨rfl,inst,hlive,hres⟩ := hrec.source_eq
  have hreg := hreach.hold (srsrc+i)
  rwa [h k inst srsrc n hlive hres i hi] at hreg

/-- A vertex fetch through a loaded V#. -/
def fetchLoaded : List Decoded :=
  [⟨.smrd .sLoadDwordx4 (.sgpr 4) 2 true 0,1,0⟩,
   ⟨.mubuf .bufferLoadFormatXyzw (.vgpr 4) (.vgpr 0) 4 (.inlineInt 0) 0 true false,2,1⟩,
   ⟨.exp (.pos 0) [some (.vgpr 4),some (.vgpr 5),some (.vgpr 6),some (.vgpr 7)] true false false,2,3⟩,
   ⟨.sopp .sEndpgm 0,1,5⟩]

/-- The same with the first register of the V# overwritten in between. -/
def fetchMoved : List Decoded :=
  [⟨.smrd .sLoadDwordx4 (.sgpr 4) 2 true 0,1,0⟩,
   ⟨.sop1 .sMovB32 (.sgpr 4) (.sgpr 8),1,1⟩,
   ⟨.mubuf .bufferLoadFormatXyzw (.vgpr 4) (.vgpr 0) 4 (.inlineInt 0) 0 true false,2,2⟩,
   ⟨.exp (.pos 0) [some (.vgpr 4),some (.vgpr 5),some (.vgpr 6),some (.vgpr 7)] true false false,2,4⟩,
   ⟨.sopp .sEndpgm 0,1,6⟩]

lemma fetchLoaded_follow : SourcesFollow fetchLoaded := by
  rintro k inst srsrc n ⟨-,hk⟩ hres i hi
  match k with
  | 0 | 2 | 3 =>
    cases hk
    cases hres
  | k+4 => cases hk
  | 1 =>
    cases hk
    cases hres
    interval_cases i <;> rfl

theorem sourcesExact_fetchLoaded : SourcesFollow fetchLoaded ∧
    Records .vertex fetchLoaded 1 4 4 (.setPointer 2 0) ∧ ∀ F, SourcesExact F .vertex fetchLoaded :=
  ⟨fetchLoaded_follow,.fetch 1 ⟨by decide,rfl⟩ rfl rfl rfl,
    fun F => sourcesExact_of_follow F .vertex fetchLoaded_follow⟩

/-- Memory where each byte holds the low byte of its address. -/
def rampMemory : GuestMemory := ⟨fun addr => addr.setWidth 8,fun _ _ => true⟩

/-- The move leaves the note of the load in place. -/
theorem not_sourcesExact_fetchMoved : ¬∃ F, SourcesExact F .vertex fetchMoved := by
  rintro ⟨F,h⟩
  have hrec : Records .vertex fetchMoved 2 4 4 (.setPointer 2 0) :=
    .fetch 2 ⟨by decide,rfl⟩ rfl rfl rfl
  obtain ⟨w,hw,hreg⟩ : ∃ w, Reaches F rampMemory (.vertex [0,0,0x1000] 0 1) fetchMoved 2 w ∧
      w.sgprs 4 = 0 := ⟨_,rfl,by decide +kernel⟩
  have hdesignated := h rampMemory _ 2 4 4 _ w hrec hw 0 (by decide)
  have hword : rampMemory.word (pairPtr (launchSgprs [0,0,0x1000]) 2+BitVec.ofNat 64 0) =
      0x03020100#32 := by decide +kernel
  exact absurd (hreg.symm.trans (hdesignated.trans hword)) (by decide)

end Unemups4.Gcn

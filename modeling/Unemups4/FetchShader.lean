import Unemups4.Decoder
import Unemups4.LaneIndependence
import Unemups4.ScalarFlow

/-! The fetch-shader parser, and what the loads of the subroutine do when they run in order on
one lane of the interpreter. -/
namespace Unemups4.Gcn
open Fallible

structure FetchAttribute where
  vsharpSgpr : ℕ
  destVgpr : ℕ
  components : ℕ
  descPtrSgpr : ℕ
  descOffsetBytes : ℕ
  deriving DecidableEq, Repr

structure FetchLayout where
  attributes : List FetchAttribute
  deriving DecidableEq, Repr

def smrdOffsetDwordBytes : ℕ := 4

/-- The `buffer_load_format` loads, as opposed to `buffer_load_dword` or a store. -/
def MubufOp.isFormatLoad : MubufOp → Bool
  | bufferLoadFormatX | bufferLoadFormatXy | bufferLoadFormatXyz | bufferLoadFormatXyzw => true
  | _ => false

/-- The loop of `parse_fetch_shader`: `loaded` has the pointer pair and the byte offset that
every quad was last loaded from. A stream that ends without a return is refused. -/
def parseFrom (loaded : ℕ → Option (ℕ × ℕ)) (attributes : List FetchAttribute) :
    List Decoded → Option (List FetchAttribute)
  | [] => none
  | d :: rest =>
      match d.inst with
      | .sopp .sWaitcnt _ | .sopp .sNop _ => parseFrom loaded attributes rest
      | .smrd .sLoadDwordx4 sdst sbase imm offset =>
          match sdst with
          | .sgpr dst =>
              if imm then
                let byteOffset := offset*smrdOffsetDwordBytes
                parseFrom (Function.update loaded dst (some (sbase,byteOffset))) attributes rest
              else none
          | _ => none
      | .mubuf op vdata _ srsrc _ _ idxen _ =>
          match op.vdataCount with
          | none => none
          | some components =>
              if ¬op.isFormatLoad ∨ ¬idxen then none
              else match vdata with
                | .vgpr destVgpr =>
                    match loaded srsrc with
                    | none => none
                    | some (descPtrSgpr,descOffsetBytes) =>
                        parseFrom loaded
                          (attributes ++
                            [⟨srsrc,destVgpr,components,descPtrSgpr,descOffsetBytes⟩]) rest
                | _ => none
      | .sop1 .sSetpcB64 _ _ | .sop1 .sSwappcB64 _ _ => some attributes
      | _ => none

def parseFetchShader (insts : List Decoded) : Option FetchLayout :=
  match parseFrom (fun _ => none) [] insts with
  | none => none
  | some attributes => if attributes = [] then none else some ⟨attributes⟩

/-- The loads of a fetch shader: a quad from memory, or the components of an attribute. -/
inductive FetchOp where
  | load (dst sbase offset : ℕ)
  | fetch (destVgpr components : ℕ) (vaddr : Operand) (srsrc : ℕ) (soffset : Operand)
      (offset : ℕ) (offen : Bool)
  deriving DecidableEq, Repr

/-- The load an instruction is, if it is one. -/
def Inst.fetchOp : Inst → Option FetchOp
  | .smrd .sLoadDwordx4 (.sgpr dst) sbase true offset => some (.load dst sbase offset)
  | .mubuf op (.vgpr destVgpr) vaddr srsrc soffset offset true offen =>
      if op.isFormatLoad then
        op.vdataCount.map fun components =>
          .fetch destVgpr components vaddr srsrc soffset offset offen
      else none
  | _ => none

/-- The loads up to the return, in order. -/
def fetchOps : List Decoded → List FetchOp
  | [] => []
  | d :: rest => if d.inst.isReturn then [] else d.inst.fetchOp.toList ++ fetchOps rest

/-- The loop over the loads alone. -/
def attributesFrom (loaded : ℕ → Option (ℕ × ℕ)) : List FetchOp → Option (List FetchAttribute)
  | [] => some []
  | .load dst sbase offset :: ops =>
      attributesFrom (Function.update loaded dst (some (sbase,offset*smrdOffsetDwordBytes))) ops
  | .fetch destVgpr components _ srsrc _ _ _ :: ops =>
      match loaded srsrc with
      | none => none
      | some (descPtrSgpr,descOffsetBytes) =>
          (⟨srsrc,destVgpr,components,descPtrSgpr,descOffsetBytes⟩ :: ·) <$>
            attributesFrom loaded ops

/-- What the parser accepts, it reads off the loads. -/
lemma attributesFrom_of_parseFrom {insts : List Decoded} {loaded : ℕ → Option (ℕ × ℕ)}
    {attributes attributes' : List FetchAttribute}
    (h : parseFrom loaded attributes insts = some attributes') :
    ∃ more, attributesFrom loaded (fetchOps insts) = some more ∧
      attributes' = attributes ++ more := by
  induction insts generalizing loaded attributes with
  | nil => simp [parseFrom] at h
  | cons d rest ih =>
    unfold parseFrom at h
    split at h
    · rename_i hd
      simpa [fetchOps, hd, Inst.isReturn, Inst.fetchOp] using ih h
    · rename_i hd
      simpa [fetchOps, hd, Inst.isReturn, Inst.fetchOp] using ih h
    · rename_i hd
      split at h
      · split_ifs at h with himm
        simpa [fetchOps, hd, himm, Inst.isReturn, Inst.fetchOp, attributesFrom] using ih h
      · simp at h
    · rename_i hd
      split at h
      · simp at h
      · rename_i hcount
        split_ifs at h with hshape
        simp only [not_or, not_not] at hshape
        split at h
        · split at h
          · simp at h
          · rename_i hloaded
            obtain ⟨more,hmore,rfl⟩ := ih h
            refine ⟨⟨_,_,_,_,_⟩ :: more,?_,by rw [List.append_assoc, List.singleton_append]⟩
            simp [fetchOps, hd, hshape, hcount, hloaded, hmore, Inst.isReturn, Inst.fetchOp,
              attributesFrom]
        · simp at h
    · rename_i hd
      cases h
      exact ⟨[],by simp [fetchOps, hd, Inst.isReturn, Sop1Op.isReturn, attributesFrom],by simp⟩
    · rename_i hd
      cases h
      exact ⟨[],by simp [fetchOps, hd, Inst.isReturn, Sop1Op.isReturn, attributesFrom],by simp⟩
    · simp at h

lemma attributesFrom_of_parseFetchShader {insts : List Decoded} {layout : FetchLayout}
    (h : parseFetchShader insts = some layout) :
    attributesFrom (fun _ => none) (fetchOps insts) = some layout.attributes := by
  unfold parseFetchShader at h
  cases hparse : parseFrom (fun _ => none) [] insts with
  | none => simp [hparse] at h
  | some attributes =>
    simp only [hparse] at h
    split_ifs at h
    cases h
    obtain ⟨more,hmore,rfl⟩ := attributesFrom_of_parseFrom hparse
    simpa using hmore

section Machine

variable (F : FloatOps) (g : GuestMemory) (special : SpecialReg → Word)

def Operand.scalar (sgprs : ℕ → Word) : Operand → Word
  | .sgpr n => sgprs n
  | .special r => special r
  | .inlineInt i => BitVec.ofInt 32 i
  | .inlineFloat bits => bits
  | .literal w => w
  | .vgpr _ | .raw _ => 0

/-- What one live lane sees of the wave. -/
structure FetchLane where
  sgprs : ℕ → Word
  vgprs : ℕ → Word

/-- What a buffer load is given: its resource descriptor and its index register. -/
structure FetchView where
  words : Fin 4 → Word
  index : Word

namespace FetchLane

variable (s : FetchLane)

def vsharp (srsrc : ℕ) : VSharp :=
  .ofWords (s.sgprs srsrc) (s.sgprs (srsrc+1)) (s.sgprs (srsrc+2)) (s.sgprs (srsrc+3))

def indexOf : Operand → Word
  | .vgpr n => s.vgprs n
  | o => o.scalar special s.sgprs

def voffset (vaddr : Operand) (offen : Bool) : BitVec 64 :=
  match offen,vaddr with
  | true,.vgpr n => (s.vgprs (n+1)).setWidth 64
  | _,_ => 0

/-- The address a buffer load reads its element from. -/
def fetchAddr (vaddr : Operand) (srsrc : ℕ) (soffset : Operand) (offset : ℕ) (offen : Bool) :
    BitVec 64 :=
  let v := s.vsharp srsrc
  let index := clampRecord v.numRecords ((s.indexOf special vaddr).setWidth 64)
  v.fetchAddr index (soffset.scalar special s.sgprs) offset (s.voffset vaddr offen)

def step : FetchOp → FetchLane
  | .load dst sbase offset =>
      { s with sgprs := fun r =>
          if dst ≤ r ∧ r < dst+4 then
            g.word (pairPtr s.sgprs sbase+BitVec.ofNat 64 (offset*4+(r-dst)*4))
          else s.sgprs r }
  | .fetch destVgpr components vaddr srsrc soffset offset offen =>
      let addr := s.fetchAddr special vaddr srsrc soffset offset offen
      let bytes := g.bytes addr (components*4)
      { s with vgprs := fun r =>
          if destVgpr ≤ r ∧ r < destVgpr+components then
            F.fetchComponent (s.vsharp srsrc).dfmt (s.vsharp srsrc).nfmt bytes (r-destVgpr)
          else s.vgprs r }

def view (vaddr : Operand) (srsrc : ℕ) : FetchView where
  words := fun j => s.sgprs (srsrc+j)
  index := s.indexOf special vaddr

end FetchLane

/-- What each buffer load is given when the loads run in order. -/
def fetchViews : List FetchOp → FetchLane → List FetchView
  | [], _ => []
  | .load dst sbase offset :: ops, s =>
      fetchViews ops (s.step F g special (.load dst sbase offset))
  | .fetch destVgpr components vaddr srsrc soffset offset offen :: ops, s =>
      s.view special vaddr srsrc ::
        fetchViews ops
          (s.step F g special (.fetch destVgpr components vaddr srsrc soffset offset offen))

/-- The load has the resource the attribute names, in memory as the launch registers point to
it, and the index the lane was launched with. -/
def FetchAttribute.Agrees (s₀ : FetchLane) (a : FetchAttribute) (v : FetchView) : Prop :=
  (∀ j : Fin 4, v.words j =
    g.word (pairPtr s₀.sgprs a.descPtrSgpr+BitVec.ofNat 64 (a.descOffsetBytes+j*4))) ∧
  v.index = s₀.vgprs 0

end Machine

/-- What lane `L` sees of the registers. -/
def Wave.fetchLane (w : Wave) (L : Lane) : FetchLane := ⟨w.sgprs,fun n => w.vgprs n L⟩

def Wave.special (w : Wave) : SpecialReg → Word
  | .vccLo => w.vcc.setWidth 32
  | .vccHi => (w.vcc >>> 32).setWidth 32
  | .m0 => w.m0
  | .execLo => w.exec.setWidth 32
  | .execHi => (w.exec >>> 32).setWidth 32
  | .scc => if w.scc then 1 else 0

/-- Two waves in which lane `L` runs the same loads. -/
structure SameFetch (L : Lane) (w v : Wave) : Prop where
  lane : v.fetchLane L = w.fetchLane L
  special : v.special = w.special
  exec : v.exec = w.exec

namespace SameFetch

variable {L : Lane} {w v u : Wave}

@[refl] lemma refl (L : Lane) (w : Wave) : SameFetch L w w := ⟨rfl,rfl,rfl⟩

lemma trans (h : SameFetch L w v) (h' : SameFetch L v u) : SameFetch L w u :=
  ⟨h'.lane.trans h.lane,h'.special.trans h.special,h'.exec.trans h.exec⟩

end SameFetch

section Bridge

variable {L lane : Lane} {w w' : Wave} {off : ℕ}

lemma setVgpr_eq {n : ℕ} {x : Word} (h : w.setVgpr n lane x off = .ok w') :
    w' = { w with vgprs := Function.update w.vgprs n (Function.update (w.vgprs n) lane x) } := by
  unfold Wave.setVgpr at h
  split_ifs at h
  exact (Except.ok.inj h).symm

lemma setVgpr_sameFetch {n : ℕ} {x : Word} (hne : lane ≠ L)
    (h : w.setVgpr n lane x off = .ok w') : SameFetch L w w' := by
  rw [setVgpr_eq h]
  refine ⟨?_,rfl,rfl⟩
  simp only [Wave.fetchLane, FetchLane.mk.injEq, true_and]
  funext m
  by_cases hm : m = n
  · subst hm
    rw [Function.update_self, Function.update_of_ne hne.symm]
  · rw [Function.update_of_ne hm]

/-- The registers of a lane after it wrote a block of them. -/
lemma writes_range {n count : ℕ} {f : ℕ → Word}
    (h : ((List.range count).map fun i => LaneWrite.vgpr (n+i) (f i)).foldlM (Wave.write L off) w =
      .ok w') :
    w'.fetchLane L = ⟨w.sgprs,fun r =>
        if n ≤ r ∧ r < n+count then f (r-n) else w.vgprs r L⟩ ∧
      w'.special = w.special ∧ w'.exec = w.exec := by
  induction count generalizing w' with
  | zero =>
    cases h
    refine ⟨?_,rfl,rfl⟩
    simp only [Wave.fetchLane, FetchLane.mk.injEq, true_and]
    funext r
    rw [if_neg (by omega)]
  | succ count ih =>
    rw [List.range_succ, List.map_append, List.foldlM_append] at h
    obtain ⟨w₁,hfirst,h⟩ := bind_eq_ok.mp h
    obtain ⟨hlane,hspecial,hexec⟩ := ih hfirst
    rw [List.map_singleton, List.foldlM_cons] at h
    obtain ⟨w₂,hlast,h⟩ := bind_eq_ok.mp h
    cases h
    rw [setVgpr_eq hlast]
    refine ⟨?_,hspecial,hexec⟩
    simp only [Wave.fetchLane, FetchLane.mk.injEq] at hlane ⊢
    refine ⟨hlane.1,funext fun r => ?_⟩
    have hr := congrFun hlane.2 r
    by_cases hlastReg : r = n+count
    · subst hlastReg
      rw [Function.update_self, Function.update_self, if_pos (by omega), Nat.add_sub_cancel_left]
    · rw [Function.update_of_ne hlastReg, hr]
      by_cases hin : n ≤ r ∧ r < n+count
      · rw [if_pos hin, if_pos (by omega)]
      · rw [if_neg hin, if_neg (by omega)]

lemma readScalar_ok {o : Operand} {x : Word} (h : w.readScalar o off = .ok x) :
    x = o.scalar w.special w.sgprs := by
  cases o with
  | sgpr n => exact sgpr_ok h
  | special r => cases r <;> exact (Except.ok.inj h).symm
  | vgpr n => cases h
  | raw field => cases h
  | _ => exact (Except.ok.inj h).symm

lemma vgpr_ok {n : ℕ} {x : Word} (h : w.vgpr n lane off = .ok x) : x = w.vgprs n lane := by
  unfold Wave.vgpr at h
  split_ifs at h
  exact (Except.ok.inj h).symm

lemma readSrcLane_ok {o : Operand} {x : Word} (h : w.readSrcLane o L off = .ok x) :
    x = (w.fetchLane L).indexOf w.special o := by
  cases o with
  | vgpr n => exact vgpr_ok h
  | sgpr n => exact readScalar_ok (o := .sgpr n) h
  | special r => exact readScalar_ok (o := .special r) h
  | inlineInt i => exact @readScalar_ok w off (.inlineInt i) _ h
  | inlineFloat bits => exact @readScalar_ok w off (.inlineFloat bits) _ h
  | literal x => exact @readScalar_ok w off (.literal x) _ h
  | raw field => exact @readScalar_ok w off (.raw field) _ h

lemma mubufSoffset_ok {o : Operand} {x : Word} (h : mubufSoffset w o off = .ok x) :
    x = o.scalar w.special w.sgprs := by
  unfold mubufSoffset at h
  split at h
  · cases h
  · exact readScalar_ok h

lemma decodeVSharp_ok {srsrc : ℕ} {v : VSharp} (h : w.decodeVSharp srsrc off = .ok v) :
    v = (w.fetchLane L).vsharp srsrc := by
  obtain ⟨w0,h0,h⟩ := bind_eq_ok.mp h
  obtain ⟨w1,h1,h⟩ := bind_eq_ok.mp h
  obtain ⟨w2,h2,h⟩ := bind_eq_ok.mp h
  obtain ⟨w3,h3,h⟩ := bind_eq_ok.mp h
  rw [sgpr_ok h0, sgpr_ok h1, sgpr_ok h2, sgpr_ok h3] at h
  exact (Except.ok.inj h).symm

lemma fetchOffset_ok {w₀ : Wave} {vaddr : Operand} {offen : Bool} {reg : Option ℕ} {x : BitVec 64}
    (hreg : offenReg w₀ vaddr offen off = .ok reg) (h : w.fetchOffset reg L off = .ok x) :
    x = (w.fetchLane L).voffset vaddr offen := by
  cases offen with
  | false =>
    cases hreg
    exact (Except.ok.inj h).symm
  | true =>
    cases vaddr with
    | vgpr n =>
      obtain ⟨_,-,hreg⟩ := bind_eq_ok.mp hreg
      cases hreg
      obtain ⟨y,hy,rfl⟩ := map_eq_ok.mp h
      rw [vgpr_ok hy]
      rfl
    | _ => cases hreg

lemma setSgprs_eq {xs : List (ℕ × Word)} (h : w.setSgprs off xs = .ok w') :
    w' = { w with sgprs := w'.sgprs } := by
  induction xs generalizing w with
  | nil =>
    cases h
    rfl
  | cons p xs ih =>
    obtain ⟨w₁,hset,h⟩ := bind_eq_ok.mp h
    have hw₁ : w₁ = { w with sgprs := w₁.sgprs } := by
      unfold Wave.setSgpr at hset
      split_ifs at hset
      cases hset
      rfl
    rw [ih h, hw₁]

/-- A lane loop that writes vector registers only. -/
structure LaneOp.VgprOnly (op : LaneOp) : Prop where
  idle : op.idle = []
  live : ∀ w lane ws, op.live w lane = .ok ws → ∀ x ∈ ws, ∃ n bits, x = .vgpr n bits

lemma LaneOp.VgprOnly.step_other {op : LaneOp} (hop : op.VgprOnly) (hne : lane ≠ L)
    (h : op.step off w lane = .ok w') : SameFetch L w w' := by
  obtain ⟨ws,hws,hwrites⟩ := LaneOp.step_ok h
  refine foldlM_rel (SameFetch.refl L) (fun _ _ _ => SameFetch.trans) ?_ hwrites
  intro s x t hx hst
  rcases hws with ⟨-,hws⟩ | ⟨-,rfl⟩
  · obtain ⟨n,bits,rfl⟩ := hop.live _ _ _ hws x hx
    exact setVgpr_sameFetch hne hst
  · simp [hop.idle] at hx

/-- The other lanes leave lane `L` alone. -/
lemma LaneOp.VgprOnly.run_around {op : LaneOp} (hop : op.VgprOnly) (h : op.run off w = .ok w') :
    ∃ w₁ w₂, SameFetch L w w₁ ∧ op.step off w₁ L = .ok w₂ ∧ SameFetch L w₂ w' := by
  rw [LaneOp.run] at h
  apply foldlM_around (SameFetch.refl L) (fun _ _ _ => SameFetch.trans)
    (List.nodup_finRange waveSize) (List.mem_finRange L) ?_ h
  exact fun s x t hx => hop.step_other hx

/-- Where the interpreter loads a quad, a lane sees the step of the machine. -/
lemma execSmrd_fetchLane {E : Env} {g : GuestMemory} (hmem : E.mem = g.view)
    {dst sbase offset : ℕ} (h : execSmrd E .sLoadDwordx4 (.sgpr dst) sbase true offset off w = .ok w') :
    w'.fetchLane L = (w.fetchLane L).step E.floats g w.special (.load dst sbase offset) ∧
      w'.special = w.special ∧ w'.exec = w.exec := by
  obtain ⟨addr,haddr,h⟩ := bind_eq_ok.mp h
  obtain ⟨bytes,hload,h⟩ := bind_eq_ok.mp h
  obtain ⟨base,hbase,haddr⟩ := bind_eq_ok.mp haddr
  have hbase' := readSgprU64_ok hbase
  have haddr' : addr = base+BitVec.ofNat 64 (offset*4) := (Except.ok.inj haddr).symm
  rw [hmem] at hload
  have hbytes := g.load_view hload
  have hframe := setSgprs_eq h
  have hregs := setSgprs_range h
  rw [hframe]
  refine ⟨?_,rfl,rfl⟩
  simp only [Wave.fetchLane, FetchLane.step, FetchLane.mk.injEq, and_true]
  funext r
  rw [hregs r]
  split_ifs with hr
  · rw [hbytes, g.readLeU32_bytes _ (by omega), haddr', hbase', BitVec.ofNat_add, add_assoc]
  · rfl

/-- Where the interpreter runs a buffer load, a live lane sees the step of the machine. -/
lemma execMubuf_fetchLane {E : Env} {g : GuestMemory} (hmem : E.mem = g.view) (hlive : w.laneLive L)
    {mop : MubufOp} {destVgpr components srsrc offset : ℕ} {vaddr soffset : Operand} {offen : Bool}
    (hcount : mop.vdataCount = some components) {op : LaneOp}
    (hop : execMubuf E mop (.vgpr destVgpr) vaddr srsrc soffset offset true offen off w = .ok op)
    (h : op.run off w = .ok w') :
    w'.fetchLane L = (w.fetchLane L).step E.floats g w.special
        (.fetch destVgpr components vaddr srsrc soffset offset offen) ∧
      w'.special = w.special ∧ w'.exec = w.exec := by
  simp only [execMubuf, hcount] at hop
  obtain ⟨soff,hsoff,hop⟩ := bind_eq_ok.mp hop
  obtain ⟨v,hv,hop⟩ := bind_eq_ok.mp hop
  obtain ⟨vdata0,hvdata,hop⟩ := bind_eq_ok.mp hop
  obtain ⟨reg,hreg,hop⟩ := bind_eq_ok.mp hop
  cases hvdata
  have hop := Except.ok.inj hop
  have honly : op.VgprOnly := by
    rw [← hop]
    refine ⟨rfl,fun s lane ws hws x hx => ?_⟩
    obtain ⟨index,-,hws⟩ := bind_eq_ok.mp hws
    obtain ⟨voff,-,hws⟩ := bind_eq_ok.mp hws
    obtain ⟨bytes,-,hws⟩ := bind_eq_ok.mp hws
    cases hws
    obtain ⟨i,-,rfl⟩ := List.mem_map.mp hx
    exact ⟨_,_,rfl⟩
  obtain ⟨w₁,w₂,hbefore,hstep,hafter⟩ := honly.run_around (L := L) h
  have hlive₁ : w₁.laneLive L = true := by
    rw [Wave.laneLive, hbefore.exec]
    exact hlive
  simp only [LaneOp.step, hlive₁, if_true, ← hop] at hstep
  obtain ⟨ws,hws,hwrites⟩ := bind_eq_ok.mp hstep
  obtain ⟨index,hindex,hws⟩ := bind_eq_ok.mp hws
  obtain ⟨voff,hvoff,hws⟩ := bind_eq_ok.mp hws
  obtain ⟨bytes,hload,hws⟩ := bind_eq_ok.mp hws
  cases hws
  obtain ⟨hlane,hspecial,hexec⟩ := writes_range hwrites
  refine ⟨?_,hafter.special.trans (hspecial.trans hbefore.special),
    hafter.exec.trans (hexec.trans hbefore.exec)⟩
  have hindex' : index = clampRecord v.numRecords
      (((w.fetchLane L).indexOf w.special vaddr).setWidth 64) := by
    simp only [Wave.fetchIndex, if_true] at hindex
    obtain ⟨i,hi,hindex⟩ := bind_eq_ok.mp hindex
    obtain ⟨x,hx,rfl⟩ := map_eq_ok.mp hi
    rw [readSrcLane_ok hx, hbefore.lane, hbefore.special] at hindex
    exact (Except.ok.inj hindex).symm
  have hvoff' : voff = (w.fetchLane L).voffset vaddr offen := by
    rw [← hbefore.lane]
    exact fetchOffset_ok hreg hvoff
  rw [hmem] at hload
  rw [hafter.lane, hlane, g.load_view hload, hindex', hvoff', decodeVSharp_ok (L := L) hv,
    mubufSoffset_ok hsoff]
  have hsgprs : w₁.sgprs = w.sgprs := congrArg FetchLane.sgprs hbefore.lane
  have hvgprs (r : ℕ) : w₁.vgprs r L = w.vgprs r L :=
    congrFun (congrArg FetchLane.vgprs hbefore.lane) r
  simp only [hsgprs, hvgprs]
  rfl

/-- The loads of a fetch shader are steps of the machine at every live lane. -/
theorem execOne_fetchLane {E : Env} {g : GuestMemory} (hmem : E.mem = g.view) {d : Decoded}
    {op : FetchOp} (hd : d.inst.fetchOp = some op) (hlive : w.laneLive L)
    (h : execOne E d w = .ok w') :
    w'.fetchLane L = (w.fetchLane L).step E.floats g w.special op ∧
      w'.special = w.special ∧ w'.exec = w.exec := by
  obtain ⟨inst,size,off⟩ := d
  dsimp only at hd
  unfold Inst.fetchOp at hd
  split at hd
  · cases hd
    exact execSmrd_fetchLane hmem h
  · split_ifs at hd with hformat
    obtain ⟨components,hcount,rfl⟩ := Option.map_eq_some_iff.mp hd
    obtain ⟨lop,hlop,h⟩ := bind_eq_ok.mp h
    exact execMubuf_fetchLane hmem hlive hcount hlop h
  · cases hd

/-- A run of the loads by the interpreter is a run of the machine. -/
theorem foldlM_fetchLane {E : Env} {g : GuestMemory} (hmem : E.mem = g.view) {ds : List Decoded}
    {ops : List FetchOp} (hds : List.Forall₂ (fun d op => d.inst.fetchOp = some op) ds ops)
    (hlive : w.laneLive L) (h : ds.foldlM (fun w d => execOne E d w) w = .ok w') :
    w'.fetchLane L = ops.foldl (FetchLane.step E.floats g w.special) (w.fetchLane L) := by
  induction hds generalizing w with
  | nil =>
    cases h
    rfl
  | cons hd _ ih =>
    rw [List.foldlM_cons] at h
    obtain ⟨w₁,hone,h⟩ := bind_eq_ok.mp h
    obtain ⟨hlane,hspecial,hexec⟩ := execOne_fetchLane hmem hd hlive hone
    have hlive₁ : w₁.laneLive L = true := by
      rw [Wave.laneLive, hexec]
      exact hlive
    rw [ih hlive₁ h, List.foldl_cons, hlane, hspecial]

end Bridge

end Unemups4.Gcn

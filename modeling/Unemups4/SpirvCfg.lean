import Unemups4.Cfg
import Unemups4.Fallible

/-! Lowering a control-flow graph to SPIR-V labels. The emission of a block's body is
a parameter here: it threads the recompiler's own state and returns the code of the
body, and only says whether the VCC predicate a branch tests was ever written. -/
namespace Unemups4.Gcn
open Fallible

/-- `panicked` stands for a failed `expect`; the other constructors are the source's. -/
inductive RecompileError where
  | unsupportedInst (inst : Inst) (offset : ℕ)
  | invalidOperand (inst : Inst) (operand : Operand) (offset : ℕ) (reason : String)
  | invalidRegister (kind : String) (reg max offset : ℕ)
  | shape (reason : String)
  | unsupported (offset : ℕ) (reason : String)
  | panicked
  deriving DecidableEq, Repr

/-- How a SPIR-V block leaves. A conditional tests the VCC predicate or its negation. -/
inductive SpirvTerm where
  | ret
  | branch (target : ℕ)
  | selection (merge : ℕ) (negated : Bool) (taken fall : ℕ)
  | loopHeader (merge cont target : ℕ)
  | branchConditional (negated : Bool) (taken fall : ℕ)
  deriving DecidableEq, Repr

def SpirvTerm.labels : SpirvTerm → List ℕ
  | ret => []
  | branch target => [target]
  | selection merge _ taken fall => [merge,taken,fall]
  | loopHeader merge cont target => [merge,cont,target]
  | branchConditional _ taken fall => [taken,fall]

/-- A labelled SPIR-V block; `body` names the GCN block whose code it holds. -/
structure SpirvBlock (β : Type) where
  label : ℕ
  body : Option (ℕ × β)
  term : SpirvTerm

/-- The recompiler as `emit_cfg` sees it. -/
structure BodyEmitter (σ β : Type) where
  emitBlockBody : σ → BasicBlock → Except RecompileError (σ × β)
  condBoolForBranch : σ → Except RecompileError Unit

variable {σ β : Type}

def labelAt (cfg : Cfg) (base start : ℕ) : Except RecompileError ℕ :=
  match cfg.blockIndexAt start with
  | some i => .ok (base+i)
  | none => .error .panicked

def noReconverge (block : BasicBlock) : RecompileError :=
  .unsupported block.start
    "conditional branch whose arms do not reconverge (irreducible / non-structured control flow)"

def branchPredicate (em : BodyEmitter σ β) (st : σ) : BranchCond → Except RecompileError Unit
  | .vccz | .vccnz => em.condBoolForBranch st
  | .execz | .execnz => .ok ()

/-- The terminator of a block outside any loop. A running lane is live, so the EXEC
conditions are resolved while emitting. -/
def emitTerminator (em : BodyEmitter σ β) (cfg : Cfg) (base : ℕ) (st : σ) (bi : ℕ)
    (block : BasicBlock) : Except RecompileError SpirvTerm :=
  match block.terminator with
  | .ret => .ok .ret
  | .fallthrough target | .branch target => do
      let l ← labelAt cfg base target
      return .branch l
  | .cond cond taken fall => do
      branchPredicate em st cond
      match cfg.mergeTarget bi with
      | none => .error (noReconverge block)
      | some mergeOff =>
          let merge ← labelAt cfg base mergeOff
          let takeL ← labelAt cfg base taken
          let fallL ← labelAt cfg base fall
          match cond with
          | .vccz => return .selection merge true takeL fallL
          | .vccnz => return .selection merge false takeL fallL
          | .execz => return .branch fallL
          | .execnz => return .branch takeL

def emitSelectionBlock (em : BodyEmitter σ β) (cfg : Cfg) (base : ℕ) (st : σ) (bi : ℕ)
    (block : BasicBlock) : Except RecompileError (σ × List (SpirvBlock β)) := do
  let (st,code) ← em.emitBlockBody st block
  let term ← emitTerminator em cfg base st bi block
  return (st,[⟨base+bi,some (bi,code),term⟩])

/-- The source's loop over `cfg.blocks.iter().enumerate()`. -/
def emitEach (f : σ → ℕ → BasicBlock → Except RecompileError (σ × List (SpirvBlock β))) :
    σ → ℕ → List BasicBlock → Except RecompileError (σ × List (SpirvBlock β))
  | st, _, [] => .ok (st,[])
  | st, bi, block :: rest => do
      let (st,chunk) ← f st bi block
      let (st,more) ← emitEach f st (bi+1) rest
      return (st,chunk ++ more)

def execBackEdge (li : LoopInfo) : RecompileError :=
  .unsupported li.backEdgeBlock
    "EXEC-conditional loop back-edge — per-invocation degenerate (infinite or never-taken); not lowered"

def unexpectedCond (block : BasicBlock) : RecompileError :=
  .unsupported block.start "unexpected conditional in a loop CFG (should be validated out)"

/-- A block that falls into the loop header branches to the scaffold's `%header`. -/
def loopTarget (cfg : Cfg) (li : LoopInfo) (base target : ℕ) : Except RecompileError ℕ :=
  if target = li.header then .ok (base+cfg.blocks.length) else labelAt cfg base target

/-- One block of a loop CFG. The back-edge block expands into `%header`, `%body` and
`%continue`, whose labels follow those of the blocks. -/
def emitLoopBlock (em : BodyEmitter σ β) (cfg : Cfg) (li : LoopInfo) (base headerBi mergeL : ℕ)
    (negated : Bool) (st : σ) (bi : ℕ) (block : BasicBlock) :
    Except RecompileError (σ × List (SpirvBlock β)) :=
  let headerL := base+cfg.blocks.length
  let bodyL := base+cfg.blocks.length+1
  let continueL := base+cfg.blocks.length+2
  if bi = headerBi then do
    let (st,code) ← em.emitBlockBody st block
    em.condBoolForBranch st
    return (st,[⟨headerL,none,.loopHeader mergeL continueL bodyL⟩,
      ⟨bodyL,some (bi,code),.branch continueL⟩,
      ⟨continueL,none,.branchConditional negated headerL mergeL⟩])
  else do
    let (st,code) ← em.emitBlockBody st block
    match block.terminator with
    | .ret => return (st,[⟨base+bi,some (bi,code),.ret⟩])
    | .fallthrough target | .branch target =>
        let dst ← loopTarget cfg li base target
        return (st,[⟨base+bi,some (bi,code),.branch dst⟩])
    | .cond .. => .error (unexpectedCond block)

/-- Whether the back-edge loops while VCC is clear; an EXEC back-edge is not lowered. -/
def headerNegated (li : LoopInfo) (header : BasicBlock) : Except RecompileError Bool :=
  match header.terminator with
  | .cond .vccnz _ _ => .ok false
  | .cond .vccz _ _ => .ok true
  | .cond _ _ _ => .error (execBackEdge li)
  | _ => .error .panicked

def emitLoopCfg (em : BodyEmitter σ β) (cfg : Cfg) (base : ℕ) (st : σ) (li : LoopInfo) :
    Except RecompileError (σ × List (SpirvBlock β)) :=
  match cfg.blockIndexAt li.backEdgeBlock with
  | none => .error .panicked
  | some headerBi =>
      match cfg.blocks[headerBi]? with
      | none => .error .panicked
      | some header => do
          let negated ← headerNegated li header
          let mergeL ← labelAt cfg base li.merge
          emitEach (emitLoopBlock em cfg li base headerBi mergeL negated) st 0 cfg.blocks

/-- `base` is the first id the builder hands out for the labels. -/
def emitCfg (em : BodyEmitter σ β) (cfg : Cfg) (base : ℕ) (st : σ) :
    Except RecompileError (σ × List (SpirvBlock β)) :=
  match (List.range cfg.blocks.length).findSome? cfg.loopOf with
  | some li => emitLoopCfg em cfg base st li
  | none => emitEach (emitSelectionBlock em cfg base) st 0 cfg.blocks

/-- What a walk does: run the body of a GCN block, or return. -/
inductive WalkEvent where
  | body (bi : ℕ)
  | ret
  deriving DecidableEq, Repr

/-- The outcome of a branch for one live lane, and the VCC bits left for later ones. -/
def BranchCond.resolve : BranchCond → List Bool → Option (Bool × List Bool)
  | .vccz, v :: vccs => some (!v,vccs)
  | .vccnz, v :: vccs => some (v,vccs)
  | .vccz, [] | .vccnz, [] => none
  | .execz, vccs => some (false,vccs)
  | .execnz, vccs => some (true,vccs)

/-- The first `fuel` blocks of the walk along the CFG terminators from block `bi`. -/
def cfgTrace (cfg : Cfg) : ℕ → ℕ → List Bool → List WalkEvent
  | 0, _, _ => []
  | fuel+1, bi, vccs =>
      match cfg.blocks[bi]? with
      | none => []
      | some b =>
          let goto := fun target vccs =>
            match cfg.blockIndexAt target with
            | none => []
            | some j => cfgTrace cfg fuel j vccs
          .body bi :: match b.terminator with
            | .ret => [.ret]
            | .fallthrough target | .branch target => goto target vccs
            | .cond cond taken fall =>
                match cond.resolve vccs with
                | none => []
                | some (take,vccs) => goto (if take then taken else fall) vccs

/-- The first `fuel` labels of the walk along the SPIR-V terminators from label `l`. -/
def spirvTrace (bs : List (SpirvBlock β)) : ℕ → ℕ → List Bool → List WalkEvent
  | 0, _, _ => []
  | fuel+1, l, vccs =>
      match bs.find? (fun b => b.label == l) with
      | none => []
      | some b =>
          (b.body.map (fun body => WalkEvent.body body.1)).toList ++ match b.term with
            | .ret => [.ret]
            | .branch target => spirvTrace bs fuel target vccs
            | .loopHeader _ _ target => spirvTrace bs fuel target vccs
            | .selection _ negated taken fall | .branchConditional negated taken fall =>
                match vccs with
                | [] => []
                | v :: vccs => spirvTrace bs fuel (if v != negated then taken else fall) vccs

/-- Every label a terminator or merge names is the label of exactly one block. -/
def LabelsDefined (bs : List (SpirvBlock β)) : Prop :=
  ∀ b ∈ bs, ∀ l ∈ b.term.labels, (bs.map (·.label)).count l = 1

/-- The two walks run the same bodies in the same order on every sequence of VCC bits. -/
def SameWalk (cfg : Cfg) (bs : List (SpirvBlock β)) : Prop :=
  ∀ vccs tr, (∃ n, cfgTrace cfg n 0 vccs = tr) ↔
    ∃ m, (bs.head?.elim [] (fun b => spirvTrace bs m b.label vccs)) = tr

end Unemups4.Gcn

import Unemups4.Inst

/-! The control-flow graph both executors consume: leaders, basic blocks with their
terminators, and the shape check on the single loop. Offsets are dword offsets into
the decoded stream. -/
namespace Unemups4.Gcn

/-- The whole-wave predicate a conditional branch tests. -/
inductive BranchCond where
  | vccz
  | vccnz
  | execz
  | execnz
  deriving DecidableEq, Repr

inductive Terminator where
  | fallthrough (target : ℕ)
  | branch (target : ℕ)
  | cond (cond : BranchCond) (taken fall : ℕ)
  | ret
  deriving DecidableEq, Repr

structure BasicBlock where
  start : ℕ
  insts : List ℕ
  terminator : Terminator
  deriving DecidableEq, Repr

structure Cfg where
  blocks : List BasicBlock
  deriving DecidableEq, Repr

structure LoopInfo where
  header : ℕ
  backEdgeBlock : ℕ
  merge : ℕ
  cond : BranchCond
  deriving DecidableEq, Repr

/-- `panicked` stands for a failed `expect`; the other constructors are the source's. -/
inductive CfgError where
  | irreducibleLoop (branchOff target : ℕ)
  | targetOutOfRange (branchOff target : ℕ)
  | unsupportedCondBranch (branchOff : ℕ) (op : SoppOp)
  | panicked
  deriving DecidableEq, Repr

def usizeMax : ℕ := 2^64-1

namespace Cfg

def blockIndexAt (cfg : Cfg) (start : ℕ) : Option ℕ :=
  cfg.blocks.findIdx? (fun b => b.start == start)

def uncondSucc (cfg : Cfg) (bi : ℕ) : Option ℕ :=
  match cfg.blocks[bi]? with
  | some ⟨_,_,.fallthrough target⟩ | some ⟨_,_,.branch target⟩ => cfg.blockIndexAt target
  | _ => none

/-- The `reach` closure of `merge_target`: follow unconditional edges from `b` until
one closes on a block already seen. -/
def reachFrom (cfg : Cfg) : ℕ → ℕ → List ℕ → List ℕ
  | 0, _, seen => seen
  | fuel+1, b, seen =>
      match cfg.uncondSucc b with
      | none => seen
      | some next =>
          if next ∈ seen ∨ seen.length > cfg.blocks.length then seen
          else reachFrom cfg fuel next (seen ++ [next])

def reach (cfg : Cfg) (start : ℕ) : List ℕ :=
  cfg.reachFrom (cfg.blocks.length+1) start [start]

def mergeTarget (cfg : Cfg) (bi : ℕ) : Option ℕ :=
  match cfg.blocks[bi]? with
  | some ⟨_,_,.cond _ taken fall⟩ => do
      let takenI ← cfg.blockIndexAt taken
      let fallI ← cfg.blockIndexAt fall
      let fallReach := cfg.reach fallI
      (((cfg.reach takenI).filter (· ∈ fallReach)).filterMap
        (fun i => cfg.blocks[i]?.map (·.start))).min?
  | _ => none

/-- The loop a block closes: a conditional whose taken arm lands at or before it. -/
def loopOf (cfg : Cfg) (bi : ℕ) : Option LoopInfo :=
  match cfg.blocks[bi]? with
  | some ⟨start,_,.cond cond taken fall⟩ =>
      if taken > start then none
      else some ⟨taken,start,fall,cond⟩
  | _ => none

end Cfg

def branchTarget (offsetDwords sizeDwords : ℕ) (simm16 : BitVec 16) : ℤ :=
  offsetDwords + sizeDwords + simm16.toInt

/-- Classification of a terminating instruction before its target is validated. -/
inductive TermKind where
  | done
  | uncond (target : ℤ)
  | cond (op : SoppOp) (cond : Option BranchCond) (target : ℤ)
  deriving DecidableEq, Repr

def classifyTerminator (d : Decoded) : Option TermKind :=
  match d.inst with
  | .sopp op simm16 =>
      let target := branchTarget d.offsetDwords d.sizeDwords simm16
      match op with
      | .sEndpgm => some .done
      | .sBranch => some (.uncond target)
      | .sCbranchVccz => some (.cond op (some .vccz) target)
      | .sCbranchVccnz => some (.cond op (some .vccnz) target)
      | .sCbranchExecz => some (.cond op (some .execz) target)
      | .sCbranchExecnz => some (.cond op (some .execnz) target)
      | .sCbranchScc0 | .sCbranchScc1 => some (.cond op none target)
      | _ => none
  | _ => none

def isEndpgm (d : Decoded) : Bool :=
  match d.inst with
  | .sopp .sEndpgm _ => true
  | _ => false

/-- The instructions up to and including the first `s_endpgm`. -/
def live (insts : List Decoded) : List Decoded :=
  insts.take (((insts.findIdx? isEndpgm).map (· + 1)).getD insts.length)

def indexOfOffset (live : List Decoded) (off : ℕ) : Option ℕ :=
  live.findIdx? (fun d => d.offsetDwords == off)

def validateTarget (live : List Decoded) (branchOff : ℕ) (target : ℤ) : Except CfgError ℕ :=
  if target < 0 then .error (.targetOutOfRange branchOff 0)
  else if (indexOfOffset live target.toNat).isNone then
    .error (.targetOutOfRange branchOff target.toNat)
  else .ok target.toNat

/-- The leader after a branch, if the stream goes on. -/
def nextLeader (rest : List Decoded) : List ℕ :=
  (rest.head?.map (·.offsetDwords)).toList

/-- Pass 1 over the instructions still to visit. -/
def branchLeaders (live : List Decoded) : List Decoded → Except CfgError (List ℕ)
  | [] => .ok []
  | d :: rest =>
      match classifyTerminator d with
      | none | some .done => branchLeaders live rest
      | some (.uncond target) => do
          let t ← validateTarget live d.offsetDwords target
          let more ← branchLeaders live rest
          return t :: (nextLeader rest ++ more)
      | some (.cond op none _) => .error (.unsupportedCondBranch d.offsetDwords op)
      | some (.cond _ (some _) target) => do
          let t ← validateTarget live d.offsetDwords target
          let more ← branchLeaders live rest
          return t :: (nextLeader rest ++ more)

def leaders (live : List Decoded) : Except CfgError (List ℕ) := do
  let more ← branchLeaders live live
  return ((nextLeader live ++ more).insertionSort (· ≤ ·)).dedup

def blockTerminator (live : List Decoded) (lastIdx : ℕ) (last : Decoded) (nextLeader : Option ℕ) :
    Except CfgError Terminator :=
  match classifyTerminator last with
  | some .done => .ok .ret
  | some (.uncond target) => .ok (.branch target.toNat)
  | some (.cond _ (some cond) target) =>
      let fall := (live[lastIdx+1]?.map (·.offsetDwords)).getD usizeMax
      .ok (.cond cond target.toNat fall)
  | some (.cond _ none _) => .error .panicked
  | none =>
      match nextLeader with
      | some next => .ok (.fallthrough next)
      | none => .ok .ret

/-- One block of pass 2: from `leader` up to the next leader or the end of `live`. -/
def cutBlock (live : List Decoded) (leader : ℕ) (next : Option ℕ) : Except CfgError BasicBlock :=
  match indexOfOffset live leader, next.elim (some live.length) (indexOfOffset live) with
  | some startIdx, some endIdx =>
      match live[endIdx-1]? with
      | some last =>
          if startIdx < endIdx then do
            let terminator ← blockTerminator live (endIdx-1) last next
            return ⟨leader,List.range' startIdx (endIdx-startIdx),terminator⟩
          else .error .panicked
      | none => .error .panicked
  | _, _ => .error .panicked

def cutBlocks (live : List Decoded) : List ℕ → Except CfgError (List BasicBlock)
  | [] => .ok []
  | leader :: rest => do
      let block ← cutBlock live leader rest.head?
      let blocks ← cutBlocks live rest
      return block :: blocks

/-- An `s_branch` that lands at or before its own block. -/
def backwardBranch (b : BasicBlock) : Bool :=
  match b.terminator with
  | .branch target => target ≤ b.start
  | _ => false

def isCond (b : BasicBlock) : Bool :=
  match b.terminator with
  | .cond .. => true
  | _ => false

/-- Another conditional inside the span of the loop that block `bi` closes. -/
def hasInnerCond (cfg : Cfg) (bi : ℕ) (li : LoopInfo) : Bool :=
  cfg.blocks.zipIdx.any fun (ob,obi) =>
    li.header ≤ ob.start && ob.start ≤ li.backEdgeBlock && obi != bi && isCond ob

/-- The loop checks from block `bi` on, `backEdges` counting those already seen. -/
def validateLoopsFrom (cfg : Cfg) : List ℕ → ℕ → Except CfgError Unit
  | [], _ => .ok ()
  | bi :: rest, backEdges =>
      match cfg.loopOf bi with
      | none => validateLoopsFrom cfg rest backEdges
      | some li =>
          let err := CfgError.irreducibleLoop li.backEdgeBlock li.header
          if backEdges+1 > 1 then .error err
          else if cfg.blockIndexAt li.header = some 0 then .error err
          else if (cfg.blockIndexAt li.merge).isNone then .error err
          else if hasInnerCond cfg bi li then .error err
          else validateLoopsFrom cfg rest (backEdges+1)

def validateLoops (cfg : Cfg) : Except CfgError Unit :=
  match cfg.blocks.find? backwardBranch with
  | some ⟨start,_,.branch target⟩ => .error (.irreducibleLoop start target)
  | _ => validateLoopsFrom cfg (List.range cfg.blocks.length) 0

def buildCfg (insts : List Decoded) : Except CfgError Cfg := do
  let ls ← leaders (live insts)
  let blocks ← cutBlocks (live insts) ls
  let cfg : Cfg := ⟨blocks⟩
  validateLoops cfg
  return cfg

end Unemups4.Gcn

import Unemups4.Interp

/-! The interpreter over the control-flow graph: block bodies, the two arms of a
forward branch under their lane masks, the iterations of a loop under a shrinking
mask, and the top-level walk. The step caps of the source are the fuel. -/
namespace Unemups4.Gcn

def isCfgBranch (d : Decoded) : Bool :=
  match d.inst with
  | .sopp .sBranch _ | .sopp .sCbranchScc0 _ | .sopp .sCbranchScc1 _ | .sopp .sCbranchVccz _
  | .sopp .sCbranchVccnz _ | .sopp .sCbranchExecz _ | .sopp .sCbranchExecnz _ => true
  | _ => false

/-- `s_waitcnt` and `s_nop`. -/
def isIdle (d : Decoded) : Bool :=
  match d.inst with
  | .sopp .sWaitcnt _ | .sopp .sNop _ => true
  | _ => false

/-- The error of a control-flow shape the interpreter defers on. -/
def branchError (offset : ℕ) : InterpError :=
  .unsupportedInst (.sopp .sBranch 0) offset

def cfgErrorToInterp : CfgError → InterpError
  | .irreducibleLoop branchOff _ => branchError branchOff
  | .targetOutOfRange branchOff _ => branchError branchOff
  | .unsupportedCondBranch branchOff op => .unsupportedInst (.sopp op 0) branchOff
  | .panicked => .panicked

/-- A block body from the instruction indices still to run; `true` means `s_endpgm`
ended the wave. -/
def runBody (E : Env) (insts : List Decoded) : List ℕ → Wave → Except InterpError (Bool × Wave)
  | [], w => .ok (false,w)
  | idx :: rest, w =>
      match insts[idx]? with
      | none => .error .panicked
      | some d =>
          if isEndpgm d then .ok (true,w)
          else if isIdle d || isCfgBranch d then runBody E insts rest w
          else do
            let w ← execOne E d w
            runBody E insts rest w

def runBlockBody (E : Env) (insts : List Decoded) (block : BasicBlock) (w : Wave) :
    Except InterpError (Bool × Wave) :=
  runBody E insts block.insts w

/-- The block that starts at an offset, with its index. -/
def Cfg.blockAt (cfg : Cfg) (start : ℕ) : Option (ℕ × BasicBlock) := do
  let bi ← cfg.blockIndexAt start
  let block ← cfg.blocks[bi]?
  return (bi,block)

/-- A straight-line arm under the current EXEC, up to the merge at `stop`. -/
def runRegion (E : Env) (insts : List Decoded) (cfg : Cfg) (stop : ℕ) :
    ℕ → ℕ → Wave → Except InterpError (Bool × Wave)
  | steps, cur, w =>
      if cur = stop then .ok (false,w)
      else
        match steps with
        | 0 => .error (branchError cur)
        | steps+1 =>
            match cfg.blockAt cur with
            | none => .error .panicked
            | some (_,block) => do
                let (ended,w) ← runBlockBody E insts block w
                if ended then return (true,w)
                match block.terminator with
                | .fallthrough target | .branch target =>
                    runRegion E insts cfg stop steps target w
                | .cond .. | .ret => .error (branchError block.start)

/-- One iteration of a loop body, up to the end of its back-edge block. -/
def runLoopBody (E : Env) (insts : List Decoded) (cfg : Cfg) (li : LoopInfo) :
    ℕ → ℕ → Wave → Except InterpError (Bool × Wave)
  | 0, cur, _ => .error (branchError cur)
  | steps+1, cur, w =>
      match cfg.blockAt cur with
      | none => .error .panicked
      | some (_,block) => do
          let (ended,w) ← runBlockBody E insts block w
          if ended then return (true,w)
          if cur = li.backEdgeBlock then return (false,w)
          match block.terminator with
          | .fallthrough target | .branch target => runLoopBody E insts cfg li steps target w
          | .cond .. | .ret => .error (branchError block.start)

/-- The live lanes that take the back-edge. -/
def continueMask (cond : BranchCond) (w : Wave) : Mask :=
  match cond with
  | .vccnz => w.exec &&& w.vcc
  | .vccz => w.exec &&& ~~~w.vcc
  | .execnz => w.exec
  | .execz => 0

def loopIterCap : ℕ := 65536

/-- The iterations of a loop whose header has already run once; EXEC is back to
`saved` at the end. -/
def runLoop (E : Env) (insts : List Decoded) (cfg : Cfg) (li : LoopInfo) (visitCap : ℕ)
    (saved : Mask) : ℕ → Wave → Except InterpError (Bool × Wave)
  | iters, w =>
      let mask := continueMask li.cond w
      if mask = 0 then .ok (false,{ w with exec := saved })
      else
        match iters with
        | 0 => .error (branchError li.backEdgeBlock)
        | iters+1 => do
            let (ended,w) ← runLoopBody E insts cfg li visitCap li.header { w with exec := mask }
            if ended then return (true,{ w with exec := saved })
            runLoop E insts cfg li visitCap saved iters w

/-- The lanes that go to the taken arm of a forward branch. -/
def takenMask (cond : BranchCond) (w : Wave) : Mask :=
  match cond with
  | .vccz => w.exec &&& ~~~w.vcc
  | .vccnz => w.exec &&& w.vcc
  | .execz => if w.exec = 0 then w.exec else 0
  | .execnz => if w.exec ≠ 0 then w.exec else 0

/-- An arm under `mask`; it is skipped when it is empty or no lane takes it. -/
def runArm (E : Env) (insts : List Decoded) (cfg : Cfg) (visitCap start merge : ℕ) (mask : Mask)
    (w : Wave) : Except InterpError (Bool × Wave) :=
  if start ≠ merge ∧ mask ≠ 0 then
    runRegion E insts cfg merge visitCap start { w with exec := mask }
  else .ok (false,w)

/-- Both arms of the forward branch that ends block `bi`, reconverging at its merge.
`none` means `s_endpgm` ended the wave inside an arm. -/
def runCond (E : Env) (insts : List Decoded) (cfg : Cfg) (visitCap bi start : ℕ)
    (cond : BranchCond) (taken fall : ℕ) (w : Wave) : Except InterpError (Option ℕ × Wave) :=
  if fall = usizeMax then .ok (some taken,w)
  else
    match cfg.mergeTarget bi with
    | none => .error (branchError start)
    | some merge => do
        let saved := w.exec
        let mask := takenMask cond w
        let (ended,w) ← runArm E insts cfg visitCap taken merge mask w
        if ended then return (none,w)
        let (ended,w) ← runArm E insts cfg visitCap fall merge (saved &&& ~~~mask) w
        if ended then return (none,w)
        return (some merge,{ w with exec := saved })

/-- Where the top-level walk goes after the body of block `bi`. -/
def runTerminator (E : Env) (insts : List Decoded) (cfg : Cfg) (visitCap bi : ℕ)
    (block : BasicBlock) (w : Wave) : Except InterpError (Option ℕ × Wave) :=
  match block.terminator with
  | .ret => .ok (none,w)
  | .fallthrough target | .branch target => .ok (some target,w)
  | .cond cond taken fall =>
      match cfg.loopOf bi with
      | some li => do
          let (ended,w) ← runLoop E insts cfg li visitCap w.exec loopIterCap w
          return (if ended then none else some li.merge,w)
      | none => runCond E insts cfg visitCap bi block.start cond taken fall w

/-- The top-level walk, from the block at `cur` on. -/
def walk (E : Env) (insts : List Decoded) (cfg : Cfg) (visitCap : ℕ) :
    ℕ → Option ℕ → Wave → Except InterpError Wave
  | _, none, w => .ok w
  | 0, some start, _ => .error (branchError start)
  | visits+1, some start, w =>
      match cfg.blockAt start with
      | none => .error .panicked
      | some (bi,block) => do
          let (ended,w) ← runBlockBody E insts block w
          if ended then return w
          let (next,w) ← runTerminator E insts cfg visitCap bi block w
          walk E insts cfg visitCap visits next w

def visitCap (cfg : Cfg) : ℕ := max (cfg.blocks.length*4) 16

def executeCfg (E : Env) (insts : List Decoded) (cfg : Cfg) (w : Wave) :
    Except InterpError Wave :=
  walk E insts cfg (visitCap cfg) (visitCap cfg) (cfg.blocks.head?.map (·.start)) w

def execute (E : Env) (insts : List Decoded) (w : Wave) : Except InterpError Wave :=
  match buildCfg insts with
  | .ok cfg => executeCfg E insts cfg w
  | .error e => .error (cfgErrorToInterp e)

/-- The launch ABI: what the wave holds before the first instruction. -/
inductive LaunchAbi where
  | vertex (userSgprs : List Word) (firstVertex : Word) (numLanes : ℕ)
  | pixel (userSgprs : List Word) (inputs : PsInputs) (baryI baryJ : Lane → Word) (exec : Mask)

def Wave.new : Wave where
  sgprs := fun _ => 0
  vgprs := fun _ _ => 0
  exec := 0
  vcc := 0
  scc := false
  m0 := 0
  exports := []

def launchSgprs (userSgprs : List Word) (n : ℕ) : Word :=
  if n < numSgprs then userSgprs.getD n 0 else 0

def LaunchAbi.inputs : LaunchAbi → PsInputs
  | .vertex .. => ⟨[]⟩
  | .pixel _ inputs .. => inputs

/-- The launch state; `first_vertex + lane` wraps like the release build. -/
def initLaunch : LaunchAbi → Wave
  | .vertex userSgprs firstVertex numLanes =>
      let n := min numLanes waveSize
      { Wave.new with
        sgprs := launchSgprs userSgprs
        vgprs := fun r lane =>
          if r = 0 ∧ lane.val < n then firstVertex+BitVec.ofNat 32 lane.val else 0
        exec := if n = waveSize then BitVec.allOnes 64 else (1#64 <<< n)-1 }
  | .pixel userSgprs _ baryI baryJ exec =>
      { Wave.new with
        sgprs := launchSgprs userSgprs
        vgprs := fun r lane => if r = 0 then baryI lane else if r = 1 then baryJ lane else 0
        exec := exec }

/-- Run a launched shader to its final state. -/
def runWave (F : FloatOps) (insts : List Decoded) (abi : LaunchAbi) (mem : Memory) :
    Except InterpError Wave :=
  execute ⟨F,mem,abi.inputs⟩ insts (initLaunch abi)

def run (F : FloatOps) (insts : List Decoded) (abi : LaunchAbi) (mem : Memory) :
    Except InterpError (List ExportRecord) :=
  (·.exports) <$> runWave F insts abi mem

end Unemups4.Gcn

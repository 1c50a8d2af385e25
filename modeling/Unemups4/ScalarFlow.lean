import Unemups4.LaneStep
import Unemups4.InterpCfg
import Unemups4.CfgBlocks

/-! Where the scalar registers of a wave come from. A register holds the launch value of some
register, a dword loaded through a launch pointer pair, or something else; one step of the
interpreter moves these origins as it moves the values. -/
namespace Unemups4.Gcn
open Fallible

/-- Guest memory as bytes: a read faults or returns the bytes of its range. -/
structure GuestMemory where
  byteAt : BitVec 64 → BitVec 8
  readable : BitVec 64 → ℕ → Bool

namespace GuestMemory

variable (g : GuestMemory)

def bytes (addr : BitVec 64) (size : ℕ) : List (BitVec 8) :=
  (List.range size).map fun i => g.byteAt (addr+BitVec.ofNat 64 i)

def view : Memory where
  readBytes := fun addr size => if g.readable addr size then .ok (g.bytes addr size) else .error "unmapped"
  length_eq := by
    intro addr size bytes h
    split_ifs at h
    cases h
    simp [GuestMemory.bytes]

def word (addr : BitVec 64) : Word := readLeU32 (g.bytes addr 4) 0

lemma bytes_getD (addr : BitVec 64) {size i : ℕ} (h : i < size) :
    (g.bytes addr size).getD i 0 = g.byteAt (addr+BitVec.ofNat 64 i) := by
  simp [bytes, List.getD, h]

lemma readLeU32_bytes (addr : BitVec 64) {size i : ℕ} (h : i+4 ≤ size) :
    readLeU32 (g.bytes addr size) i = g.word (addr+BitVec.ofNat 64 i) := by
  unfold word readLeU32
  rw [bytes_getD, bytes_getD, bytes_getD, bytes_getD, bytes_getD, bytes_getD, bytes_getD, bytes_getD]
  all_goals first
    | omega
    | skip
  simp only [BitVec.ofNat_add, ← add_assoc, Nat.zero_add, BitVec.add_zero]

lemma load_view {addr : BitVec 64} {size : ℕ} {bytes : List (BitVec 8)}
    (h : g.view.load addr size = .ok bytes) : bytes = g.bytes addr size := by
  unfold Memory.load view at h
  dsimp only at h
  split_ifs at h
  exact (Except.ok.inj h).symm

end GuestMemory

inductive Origin where
  | launch (n : ℕ)
  | loaded (pair offset : ℕ)
  | computed
  deriving DecidableEq, Repr

abbrev Origins := ℕ → Origin

/-- The 64-bit pointer in a pair of registers. -/
def pairPtr (regs : ℕ → Word) (n : ℕ) : BitVec 64 :=
  (regs n).setWidth 64 ||| ((regs (n+1)).setWidth 64 <<< 32)

/-- What a register of this origin holds, given the launch values. -/
def Origin.Holds (g : GuestMemory) (user : ℕ → Word) (v : Word) : Origin → Prop
  | launch n => v = user n
  | loaded pair offset => v = g.word (pairPtr user pair+BitVec.ofNat 64 offset)
  | computed => True

namespace Origins

def start : Origins := Origin.launch

def ofOperand (o : Origins) : Operand → Origin
  | .sgpr m => o m
  | _ => .computed

/-- The upper half of a pair operand. -/
def ofUpper (o : Origins) : Operand → Origin
  | .sgpr m => o (m+1)
  | _ => .computed

/-- The pair of launch registers that a pair still holds. -/
def pointer (o : Origins) (n : ℕ) : Option ℕ :=
  match o n, o (n+1) with
  | .launch s, .launch t => if t = s+1 then some s else none
  | _, _ => none

/-- The origin of dword `i` of a scalar load. -/
def ofLoad (o : Origins) (op : SmrdOp) (sbase : ℕ) (imm : Bool) (offset i : ℕ) : Origin :=
  if op.isBufferLoad || !imm then .computed
  else match o.pointer sbase with
    | some s => .loaded s (offset*4+i*4)
    | none => .computed

def set2 (o : Origins) (n : ℕ) (a b : Origin) : Origins :=
  Function.update (Function.update o n a) (n+1) b

/-- What one instruction does to the origins. -/
def step (o : Origins) : Inst → Origins
  | .sop1 .sMovB32 (.sgpr n) src => Function.update o n (o.ofOperand src)
  | .sop1 .sMovB64 (.sgpr n) src | .sop1 .sWqmB64 (.sgpr n) src =>
      o.set2 n (o.ofOperand src) (o.ofUpper src)
  | .smrd op (.sgpr n) sbase imm offset => fun m =>
      if n ≤ m ∧ m < n+op.dstCount.getD 0 then o.ofLoad op sbase imm offset (m-n) else o m
  | .vop3 (.cmp _) (.sgpr n) _ _ _ _ _ _ _ => o.set2 n .computed .computed
  | _ => o

/-- Every register holds what its origin says. -/
def Hold (o : Origins) (g : GuestMemory) (user : ℕ → Word) (w : Wave) : Prop :=
  ∀ n, (o n).Holds g user (w.sgprs n)

end Origins

lemma sgpr_ok {w : Wave} {n off : ℕ} {v : Word} (h : w.sgpr n off = .ok v) : v = w.sgprs n := by
  unfold Wave.sgpr at h
  split_ifs at h
  exact (Except.ok.inj h).symm

lemma readSgprU64_ok {w : Wave} {n off : ℕ} {ptr : BitVec 64} (h : w.readSgprU64 n off = .ok ptr) :
    ptr = pairPtr w.sgprs n := by
  obtain ⟨lo,hlo,h⟩ := bind_eq_ok.mp h
  obtain ⟨hi,hhi,h⟩ := bind_eq_ok.mp h
  rw [sgpr_ok hlo, sgpr_ok hhi] at h
  exact (Except.ok.inj h).symm

lemma setSgpr_sgprs {w w' : Wave} {n off : ℕ} {v : Word} (h : w.setSgpr n v off = .ok w') :
    w'.sgprs = Function.update w.sgprs n v := by
  unfold Wave.setSgpr at h
  split_ifs at h
  cases h
  rfl

/-- Registers the scalar load does not name keep their value. -/
lemma setSgprs_other {w w' : Wave} {off m : ℕ} {xs : List (ℕ × Word)} (hm : ∀ p ∈ xs, p.1 ≠ m)
    (h : w.setSgprs off xs = .ok w') : w'.sgprs m = w.sgprs m := by
  induction xs generalizing w with
  | nil =>
    cases h
    rfl
  | cons p xs ih =>
    obtain ⟨w₁,hset,h⟩ := bind_eq_ok.mp h
    rw [ih (fun q hq => hm q (List.mem_cons_of_mem _ hq)) h, setSgpr_sgprs hset]
    exact Function.update_of_ne (hm p List.mem_cons_self).symm _ _

lemma setSgprs_named {w w' : Wave} {off m : ℕ} {v : Word} {xs : List (ℕ × Word)}
    (hm : ∃ p ∈ xs, p.1 = m) (hv : ∀ p ∈ xs, p.1 = m → p.2 = v) (h : w.setSgprs off xs = .ok w') :
    w'.sgprs m = v := by
  induction xs generalizing w with
  | nil => simp at hm
  | cons p xs ih =>
    obtain ⟨w₁,hset,h⟩ := bind_eq_ok.mp h
    by_cases hrest : ∃ q ∈ xs, q.1 = m
    · exact ih hrest (fun q hq => hv q (List.mem_cons_of_mem _ hq)) h
    · have hp : p.1 = m := by
        obtain ⟨q,hq,hqm⟩ := hm
        rcases List.mem_cons.mp hq with rfl | hq
        · exact hqm
        · exact absurd ⟨q,hq,hqm⟩ hrest
      rw [setSgprs_other (fun q hq hqm => hrest ⟨q,hq,hqm⟩) h, setSgpr_sgprs hset, hp,
        Function.update_self]
      exact hv p List.mem_cons_self hp

/-- The registers after a scalar load of `count` dwords. -/
lemma setSgprs_range {w w' : Wave} {off n count : ℕ} {f : ℕ → Word}
    (h : w.setSgprs off ((List.range count).map fun i => (n+i,f i)) = .ok w') (m : ℕ) :
    w'.sgprs m = if n ≤ m ∧ m < n+count then f (m-n) else w.sgprs m := by
  split_ifs with hm
  · refine setSgprs_named ⟨(m,f (m-n)),?_,rfl⟩ ?_ h
    · refine List.mem_map.mpr ⟨m-n,List.mem_range.mpr (by omega),?_⟩
      rw [Nat.add_sub_cancel' hm.1]
    · intro p hp hpm
      obtain ⟨i,-,rfl⟩ := List.mem_map.mp hp
      have hi : m-n = i := by
        dsimp only at hpm
        omega
      rw [hi]
  · refine setSgprs_other ?_ h
    intro p hp hpm
    obtain ⟨i,hi,rfl⟩ := List.mem_map.mp hp
    have hlt := List.mem_range.mp hi
    dsimp only at hpm
    omega

/-- The masks a lane write may touch. -/
def LaneWrite.predicateDst : LaneWrite → Option Operand
  | .predicate o _ => some o
  | _ => none

/-- The mask a vector instruction writes. -/
def Inst.predicateDst : Inst → Option Operand
  | .vopc _ _ _ => some (.special .vccLo)
  | .vop2 .vAddI32 _ _ _ _ => some (.special .vccLo)
  | .vop3 (.cmp _) vdst _ _ _ _ _ _ _ => some vdst
  | _ => none

/-- Every mask the loop writes is the given one. -/
structure LaneOp.PredicatesTo (op : LaneOp) (dst : Option Operand) : Prop where
  idle : ∀ x ∈ op.idle, ∀ o, x.predicateDst = some o → dst = some o
  live : ∀ w lane ws, op.live w lane = .ok ws → ∀ x ∈ ws, ∀ o, x.predicateDst = some o → dst = some o

/-- The register is no half of the mask. -/
def Operand.Spares (m : ℕ) : Operand → Prop
  | .sgpr n => m ≠ n ∧ m ≠ n+1
  | _ => True

lemma write_sgprs {w w' : Wave} {lane : Lane} {off m : ℕ} {x : LaneWrite}
    (hx : ∀ o, x.predicateDst = some o → o.Spares m) (h : w.write lane off x = .ok w') :
    w'.sgprs m = w.sgprs m := by
  cases x with
  | dst vdst bits =>
    cases vdst with
    | vgpr n =>
      rw [setVgpr_ok h]
    | _ => cases h
  | vgpr n bits => rw [setVgpr_ok h]
  | predicate o set =>
    cases o with
    | sgpr n =>
      obtain ⟨hn,hn'⟩ := hx _ rfl
      have hset : ∃ reg v, m ≠ reg ∧ w.setSgpr reg v off = .ok w' := by
        simp only [Wave.write, Wave.writePredicateBit] at h
        obtain ⟨cur,-,h⟩ := bind_eq_ok.mp h
        refine ⟨_,_,?_,h⟩
        rw [Wave.predicateHalf]
        split_ifs
        · exact hn
        · exact hn'
      obtain ⟨reg,v,hreg,hset⟩ := hset
      rw [setSgpr_sgprs hset]
      exact Function.update_of_ne hreg _ _
    | special r =>
      cases r <;> cases h <;> rfl
    | _ => cases h
  | record target values =>
    cases h
    rfl

lemma LaneOp.PredicatesTo.run_sgprs {op : LaneOp} {dst : Option Operand} {w w' : Wave} {off m : ℕ}
    (hop : op.PredicatesTo dst) (hm : ∀ o, dst = some o → o.Spares m) (h : op.run off w = .ok w') :
    w'.sgprs m = w.sgprs m := by
  refine foldlM_rel (R := fun s t : Wave => t.sgprs m = s.sgprs m) (fun _ => rfl)
    (fun _ _ _ hst htu => htu.trans hst) (fun s lane t _ hst => ?_) h
  obtain ⟨ws,hws,hst⟩ := LaneOp.step_ok hst
  refine foldlM_rel (R := fun s t : Wave => t.sgprs m = s.sgprs m) (fun _ => rfl)
    (fun _ _ _ hst htu => htu.trans hst) (fun s x t hx hst => write_sgprs (fun o ho => hm o ?_) hst) hst
  rcases hws with ⟨-,hlive⟩ | ⟨-,rfl⟩
  · exact hop.live _ _ _ hlive x hx o ho
  · exact hop.idle x hx o ho

namespace LaneOp

variable {vdst src0 src1 src2 src3 pred : Operand} {off : ℕ} {dst : Option Operand}

/-- A loop that writes no mask. -/
lemma predicatesTo_of_quiet {op : LaneOp} (hidle : op.idle = [])
    (hlive : ∀ w lane ws, op.live w lane = .ok ws → ∀ x ∈ ws, x.predicateDst = none) :
    op.PredicatesTo dst := by
  refine ⟨fun x hx => ?_,fun w lane ws hws x hx o ho => ?_⟩
  · rw [hidle] at hx
    exact absurd hx List.not_mem_nil
  · rw [hlive w lane ws hws x hx] at ho
    cases ho

lemma unary_predicatesTo (f : Word → Word) : (unary vdst src0 off f).PredicatesTo dst := by
  refine predicatesTo_of_quiet rfl fun w lane ws h => ?_
  obtain ⟨a,-,h⟩ := bind_eq_ok.mp h
  cases h
  simp [LaneWrite.predicateDst]

lemma binary_predicatesTo (f : Word → Word → Word) :
    (binary vdst src0 src1 off f).PredicatesTo dst := by
  refine predicatesTo_of_quiet rfl fun w lane ws h => ?_
  obtain ⟨a,-,h⟩ := bind_eq_ok.mp h
  obtain ⟨b,-,h⟩ := bind_eq_ok.mp h
  cases h
  simp [LaneWrite.predicateDst]

lemma ternary_predicatesTo (f : Word → Word → Word → Word) :
    (ternary vdst src0 src1 src2 off f).PredicatesTo dst := by
  refine predicatesTo_of_quiet rfl fun w lane ws h => ?_
  obtain ⟨a,-,h⟩ := bind_eq_ok.mp h
  obtain ⟨b,-,h⟩ := bind_eq_ok.mp h
  obtain ⟨c,-,h⟩ := bind_eq_ok.mp h
  cases h
  simp [LaneWrite.predicateDst]

lemma quaternary_predicatesTo (f : Word → Word → Word → Word → Word) :
    (quaternary vdst src0 src1 src2 src3 off f).PredicatesTo dst := by
  refine predicatesTo_of_quiet rfl fun w lane ws h => ?_
  obtain ⟨a,-,h⟩ := bind_eq_ok.mp h
  obtain ⟨b,-,h⟩ := bind_eq_ok.mp h
  obtain ⟨c,-,h⟩ := bind_eq_ok.mp h
  obtain ⟨d,-,h⟩ := bind_eq_ok.mp h
  cases h
  simp [LaneWrite.predicateDst]

lemma select_predicatesTo : (select vdst src0 src1 off pred).PredicatesTo dst := by
  refine predicatesTo_of_quiet rfl fun w lane ws h => ?_
  obtain ⟨a,-,h⟩ := bind_eq_ok.mp h
  obtain ⟨b,-,h⟩ := bind_eq_ok.mp h
  obtain ⟨c,-,h⟩ := bind_eq_ok.mp h
  cases h
  simp [LaneWrite.predicateDst]

lemma compare_predicatesTo (f : Word → Word → Except InterpError Bool) :
    (compare src0 src1 off pred f).PredicatesTo (some pred) := by
  refine ⟨fun x hx o ho => ?_,fun w lane ws h x hx o ho => ?_⟩
  · rw [List.mem_singleton.mp hx] at ho
    exact ho
  · obtain ⟨a,-,h⟩ := bind_eq_ok.mp h
    obtain ⟨b,-,h⟩ := bind_eq_ok.mp h
    obtain ⟨r,-,h⟩ := bind_eq_ok.mp h
    cases h
    rw [List.mem_singleton.mp hx] at ho
    exact ho

lemma addCarry_predicatesTo :
    (addCarry vdst src0 src1 off).PredicatesTo (some (.special .vccLo)) := by
  refine ⟨fun x hx o ho => ?_,fun w lane ws h x hx o ho => ?_⟩
  · rw [List.mem_singleton.mp hx] at ho
    exact ho
  · obtain ⟨a,-,h⟩ := bind_eq_ok.mp h
    obtain ⟨b,-,h⟩ := bind_eq_ok.mp h
    cases h
    rcases List.mem_cons.mp hx with rfl | hx
    · exact ho
    · rw [List.mem_singleton.mp hx] at ho
      cases ho

end LaneOp

variable {E : Env} {d : Decoded} {w w' : Wave}

section Vector

variable {op : LaneOp}

lemma execVop2_predicatesTo {o : Vop2Op} {vdst src0 vsrc1 : Operand} {k : Option Word} {off : ℕ}
    (h : execVop2 E o vdst src0 vsrc1 k off = .ok op) :
    op.PredicatesTo (Inst.vop2 o vdst src0 vsrc1 k).predicateDst := by
  cases o with
  | vAddI32 =>
    cases h
    exact LaneOp.addCarry_predicatesTo
  | vCndmaskB32 =>
    cases h
    exact LaneOp.select_predicatesTo
  | vLshlrevB32 | vLshrrevB32 | vAndB32 | vCvtPkrtzF16F32 =>
    cases h
    exact LaneOp.binary_predicatesTo _
  | other code => cases h
  | _ =>
    cases h
    exact LaneOp.ternary_predicatesTo _

lemma execVop3_predicatesTo {o : Vop3Op} {vdst src0 src1 src2 : Operand} {abs neg : BitVec 8}
    {omod : ℕ} {clamp : Bool} {off : ℕ}
    (h : execVop3 E o vdst src0 src1 src2 abs neg omod clamp off = .ok op) :
    op.PredicatesTo (Inst.vop3 o vdst src0 src1 src2 abs neg omod clamp).predicateDst := by
  cases o with
  | cmp c =>
    simp only [execVop3] at h
    split_ifs at h
    cases h
    exact LaneOp.compare_predicatesTo _
  | vCndmaskB32 =>
    cases h
    exact LaneOp.select_predicatesTo
  | vMadU32U24 =>
    cases h
    exact LaneOp.ternary_predicatesTo _
  | vCvtPkrtzF16F32 =>
    cases h
    exact LaneOp.binary_predicatesTo _
  | other code => cases h
  | _ =>
    cases h
    exact LaneOp.quaternary_predicatesTo _

lemma execVintrp_predicatesTo {dst : Option Operand} {o : VintrpOp} {vdst vsrc : Operand}
    {attr chan off : ℕ} (h : execVintrp E o vdst vsrc attr chan off = .ok op) :
    op.PredicatesTo dst := by
  cases o with
  | vInterpP2F32 =>
    cases h
    exact LaneOp.binary_predicatesTo _
  | other code => cases h
  | _ =>
    cases h
    exact LaneOp.unary_predicatesTo _

/-- A fetch writes registers only. -/
lemma execMubuf_predicatesTo {dst : Option Operand} {o : MubufOp} {vdata vaddr : Operand}
    {srsrc : ℕ} {soffset : Operand} {offset : ℕ} {idxen offen : Bool} {off : ℕ}
    (h : execMubuf E o vdata vaddr srsrc soffset offset idxen offen off w = .ok op) :
    op.PredicatesTo dst := by
  unfold execMubuf at h
  split at h
  · cases h
  · obtain ⟨soff,-,h⟩ := bind_eq_ok.mp h
    obtain ⟨v,-,h⟩ := bind_eq_ok.mp h
    obtain ⟨vdata0,-,h⟩ := bind_eq_ok.mp h
    obtain ⟨reg,-,h⟩ := bind_eq_ok.mp h
    cases h
    refine LaneOp.predicatesTo_of_quiet rfl fun w lane ws h x hx => ?_
    obtain ⟨index,-,h⟩ := bind_eq_ok.mp h
    obtain ⟨voffset,-,h⟩ := bind_eq_ok.mp h
    obtain ⟨bytes,-,h⟩ := bind_eq_ok.mp h
    cases h
    obtain ⟨i,-,rfl⟩ := List.mem_map.mp hx
    rfl

/-- So does a sample. -/
lemma execMimg_predicatesTo {dst : Option Operand} {o : MimgOp} {vdata vaddr : Operand}
    {srsrc ssamp : ℕ} {dmask : BitVec 8} {unrm : Bool} {off : ℕ}
    (h : execMimg E o vdata vaddr srsrc ssamp dmask unrm off w = .ok op) : op.PredicatesTo dst := by
  unfold execMimg at h
  split_ifs at h
  obtain ⟨t,-,h⟩ := bind_eq_ok.mp h
  obtain ⟨bilinear,-,h⟩ := bind_eq_ok.mp h
  obtain ⟨vdata0,-,h⟩ := bind_eq_ok.mp h
  obtain ⟨vu,-,h⟩ := bind_eq_ok.mp h
  cases h
  refine LaneOp.predicatesTo_of_quiet rfl fun w lane ws h x hx => ?_
  obtain ⟨u,-,h⟩ := bind_eq_ok.mp h
  obtain ⟨v,-,h⟩ := bind_eq_ok.mp h
  obtain ⟨rgba,-,h⟩ := bind_eq_ok.mp h
  cases h
  obtain ⟨i,-,rfl⟩ := List.mem_map.mp hx
  rfl

/-- An export writes none, packed or not. -/
lemma execExp_predicatesTo {dst : Option Operand} (target : ExportTarget)
    (srcs : List (Option Operand)) (compr : Bool) (off : ℕ) :
    (execExp E target srcs compr off).PredicatesTo dst := by
  unfold execExp
  split_ifs
  · refine LaneOp.predicatesTo_of_quiet rfl fun w lane ws h x hx => ?_
    obtain ⟨⟨r,g⟩,-,h⟩ := bind_eq_ok.mp h
    obtain ⟨⟨b,a⟩,-,h⟩ := bind_eq_ok.mp h
    cases h
    rw [List.mem_singleton.mp hx]
    rfl
  · refine LaneOp.predicatesTo_of_quiet rfl fun w lane ws h x hx => ?_
    obtain ⟨r,-,h⟩ := bind_eq_ok.mp h
    obtain ⟨g,-,h⟩ := bind_eq_ok.mp h
    obtain ⟨b,-,h⟩ := bind_eq_ok.mp h
    obtain ⟨a,-,h⟩ := bind_eq_ok.mp h
    cases h
    rw [List.mem_singleton.mp hx]
    rfl

end Vector

/-- A vector instruction writes no mask but its own. -/
lemma laneOp_predicatesTo {op : LaneOp} (h : laneOp E d w = some (.ok op)) :
    op.PredicatesTo d.inst.predicateDst := by
  obtain ⟨inst,size,off⟩ := d
  cases inst with
  | vop1 o vdst src0 =>
    simp only [laneOp, Option.some.injEq, execVop1] at h
    split_ifs at h
    cases h
    exact LaneOp.unary_predicatesTo _
  | vop2 => exact execVop2_predicatesTo (Option.some.inj h)
  | vop3 => exact execVop3_predicatesTo (Option.some.inj h)
  | vopc o src0 vsrc1 =>
    obtain ⟨_,-,h⟩ := bind_eq_ok.mp (Option.some.inj h)
    cases h
    exact LaneOp.compare_predicatesTo _
  | mubuf => exact execMubuf_predicatesTo (Option.some.inj h)
  | vintrp => exact execVintrp_predicatesTo (Option.some.inj h)
  | mimg => exact execMimg_predicatesTo (Option.some.inj h)
  | exp target srcs done compr vm =>
    obtain rfl := Except.ok.inj (Option.some.inj h)
    exact execExp_predicatesTo target srcs compr _
  | _ => cases h

/-- A vector instruction leaves alone every register that is no half of its mask. -/
lemma execOne_vector_sgprs {m : ℕ} (hd : d.inst.isScalar = false)
    (hm : ∀ o, d.inst.predicateDst = some o → o.Spares m) (h : execOne E d w = .ok w') :
    w'.sgprs m = w.sgprs m := by
  obtain ⟨op,hop,hrun⟩ := execOne_vector hd h
  exact (laneOp_predicatesTo hop).run_sgprs hm hrun

namespace Origins

variable {o : Origins} {g : GuestMemory} {user : ℕ → Word}

lemma Hold.update (h : o.Hold g user w) {n : ℕ} {v : Word} {a : Origin} (ha : a.Holds g user v)
    (hw : w'.sgprs = Function.update w.sgprs n v) : Hold (Function.update o n a) g user w' := by
  intro m
  rw [hw]
  by_cases hm : m = n
  · subst hm
    rwa [Function.update_self, Function.update_self]
  · rw [Function.update_of_ne hm, Function.update_of_ne hm]
    exact h m

lemma Hold.ofOperand (h : o.Hold g user w) {src : Operand} {v : Word} {off : ℕ}
    (hread : w.readScalar src off = .ok v) : (o.ofOperand src).Holds g user v := by
  cases src with
  | sgpr m =>
    rw [sgpr_ok hread]
    exact h m
  | _ => trivial

lemma set_lo (a b : Word) : (a.setWidth 64 ||| (b.setWidth 64 <<< 32)).setWidth 32 = a := by
  ext i hi
  simp

lemma set_hi (a b : Word) :
    ((a.setWidth 64 ||| (b.setWidth 64 <<< 32)) >>> 32).setWidth 32 = b := by
  ext i hi
  have hupper : 32+i < 64 := by omega
  have hlower : i < 64 := by omega
  simp [hupper, hlower, BitVec.getLsbD_eq_getElem hi]

/-- Both halves of a pair operand. -/
lemma Hold.ofPair (h : o.Hold g user w) {src : Operand} {v : BitVec 64} {off : ℕ}
    (hread : w.readScalarPair src off = .ok v) :
    (o.ofOperand src).Holds g user (v.setWidth 32) ∧
      (o.ofUpper src).Holds g user ((v >>> 32).setWidth 32) := by
  cases src with
  | sgpr m =>
    rw [readSgprU64_ok hread, pairPtr, set_lo, set_hi]
    exact ⟨h m,h (m+1)⟩
  | _ => exact ⟨trivial,trivial⟩

/-- A pointer pair that still holds its launch values. -/
lemma Hold.pointer (h : o.Hold g user w) {n s off : ℕ} {ptr : BitVec 64}
    (hs : o.pointer n = some s) (hread : w.readSgprU64 n off = .ok ptr) : ptr = pairPtr user s := by
  unfold Origins.pointer at hs
  split at hs
  · rename_i ha hb
    split_ifs at hs with hab
    cases hs
    subst hab
    have hlo := h n
    have hhi := h (n+1)
    rw [ha] at hlo
    rw [hb] at hhi
    rw [readSgprU64_ok hread, pairPtr, pairPtr, show w.sgprs n = user s from hlo,
      show w.sgprs (n+1) = user (s+1) from hhi]
  · cases hs

lemma Hold.set2 (h : o.Hold g user w) {n off : ℕ} {v : BitVec 64} {a b : Origin}
    (ha : a.Holds g user (v.setWidth 32)) (hb : b.Holds g user ((v >>> 32).setWidth 32))
    (hw : w.writeScalarPair (.sgpr n) v off = .ok w') : (o.set2 n a b).Hold g user w' := by
  obtain ⟨w₁,hlo,hhi⟩ := bind_eq_ok.mp hw
  exact (h.update ha (setSgpr_sgprs hlo)).update hb (setSgpr_sgprs hhi)

lemma Hold.congr (h : o.Hold g user w) (hw : w'.sgprs = w.sgprs) : o.Hold g user w' := by
  intro n
  rw [hw]
  exact h n

lemma Hold.sop1 (h : o.Hold g user w) {op : Sop1Op} {sdst src : Operand} {off : ℕ}
    (hw : execSop1 op sdst src off w = .ok w') : (o.step (.sop1 op sdst src)).Hold g user w' := by
  cases op with
  | sMovB32 =>
    obtain ⟨v,hread,hwrite⟩ := bind_eq_ok.mp hw
    cases sdst with
    | sgpr n => exact h.update (h.ofOperand hread) (setSgpr_sgprs hwrite)
    | special r => cases r <;> cases hwrite <;> exact h.congr rfl
    | _ => cases hwrite
  | sMovB64 | sWqmB64 =>
    obtain ⟨v,hread,hwrite⟩ := bind_eq_ok.mp hw
    obtain ⟨hlo,hhi⟩ := h.ofPair hread
    cases sdst with
    | sgpr n => exact h.set2 hlo hhi hwrite
    | special r => cases r <;> cases hwrite <;> exact h.congr rfl
    | _ => cases hwrite
  | _ => cases hw

/-- A dword of a scalar load. -/
lemma Hold.load {E : Env} (h : o.Hold g user w) (hmem : E.mem = g.view) {op : SmrdOp}
    {sbase offset off count i : ℕ} {imm : Bool} {addr : BitVec 64} {bytes : List (BitVec 8)}
    (haddr : w.smrdAddr op sbase imm offset off = .ok addr)
    (hload : E.mem.load addr (count*4) = .ok bytes) (hi : i < count) :
    (o.ofLoad op sbase imm offset i).Holds g user (readLeU32 bytes (i*4)) := by
  unfold Origins.ofLoad
  split_ifs with hkind
  · trivial
  · obtain ⟨hbuffer,himm⟩ : op.isBufferLoad = false ∧ imm = true := by simpa using hkind
    split
    · rename_i s hs
      obtain ⟨base,hbase,haddr⟩ := bind_eq_ok.mp haddr
      obtain ⟨byteOff,hoff,haddr⟩ := bind_eq_ok.mp haddr
      cases haddr
      simp only [Wave.smrdBase, hbuffer, Bool.false_eq_true, if_false] at hbase
      simp only [Wave.smrdByteOff, himm, if_true, Except.ok.injEq] at hoff
      subst hoff
      rw [hmem] at hload
      rw [g.load_view hload, g.readLeU32_bytes _ (by omega), h.pointer hs hbase]
      simp only [Origin.Holds, BitVec.ofNat_add, add_assoc]
    · trivial

lemma Hold.smrd {E : Env} (h : o.Hold g user w) (hmem : E.mem = g.view) {op : SmrdOp}
    {sdst : Operand} {sbase offset off : ℕ} {imm : Bool}
    (hw : execSmrd E op sdst sbase imm offset off w = .ok w') :
    (o.step (.smrd op sdst sbase imm offset)).Hold g user w' := by
  unfold execSmrd at hw
  split at hw
  · cases hw
  · rename_i count hcount
    obtain ⟨addr,haddr,hw⟩ := bind_eq_ok.mp hw
    obtain ⟨bytes,hload,hw⟩ := bind_eq_ok.mp hw
    cases sdst with
    | sgpr n =>
      intro m
      rw [setSgprs_range hw m]
      simp only [Origins.step, hcount, Option.getD_some]
      split_ifs with hm
      · exact h.load hmem haddr hload (by omega)
      · exact h m
    | _ => cases hw

/-- One step of the interpreter moves the origins with the values. -/
lemma Hold.step {E : Env} {d : Decoded} (h : o.Hold g user w) (hmem : E.mem = g.view)
    (hw : execOne E d w = .ok w') : (o.step d.inst).Hold g user w' := by
  obtain ⟨inst,size,off⟩ := d
  cases hs : inst.isScalar with
  | true =>
    cases inst with
    | sop1 op sdst src => exact h.sop1 hw
    | smrd op sdst sbase imm offset => exact h.smrd hmem hw
    | _ => cases hs
  | false =>
    have hsame {m : ℕ} (hm : ∀ x, inst.predicateDst = some x → x.Spares m) :
        w'.sgprs m = w.sgprs m := execOne_vector_sgprs hs hm hw
    cases inst with
    | sop1 | smrd => cases hs
    | vop3 op vdst src0 src1 src2 abs neg omod clamp =>
      cases op with
      | cmp c =>
        cases vdst with
        | sgpr n =>
          intro m
          simp only [Origins.step, Origins.set2]
          by_cases hm : m = n ∨ m = n+1
          · rcases hm with rfl | rfl
            · rw [Function.update_of_ne (by omega), Function.update_self]
              trivial
            · rw [Function.update_self]
              trivial
          · obtain ⟨hm₀,hm₁⟩ := not_or.mp hm
            rw [Function.update_of_ne hm₁, Function.update_of_ne hm₀, hsame ?_]
            · exact h m
            · rintro x ⟨⟩
              exact ⟨hm₀,hm₁⟩
        | _ =>
          refine h.congr (funext fun m => hsame ?_)
          rintro x ⟨⟩
          trivial
      | _ => exact h.congr (funext fun m => hsame nofun)
    | vop2 op vdst src0 vsrc1 k =>
      refine h.congr (funext fun m => hsame fun x hx => ?_)
      cases op <;> cases hx
      trivial
    | vopc op src0 vsrc1 =>
      refine h.congr (funext fun m => hsame ?_)
      rintro x ⟨⟩
      trivial
    | _ => exact h.congr (funext fun m => hsame nofun)

/-- The origins after the instructions of the given indices. -/
def through (insts : List Decoded) (o : Origins) (idxs : List ℕ) : Origins :=
  idxs.foldl (fun o i => match insts[i]? with
    | some d => o.step d.inst
    | none => o) o

/-- The origins when instruction `k` of a straight line is reached. -/
def before (insts : List Decoded) (k : ℕ) : Origins := start.through insts (List.range k)

lemma step_sopp (o : Origins) {d : Decoded} (h : isIdle d || isCfgBranch d) : o.step d.inst = o := by
  obtain ⟨inst,size,off⟩ := d
  cases inst with
  | sopp op simm => rfl
  | _ => cases h

lemma Hold.through {E : Env} {insts : List Decoded} {idxs : List ℕ} (h : o.Hold g user w)
    (hmem : E.mem = g.view) (hrun : runBody E insts idxs w = .ok (false,w')) :
    (o.through insts idxs).Hold g user w' := by
  induction idxs generalizing o w with
  | nil =>
    cases hrun
    exact h
  | cons idx rest ih =>
    unfold runBody at hrun
    cases hd : insts[idx]? with
    | none => simp [hd] at hrun
    | some d =>
      have hstep : o.through insts (idx :: rest) = (o.step d.inst).through insts rest := by
        simp [Origins.through, hd]
      rw [hstep]
      simp only [hd] at hrun
      split_ifs at hrun with hend hidle
      · cases hrun
      · rw [o.step_sopp hidle]
        exact ih h hrun
      · obtain ⟨w₁,hone,hrun⟩ := bind_eq_ok.mp hrun
        exact ih (h.step hmem hone) hrun

/-- On a straight line every register holds what its origin says. -/
theorem hold_before {E : Env} {insts : List Decoded} {k : ℕ} (hmem : E.mem = g.view)
    (hrun : runBody E insts (List.range k) w = .ok (false,w')) :
    (before insts k).Hold g w.sgprs w' := by
  have hstart : start.Hold g w.sgprs w := fun _ => rfl
  exact hstart.through hmem hrun

end Origins

lemma runBody_append {E : Env} {insts : List Decoded} (xs ys : List ℕ) (w : Wave) :
    runBody E insts (xs ++ ys) w = (do
      let r ← runBody E insts xs w
      if r.1 then return r else runBody E insts ys r.2) := by
  induction xs generalizing w with
  | nil => rfl
  | cons idx rest ih =>
    rw [List.cons_append, runBody, runBody]
    cases insts[idx]? with
    | none => rfl
    | some d =>
      dsimp only
      split_ifs
      · rfl
      · exact ih w
      · rw [bind_assoc]
        exact bind_congr fun w => ih w

/-- A graph of one block has all live instructions in it. -/
lemma straight_insts {insts : List Decoded} {b : BasicBlock} (h : buildCfg insts = .ok ⟨[b]⟩) :
    b.insts = List.range (live insts).length := by
  obtain ⟨ls,hls,h⟩ := bind_eq_ok.mp h
  obtain ⟨bs,hbs,h⟩ := bind_eq_ok.mp h
  obtain ⟨u,-,hcfg⟩ := bind_eq_ok.mp h
  cases hcfg
  have hstarts := cutBlocks_starts hbs
  obtain ⟨leader,hleader,hcut⟩ := cutBlocks_get hbs (k := 0) rfl
  obtain rfl : ls = [leader] := by
    rw [← hstarts] at hleader ⊢
    cases hleader
    rfl
  obtain ⟨startIdx,endIdx,last,hstart,hend,hlt,-,-,hinsts,-⟩ := cutBlock_ok hcut
  obtain rfl : (live insts).length = endIdx := Option.some.inj hend
  obtain ⟨d,hd⟩ : ∃ d, (live insts).head? = some d := by
    cases hlive : live insts with
    | nil => simp [hlive] at hlt
    | cons d rest => exact ⟨d,rfl⟩
  have hfirst : d.offsetDwords = leader := by
    have hmem : d.offsetDwords ∈ [leader] :=
      (leaders_mem hls _).mpr (.inl (by simp [nextLeader, hd]))
    exact List.mem_singleton.mp hmem
  obtain rfl : 0 = startIdx := by
    cases hlive : live insts with
    | nil => simp [hlive] at hd
    | cons e rest =>
      rw [hlive] at hd hstart
      cases hd
      simpa [indexOfOffset, List.findIdx?_cons, hfirst] using hstart
  rw [hinsts, Nat.sub_zero, List.range_eq_range']

/-- A wave of one block runs its live instructions in order; it holds at instruction `k` what
the first `k` of them leave. -/
theorem execute_straight {E : Env} {insts : List Decoded} {b : BasicBlock}
    (h : buildCfg insts = .ok ⟨[b]⟩) (hret : b.terminator = .ret) {k : ℕ}
    (hk : k ≤ (live insts).length) (w : Wave) :
    execute E insts w = (do
      let r ← runBody E insts (List.range k) w
      if r.1 then return r.2
      else (·.2) <$> runBody E insts (List.range' k ((live insts).length-k)) r.2) := by
  have hsplit : b.insts = List.range k ++ List.range' k ((live insts).length-k) := by
    have happ : List.range' 0 k ++ List.range' (0+k) ((live insts).length-k) =
        List.range' 0 (k+((live insts).length-k)) := List.range'_append_1
    rw [Nat.zero_add, Nat.add_sub_cancel' hk] at happ
    rw [straight_insts h, List.range_eq_range', List.range_eq_range', happ]
  have hat : (⟨[b]⟩ : Cfg).blockAt b.start = some (0,b) := by
    simp [Cfg.blockAt, Cfg.blockIndexAt]
  have hwalk : execute E insts w = (·.2) <$> runBody E insts b.insts w := by
    simp only [execute, h, executeCfg, visitCap]
    simp only [List.head?_cons, Option.map_some, List.length_singleton]
    rw [show max (1*4) 16 = 15+1 from rfl, walk, hat]
    simp only [runBlockBody, runTerminator, hret]
    cases runBody E insts b.insts w with
    | error e => rfl
    | ok r =>
      obtain ⟨ended,w'⟩ := r
      cases ended <;> rfl
  rw [hwalk, hsplit, runBody_append]
  cases runBody E insts (List.range k) w with
  | error e => rfl
  | ok r =>
    obtain ⟨ended,w'⟩ := r
    cases ended <;> rfl
end Unemups4.Gcn

import Unemups4.LoopShape
import Unemups4.SpirvCfg

/-! Walks of the emitted label graph against walks of the CFG. Blocks lowered one to
one keep the walk in step; the loop scaffold around the back-edge block takes three
labels for one block, and replaces the header's body when the two blocks differ. -/
namespace Unemups4.Gcn
open Fallible

variable {σ β : Type}

/-- Where a terminator sends the walk. -/
inductive WalkNext where
  | ret
  | stop
  | goto (j : ℕ) (vccs : List Bool)

def Cfg.goto (cfg : Cfg) (target : ℕ) (vccs : List Bool) : WalkNext :=
  match cfg.blockIndexAt target with
  | none => .stop
  | some j => .goto j vccs

def Cfg.next (cfg : Cfg) : Terminator → List Bool → WalkNext
  | .ret, _ => .ret
  | .fallthrough target, vccs | .branch target, vccs => cfg.goto target vccs
  | .cond cond taken fall, vccs =>
      match cond.resolve vccs with
      | none => .stop
      | some (take,vccs) => cfg.goto (if take then taken else fall) vccs

/-- The events after a terminator, given how the walk goes on from a block. -/
def WalkNext.trace (walk : ℕ → List Bool → List WalkEvent) : WalkNext → List WalkEvent
  | .ret => [.ret]
  | .stop => []
  | .goto j vccs => walk j vccs

lemma cfgTrace_succ {cfg : Cfg} {bi : ℕ} {b : BasicBlock} (hb : cfg.blocks[bi]? = some b)
    (n : ℕ) (vccs : List Bool) :
    cfgTrace cfg (n+1) bi vccs =
      .body bi :: (cfg.next b.terminator vccs).trace (cfgTrace cfg n) := by
  simp only [cfgTrace, hb]
  cases b.terminator with
  | ret => rfl
  | fallthrough target | branch target =>
    simp only [Cfg.next, Cfg.goto]
    cases cfg.blockIndexAt target <;> rfl
  | cond cond taken fall =>
    simp only [Cfg.next]
    cases cond.resolve vccs with
    | none => rfl
    | some p =>
      simp only [Cfg.goto]
      cases cfg.blockIndexAt (if p.1 then taken else fall) <;> rfl

/-- `term` lowers a terminator whose targets, named by `lab`, stay in `S`. -/
inductive Lowers (cfg : Cfg) (S : Set ℕ) (lab : ℕ → ℕ) : Terminator → SpirvTerm → Prop
  | ret : Lowers cfg S lab .ret .ret
  | fallthrough {target j : ℕ} : cfg.blockIndexAt target = some j → j ∈ S →
      Lowers cfg S lab (.fallthrough target) (.branch (lab j))
  | branch {target j : ℕ} : cfg.blockIndexAt target = some j → j ∈ S →
      Lowers cfg S lab (.branch target) (.branch (lab j))
  | vccz {taken fall j k merge : ℕ} : cfg.blockIndexAt taken = some j → j ∈ S →
      cfg.blockIndexAt fall = some k → k ∈ S →
      Lowers cfg S lab (.cond .vccz taken fall) (.selection merge true (lab j) (lab k))
  | vccnz {taken fall j k merge : ℕ} : cfg.blockIndexAt taken = some j → j ∈ S →
      cfg.blockIndexAt fall = some k → k ∈ S →
      Lowers cfg S lab (.cond .vccnz taken fall) (.selection merge false (lab j) (lab k))
  | execz {taken fall k : ℕ} : cfg.blockIndexAt fall = some k → k ∈ S →
      Lowers cfg S lab (.cond .execz taken fall) (.branch (lab k))
  | execnz {taken fall j : ℕ} : cfg.blockIndexAt taken = some j → j ∈ S →
      Lowers cfg S lab (.cond .execnz taken fall) (.branch (lab j))

lemma Lowers.next_mem {cfg : Cfg} {S : Set ℕ} {lab : ℕ → ℕ} {t : Terminator} {term : SpirvTerm}
    (h : Lowers cfg S lab t term) {vccs vccs' : List Bool} {j : ℕ}
    (hnext : cfg.next t vccs = .goto j vccs') : j ∈ S := by
  cases h <;> cases vccs <;>
    simp_all [Cfg.next, Cfg.goto, BranchCond.resolve]
  all_goals
    rename_i v _
    cases v <;> simp_all

/-- The lowered terminator goes on at the label of the block the CFG goes on at. -/
lemma Lowers.trace_eq {cfg : Cfg} {S : Set ℕ} {lab : ℕ → ℕ} {t : Terminator} {term : SpirvTerm}
    (h : Lowers cfg S lab t term) {bs : List (SpirvBlock β)} {l bi : ℕ} {code : β}
    (hfind : bs.find? (fun b => b.label == l) = some ⟨l,some (bi,code),term⟩) (m : ℕ)
    (vccs : List Bool) :
    spirvTrace bs (m+1) l vccs =
      .body bi :: (cfg.next t vccs).trace (fun j => spirvTrace bs m (lab j)) := by
  cases h <;> cases vccs <;>
    simp_all [spirvTrace, Cfg.next, Cfg.goto, BranchCond.resolve, WalkNext.trace]
  all_goals
    rename_i v _
    cases v <;> simp_all

/-- Block `bi` became the block labelled `lab bi`. -/
def Straight (cfg : Cfg) (bs : List (SpirvBlock β)) (S : Set ℕ) (lab : ℕ → ℕ) (bi : ℕ) : Prop :=
  ∃ b code term, cfg.blocks[bi]? = some b ∧ Lowers cfg S lab b.terminator term ∧
    bs.find? (fun b => b.label == lab bi) = some ⟨lab bi,some (bi,code),term⟩

/-- Block `bi` became a loop header, a body and a continue block. -/
def Scaffold (cfg : Cfg) (bs : List (SpirvBlock β)) (S : Set ℕ) (lab : ℕ → ℕ) (bi : ℕ) : Prop :=
  ∃ b code merge bodyL continueL j k negated taken fall, cfg.blocks[bi]? = some b ∧
    b.terminator = .cond (if negated then .vccz else .vccnz) taken fall ∧
    cfg.blockIndexAt taken = some j ∧ j ∈ S ∧ cfg.blockIndexAt fall = some k ∧ k ∈ S ∧
    bs.find? (fun b => b.label == lab bi) = some ⟨lab bi,none,.loopHeader merge continueL bodyL⟩ ∧
    bs.find? (fun b => b.label == bodyL) = some ⟨bodyL,some (bi,code),.branch continueL⟩ ∧
    bs.find? (fun b => b.label == continueL) =
      some ⟨continueL,none,.branchConditional negated (lab j) (lab k)⟩

lemma next_cond_trace_zero (cfg : Cfg) (cond : BranchCond) (taken fall : ℕ) (vccs : List Bool) :
    (cfg.next (.cond cond taken fall) vccs).trace (cfgTrace cfg 0) = [] := by
  simp only [Cfg.next]
  cases cond.resolve vccs with
  | none => rfl
  | some p =>
    simp only [Cfg.goto]
    cases cfg.blockIndexAt (if p.1 then taken else fall) <;> rfl

lemma Scaffold.trace_zero {cfg : Cfg} {bs : List (SpirvBlock β)} {S : Set ℕ} {lab : ℕ → ℕ}
    {bi : ℕ} (h : Scaffold cfg bs S lab bi) (vccs : List Bool) :
    spirvTrace bs 1 (lab bi) vccs = [] ∧ spirvTrace bs 2 (lab bi) vccs = [.body bi] := by
  obtain ⟨b,code,merge,bodyL,continueL,j,k,negated,taken,fall,-,-,-,-,-,-,hhead,hbody,-⟩ := h
  exact ⟨by simp [spirvTrace, hhead],by simp [spirvTrace, hhead, hbody]⟩

/-- Past the three scaffold labels the walk is where the back-edge block sends it. -/
lemma Scaffold.trace_eq {cfg : Cfg} {bs : List (SpirvBlock β)} {S : Set ℕ} {lab : ℕ → ℕ}
    {bi : ℕ} (h : Scaffold cfg bs S lab bi) :
    ∃ b, cfg.blocks[bi]? = some b ∧
      (∀ {vccs vccs' j}, cfg.next b.terminator vccs = .goto j vccs' → j ∈ S) ∧
      (∀ vccs, (cfg.next b.terminator vccs).trace (cfgTrace cfg 0) = []) ∧
      ∀ m vccs, spirvTrace bs (m+3) (lab bi) vccs =
        .body bi :: (cfg.next b.terminator vccs).trace (fun j => spirvTrace bs m (lab j)) := by
  obtain ⟨b,code,merge,bodyL,continueL,j,k,negated,taken,fall,hb,hterm,hj,hjS,hk,hkS,hhead,hbody,
    hcont⟩ := h
  have hlowers : Lowers cfg S lab b.terminator (.selection merge negated (lab j) (lab k)) := by
    rw [hterm]
    cases negated with
    | true => exact .vccz hj hjS hk hkS
    | false => exact .vccnz hj hjS hk hkS
  refine ⟨b,hb,hlowers.next_mem,fun vccs => hterm ▸ next_cond_trace_zero cfg _ _ _ vccs,
    fun m vccs => ?_⟩
  simp only [spirvTrace, hhead, hbody, hcont, hterm]
  cases vccs with
  | nil => cases negated <;> simp [Cfg.next, BranchCond.resolve, WalkNext.trace]
  | cons v vccs =>
    cases negated <;> cases v <;>
      simp [Cfg.next, Cfg.goto, BranchCond.resolve, WalkNext.trace, hj, hk]

section Walk

variable {cfg : Cfg} {bs : List (SpirvBlock β)} {S : Set ℕ} {lab : ℕ → ℕ}

theorem cfgTrace_simulated (hS : ∀ bi ∈ S, Straight cfg bs S lab bi ∨ Scaffold cfg bs S lab bi)
    (n : ℕ) {bi : ℕ} (hbi : bi ∈ S) (vccs : List Bool) :
    ∃ m, spirvTrace bs m (lab bi) vccs = cfgTrace cfg n bi vccs := by
  induction n generalizing bi vccs with
  | zero => exact ⟨0,rfl⟩
  | succ n ih =>
    -- the part after the terminator, from the induction hypothesis
    have hrest : ∀ next : WalkNext, (∀ j vccs', next = .goto j vccs' → j ∈ S) →
        ∃ m, next.trace (fun j => spirvTrace bs m (lab j)) = next.trace (cfgTrace cfg n) := by
      intro next hmem
      cases next with
      | ret => exact ⟨0,rfl⟩
      | stop => exact ⟨0,rfl⟩
      | goto j vccs' => exact ih (hmem j vccs' rfl) vccs'
    rcases hS bi hbi with ⟨b,code,term,hb,hlow,hfind⟩ | hscaffold
    · obtain ⟨m,hm⟩ := hrest _ (fun _ _ hnext => hlow.next_mem hnext)
      refine ⟨m+1,?_⟩
      rw [hlow.trace_eq hfind, cfgTrace_succ hb, hm]
    · obtain ⟨b,hb,hmem,hzero,htrace⟩ := hscaffold.trace_eq
      obtain ⟨m,hm⟩ := hrest _ (fun _ _ hnext => hmem hnext)
      refine ⟨m+3,?_⟩
      rw [htrace, cfgTrace_succ hb, hm]

theorem spirvTrace_simulated (hS : ∀ bi ∈ S, Straight cfg bs S lab bi ∨ Scaffold cfg bs S lab bi)
    (m : ℕ) {bi : ℕ} (hbi : bi ∈ S) (vccs : List Bool) :
    ∃ n, cfgTrace cfg n bi vccs = spirvTrace bs m (lab bi) vccs := by
  induction m using Nat.strong_induction_on generalizing bi vccs with
  | _ m ih =>
    have hrest : ∀ next : WalkNext, (∀ j vccs', next = .goto j vccs' → j ∈ S) → ∀ p < m,
        ∃ n, next.trace (cfgTrace cfg n) = next.trace (fun j => spirvTrace bs p (lab j)) := by
      intro next hmem p hp
      cases next with
      | ret => exact ⟨0,rfl⟩
      | stop => exact ⟨0,rfl⟩
      | goto j vccs' => exact ih p hp (hmem j vccs' rfl) vccs'
    rcases hS bi hbi with ⟨b,code,term,hb,hlow,hfind⟩ | hscaffold
    · cases m with
      | zero => exact ⟨0,rfl⟩
      | succ m =>
        obtain ⟨n,hn⟩ := hrest _ (fun _ _ hnext => hlow.next_mem hnext) m (by omega)
        refine ⟨n+1,?_⟩
        rw [hlow.trace_eq hfind, cfgTrace_succ hb, hn]
    · obtain ⟨b,hb,hmem,hzero,htrace⟩ := hscaffold.trace_eq
      obtain ⟨hone,htwo⟩ := hscaffold.trace_zero vccs
      match m, ih, hrest with
      | 0, _, _ => exact ⟨0,rfl⟩
      | 1, _, _ => exact ⟨0,hone.symm⟩
      | 2, _, _ =>
        -- the body ran, the terminator has not
        refine ⟨1,?_⟩
        rw [htwo, cfgTrace_succ hb, hzero]
      | m+3, _, hrest =>
        obtain ⟨n,hn⟩ := hrest _ (fun _ _ hnext => hmem hnext) m (by omega)
        refine ⟨n+1,?_⟩
        rw [htrace, cfgTrace_succ hb, hn]

end Walk

end Unemups4.Gcn

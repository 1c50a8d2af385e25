import Unemups4.BlockPartition

/-! The merge of a conditional, as both executors take it, is its immediate post-dominator. -/
namespace Unemups4.Gcn
open FlowGraph

/-- The block at `k` ends the program. -/
def Cfg.Ends (cfg : Cfg) (k : ℕ) : Prop := ∃ b, cfg.blocks[k]? = some b ∧ b.terminator = .ret

/-- The unconditional edge of a block. -/
def Cfg.Flows (cfg : Cfg) (i j : ℕ) : Prop := cfg.uncondSucc i = some j

/-- No conditional closes a loop. -/
def Cfg.LoopFree (cfg : Cfg) : Prop := ∀ bi, cfg.loopOf bi = none

section Layout

variable {s : List Decoded} {cfg : Cfg}

lemma flows_cases {i j : ℕ} (h : cfg.Flows i j) : ∃ b t, cfg.blocks[i]? = some b ∧
    (b.terminator = .fallthrough t ∨ b.terminator = .branch t) ∧ cfg.blockIndexAt t = some j := by
  unfold Cfg.Flows Cfg.uncondSucc at h
  split at h
  · next start insts target hb => exact ⟨_,target,hb,.inl rfl,h⟩
  · next start insts target hb => exact ⟨_,target,hb,.inr rfl,h⟩
  · cases h

/-- Edges lead to later blocks only. -/
lemma edge_lt (hb : ∀ d ∈ s, d.offsetDwords < 2^32) (hl : Layout s cfg)
    (hfree : cfg.LoopFree) {i j : ℕ} (h : cfg.Edge i j) : i < j := by
  have hedge := h
  obtain ⟨b,-,hbi,-,-⟩ := h
  obtain ⟨k,d,hends⟩ := hl.endsAt i b hbi
  rcases hends.edge_cases hb hl hedge with rfl | ⟨c,t,hc,hstart,⟨-,hterm⟩ | ⟨op,cond,fall,-,hterm⟩⟩
  · omega
  · exact (hl.start_lt_iff hbi hc).mp (hl.checked.forward b (List.mem_of_getElem? hbi) _ hterm)
  · by_contra hnot
    have hle : c.start ≤ b.start := by
      have := (hl.start_lt_iff hbi hc).not.mpr hnot
      omega
    have := loopOf_of_cond hbi hterm hle
    simp [hfree i] at this

/-- An unconditional edge is the only one. -/
lemma forced_of_flows (hl : Layout s cfg) {i j : ℕ} (h : cfg.Flows i j) :
    Forced cfg.Edge cfg.Ends i j := by
  obtain ⟨b,t,hb,hterm,hj⟩ := flows_cases h
  constructor
  · rintro ⟨b',hb',hret⟩
    obtain rfl : b = b' := Option.some.inj (hb.symm.trans hb')
    rcases hterm with hterm | hterm <;> simp [hterm] at hret
  · rintro c ⟨b',bc,hb',hbc,hmem⟩
    obtain rfl : b = b' := Option.some.inj (hb.symm.trans hb')
    have hstart : bc.start = t := by
      rcases hterm with hterm | hterm <;> simpa [hterm,Terminator.targets] using hmem
    have := hl.blockIndexAt hbc
    rw [hstart,hj] at this
    exact (Option.some.inj this).symm

lemma edge_of_target (hl : Layout s cfg) {i : ℕ} {b : BasicBlock} (hb : cfg.blocks[i]? = some b) {t : ℕ}
    (ht : t ∈ b.terminator.targets) : ∃ j, cfg.blockIndexAt t = some j ∧ cfg.Edge i j := by
  obtain ⟨j,hj⟩ := hl.targets_start hb t ht
  obtain ⟨c,hc,rfl⟩ := blockIndexAt_eq_some hj
  exact ⟨j,hj,b,c,hb,hc,ht⟩

/-- A walk can go on unless it ends the program. -/
lemma ends_or_edge (hl : Layout s cfg) {i : ℕ} (hi : i < cfg.blocks.length) :
    cfg.Ends i ∨ ∃ j, cfg.Edge i j ∧ j < cfg.blocks.length := by
  have hb : cfg.blocks[i]? = some cfg.blocks[i] := List.getElem?_eq_getElem hi
  have hon {t : ℕ} (ht : t ∈ cfg.blocks[i].terminator.targets) :
      ∃ j, cfg.Edge i j ∧ j < cfg.blocks.length := by
    obtain ⟨j,-,hedge⟩ := edge_of_target hl hb ht
    have hto := hedge
    obtain ⟨-,c,-,hc,-⟩ := hto
    exact ⟨j,hedge,(List.getElem?_eq_some_iff.mp hc).1⟩
  cases hterm : cfg.blocks[i].terminator with
  | ret => exact .inl ⟨_,hb,hterm⟩
  | fallthrough t => exact .inr (hon (t := t) (by simp [hterm,Terminator.targets]))
  | branch t => exact .inr (hon (t := t) (by simp [hterm,Terminator.targets]))
  | cond c t f => exact .inr (hon (t := t) (by simp [hterm,Terminator.targets]))

end Layout

section Reach

variable {cfg : Cfg}

lemma flows_bound {i j : ℕ} (h : cfg.Flows i j) : i < cfg.blocks.length := by
  obtain ⟨b,-,hb,-,-⟩ := flows_cases h
  exact (List.getElem?_eq_some_iff.mp hb).1

lemma eq_of_stuck {i j : ℕ} (h : Relation.ReflTransGen cfg.Flows i j) (hi : ∀ k, ¬cfg.Flows i k) :
    j = i := by
  rcases Relation.ReflTransGen.cases_head_iff.mp h with rfl | ⟨k,hk,-⟩
  · rfl
  · exact absurd hk (hi k)

lemma mem_of_stuck {b j : ℕ} {seen : List ℕ} (hmem : b ∈ seen) (hnone : ∀ k, ¬cfg.Flows b k) :
    j ∈ seen ↔ j ∈ seen ∨ Relation.ReflTransGen cfg.Flows b j := by
  refine ⟨.inl,fun h => h.elim id fun h => ?_⟩
  rwa [eq_of_stuck h hnone]

lemma flows_next {b next j : ℕ} (h : cfg.Flows b next) :
    Relation.ReflTransGen cfg.Flows b j ↔ j = b ∨ Relation.ReflTransGen cfg.Flows next j := by
  rw [Relation.ReflTransGen.cases_head_iff]
  refine or_congr eq_comm ⟨?_,fun hj => ⟨next,h,hj⟩⟩
  rintro ⟨k,hk,hj⟩
  obtain rfl : next = k := Option.some.inj (h.symm.trans hk)
  exact hj

/-- The closure adds what flows from the block on; along growing indices it is never cut short. -/
lemma mem_reachFrom (hlt : ∀ i j, cfg.Flows i j → i < j) {fuel b : ℕ} {seen : List ℕ}
    (hfuel : cfg.blocks.length ≤ fuel+b) (hseen : ∀ i ∈ seen, i ≤ b) (hlen : seen.length ≤ b+1)
    (hmem : b ∈ seen) (j : ℕ) :
    j ∈ cfg.reachFrom fuel b seen ↔ j ∈ seen ∨ Relation.ReflTransGen cfg.Flows b j := by
  induction fuel generalizing b seen with
  | zero =>
    refine mem_of_stuck hmem fun k hk => ?_
    have := flows_bound hk
    omega
  | succ fuel ih =>
    unfold Cfg.reachFrom
    cases hnext : cfg.uncondSucc b with
    | none => exact mem_of_stuck hmem fun k hk => by simp [Cfg.Flows,hnext] at hk
    | some next =>
      have hflow : cfg.Flows b next := hnext
      have hbnext := hlt b next hflow
      have hbound := flows_bound hflow
      have hnot : ¬(next ∈ seen ∨ seen.length > cfg.blocks.length) := by
        rintro (hin | hlong)
        · have := hseen next hin
          omega
        · omega
      simp only [if_neg hnot]
      have hall : ∀ i ∈ seen ++ [next], i ≤ next := by
        intro i hi
        rcases List.mem_append.mp hi with hi | hi
        · have := hseen i hi
          omega
        · simp at hi
          omega
      rw [ih (by omega) hall (by simp; omega) (by simp),flows_next hflow]
      have hnext : j = next → Relation.ReflTransGen cfg.Flows next j := fun h => h ▸ .refl
      have hb : j = b → j ∈ seen := fun h => h ▸ hmem
      simp only [List.mem_append,List.mem_singleton]
      tauto

lemma mem_reach (hlt : ∀ i j, cfg.Flows i j → i < j) (b j : ℕ) :
    j ∈ cfg.reach b ↔ Relation.ReflTransGen cfg.Flows b j := by
  rw [Cfg.reach,mem_reachFrom hlt (by omega) (by simp) (by simp) (by simp),List.mem_singleton]
  exact ⟨fun h => h.elim (fun h => h ▸ .refl) id,.inr⟩

lemma le_of_flows (hlt : ∀ i j, cfg.Flows i j → i < j) {i j : ℕ}
    (h : Relation.ReflTransGen cfg.Flows i j) : i ≤ j := by
  induction h with
  | refl => exact le_rfl
  | tail _ hjk ih => exact ih.trans (hlt _ _ hjk).le

/-- What flows from a successor is a block. -/
lemma block_of_flows {a i j : ℕ} (hedge : cfg.Edge a i) (h : Relation.ReflTransGen cfg.Flows i j) :
    ∃ b, cfg.blocks[j]? = some b := by
  induction h with
  | refl =>
    obtain ⟨-,b,-,hb,-⟩ := hedge
    exact ⟨b,hb⟩
  | tail _ hjk _ =>
    obtain ⟨-,t,-,-,hk⟩ := flows_cases hjk
    obtain ⟨b,hb,-⟩ := blockIndexAt_eq_some hk
    exact ⟨b,hb⟩

/-- What both arms of the conditional at `bi` flow to, and the first block of it. -/
structure Meets (cfg : Cfg) (bi taken fall mi : ℕ) : Prop where
  arms : ∀ j, cfg.Edge bi j → j = taken ∨ j = fall
  edges : cfg.Edge bi taken ∧ cfg.Edge bi fall
  reached : mi ∈ cfg.reach taken ∧ mi ∈ cfg.reach fall
  first : ∀ x ∈ cfg.reach taken, x ∈ cfg.reach fall → ∀ m b, cfg.blocks[mi]? = some m →
    cfg.blocks[x]? = some b → m.start ≤ b.start

lemma mergeTarget_meets {s : List Decoded} (hl : Layout s cfg) {bi m : ℕ}
    (h : cfg.mergeTarget bi = some m) :
    ∃ b taken fall mi mb, cfg.blocks[bi]? = some b ∧ b.terminator ≠ .ret ∧ cfg.blocks[mi]? = some mb ∧
      mb.start = m ∧ Meets cfg bi taken fall mi := by
  unfold Cfg.mergeTarget at h
  split at h
  · next start insts c taken fall hb =>
    obtain ⟨takenI,htaken,h⟩ := Option.bind_eq_some_iff.mp h
    obtain ⟨fallI,hfall,h⟩ := Option.bind_eq_some_iff.mp h
    obtain ⟨hmem,hmin⟩ := List.min?_eq_some_iff.mp h
    obtain ⟨mi,hmi,hstart⟩ := List.mem_filterMap.mp hmem
    obtain ⟨mb,hmb,rfl⟩ := Option.map_eq_some_iff.mp hstart
    obtain ⟨hmt,hmf⟩ := List.mem_filter.mp hmi
    have htarget {t j : ℕ} (ht : t ∈ [taken,fall]) (hj : cfg.blockIndexAt t = some j) : cfg.Edge bi j := by
      obtain ⟨k,hk,hedge⟩ := edge_of_target hl hb ht
      obtain rfl : j = k := Option.some.inj (hj.symm.trans hk)
      exact hedge
    refine ⟨_,takenI,fallI,mi,mb,hb,by simp,hmb,rfl,?_,⟨htarget (by simp) htaken,htarget (by simp) hfall⟩,
      ⟨hmt,by simpa using hmf⟩,?_⟩
    · rintro j ⟨b,bj,hb',hbj,ht⟩
      obtain rfl := Option.some.inj (hb.symm.trans hb')
      have hj := hl.blockIndexAt hbj
      rcases List.mem_cons.mp ht with heq | ht
      · rw [heq,htaken] at hj
        exact .inl (Option.some.inj hj).symm
      · rw [List.mem_singleton.mp ht,hfall] at hj
        exact .inr (Option.some.inj hj).symm
    · intro x hxt hxf m b hm hb
      obtain rfl := Option.some.inj (hmb.symm.trans hm)
      exact hmin _ (List.mem_filterMap.mpr
        ⟨x,List.mem_filter.mpr ⟨hxt,by simpa using hxf⟩,by simp [hb]⟩)
  · cases h

end Reach

/-- The merge of a conditional comes first of all that every walk from it to an end visits. -/
theorem mergeTarget_immediatePostDominator (s : Stream) (cfg : Cfg) (hcfg : buildCfg s.insts = .ok cfg)
    (hfree : cfg.LoopFree) (bi m : ℕ) (h : cfg.mergeTarget bi = some m) :
    ∃ mi, cfg.blockIndexAt m = some mi ∧ ImmediatePostDominator cfg.Edge cfg.Ends bi mi := by
  have hl := buildCfg_layout s.contiguous hcfg
  have hbound : ∀ d ∈ live s.insts, d.offsetDwords < 2^32 := fun d hd => s.bounded d (List.mem_of_mem_take hd)
  have hlt : ∀ i j, cfg.Edge i j → i < j := fun i j => edge_lt hbound hl hfree
  have hflow : ∀ i j, cfg.Flows i j → i < j := by
    intro i j hij
    obtain ⟨b,t,hb,hterm,hj⟩ := flows_cases hij
    obtain ⟨k,hk,hedge⟩ := edge_of_target hl hb (t := t) (by
      rcases hterm with hterm | hterm <;> simp [hterm,Terminator.targets])
    obtain rfl : j = k := Option.some.inj (hj.symm.trans hk)
    exact hlt i j hedge
  obtain ⟨b,taken,fall,mi,mb,hb,hret,hmb,rfl,hmeets⟩ := mergeTarget_meets hl h
  have htaken := (mem_reach hflow _ _).mp hmeets.reached.1
  have hfall := (mem_reach hflow _ _).mp hmeets.reached.2
  refine ⟨mi,hl.blockIndexAt hmb,immediatePostDominator_of_forced (F := cfg.Flows) (r := id)
    (fun _ _ => forced_of_flows hl) hlt ?_ ?_ ?_ ?_ ?_⟩
  · rintro ⟨b',hb',hend⟩
    obtain rfl := Option.some.inj (hb.symm.trans hb')
    exact hret hend
  · intro j hj
    rcases hmeets.arms j hj with rfl | rfl
    · exact htaken
    · exact hfall
  · intro x hx
    have hxt := hx taken hmeets.edges.1
    obtain ⟨bx,hbx⟩ := block_of_flows hmeets.edges.1 hxt
    have hle := hmeets.first x ((mem_reach hflow _ _).mpr hxt)
      ((mem_reach hflow _ _).mpr (hx fall hmeets.edges.2)) mb bx hmb hbx
    have := hl.start_lt_iff hbx hmb
    simp only [id]
    omega
  · intro j hj
    obtain ⟨-,bj,-,hbj,-⟩ := hj
    exact exists_walk (r := id) hlt (P := (· < cfg.blocks.length)) (fun v hv => hv)
      (fun v hv => ends_or_edge hl hv) (List.getElem?_eq_some_iff.mp hbj).1
  · have hfirst := hlt bi taken hmeets.edges.1
    have := le_of_flows hflow htaken
    omega

/-- One arm of two instructions, one of a single one. -/
def diamond : Stream where
  insts := [soppAt 0 .sCbranchVccz 2,soppAt 1 .sNop 0,soppAt 2 .sBranch 1,soppAt 3 .sNop 0,
    soppAt 4 .sEndpgm 0]
  contiguous := by decide
  bounded := by decide

def diamondCfg : Cfg :=
  ⟨[⟨0,[0],.cond .vccz 3 1⟩,⟨1,[1,2],.branch 4⟩,⟨3,[3],.fallthrough 4⟩,⟨4,[4],.ret⟩]⟩

lemma diamond_loopFree : diamondCfg.LoopFree := by
  intro bi
  rcases bi with _ | _ | _ | _ | bi <;> rfl

theorem diamond_immediatePostDominator :
    ∃ mi, diamondCfg.blockIndexAt 4 = some mi ∧
      ImmediatePostDominator diamondCfg.Edge diamondCfg.Ends 0 mi :=
  mergeTarget_immediatePostDominator diamond diamondCfg (by decide) diamond_loopFree 0 4 (by decide)

end Unemups4.Gcn

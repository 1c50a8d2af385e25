import Unemups4.Cfg
import Unemups4.Fallible

/-! What `buildCfg` returns on a decoded stream: the leaders are the sorted offsets
of the entry, the branch targets and the instructions after a branch, and every
branch instruction ends the block that owns its offset. -/
namespace Unemups4.Gcn
open Fallible

lemma Contiguous.tail {d : Decoded} {s : List Decoded} (h : Contiguous (d :: s)) :
    Contiguous s := by
  cases s with
  | nil => trivial
  | cons e s => exact h.2.2

lemma Contiguous.size_pos {d : Decoded} {s : List Decoded} (h : Contiguous (d :: s)) :
    1 ≤ d.sizeDwords := by
  cases s with
  | nil => exact h
  | cons e s => exact h.1

lemma Contiguous.take {s : List Decoded} (h : Contiguous s) (n : ℕ) : Contiguous (s.take n) := by
  induction s generalizing n with
  | nil => simpa using h
  | cons d s ih =>
    cases n with
    | zero => trivial
    | succ n =>
      cases s with
      | nil => simpa using h
      | cons e s =>
        have hrest := ih h.tail n
        cases n with
        | zero => exact h.size_pos
        | succ n => exact ⟨h.1,h.2.1,hrest⟩

lemma Contiguous.pairwise {s : List Decoded} (h : Contiguous s) :
    s.Pairwise (fun d e => d.offsetDwords < e.offsetDwords) := by
  induction s with
  | nil => exact List.Pairwise.nil
  | cons d s ih =>
    refine List.Pairwise.cons ?_ (ih h.tail)
    intro e he
    have hsize := h.size_pos
    cases s with
    | nil => simp at he
    | cons c s =>
      have hc := h.2.1
      rcases List.mem_cons.mp he with rfl | hes
      · omega
      · have := (List.pairwise_cons.mp (ih h.tail)).1 e hes
        omega

lemma Contiguous.offset_succ {s : List Decoded} (h : Contiguous s) {i : ℕ} {d e : Decoded}
    (hd : s[i]? = some d) (he : s[i+1]? = some e) :
    e.offsetDwords = d.offsetDwords+d.sizeDwords := by
  induction s generalizing i with
  | nil => simp at hd
  | cons c s ih =>
    cases i with
    | zero =>
      cases s with
      | nil => simp at he
      | cons c' s =>
        simp only [List.getElem?_cons_zero, Option.some.injEq, List.getElem?_cons_succ] at hd he
        subst hd he
        exact h.2.1
    | succ i => exact ih h.tail hd he

lemma Contiguous.offset_lt {s : List Decoded} (h : Contiguous s) {i j : ℕ} {d e : Decoded}
    (hd : s[i]? = some d) (he : s[j]? = some e) (hij : i < j) :
    d.offsetDwords < e.offsetDwords := by
  obtain ⟨hi,rfl⟩ := List.getElem?_eq_some_iff.mp hd
  obtain ⟨hj,rfl⟩ := List.getElem?_eq_some_iff.mp he
  exact List.pairwise_iff_getElem.mp h.pairwise i j hi hj hij

lemma Contiguous.index_lt_iff {s : List Decoded} (h : Contiguous s) {i j : ℕ} {d e : Decoded}
    (hd : s[i]? = some d) (he : s[j]? = some e) :
    d.offsetDwords < e.offsetDwords ↔ i < j := by
  refine ⟨fun hlt => ?_,fun hij => h.offset_lt hd he hij⟩
  by_contra hij
  rcases Nat.lt_or_eq_of_le (Nat.le_of_not_lt hij) with hji | hji
  · have := h.offset_lt he hd hji
    omega
  · subst hji
    rw [hd] at he
    cases he
    omega

lemma Contiguous.index_eq {s : List Decoded} (h : Contiguous s) {i j : ℕ} {d e : Decoded}
    (hd : s[i]? = some d) (he : s[j]? = some e) (heq : d.offsetDwords = e.offsetDwords) :
    i = j := by
  have hlt := h.index_lt_iff hd he
  have hgt := h.index_lt_iff he hd
  omega

lemma indexOfOffset_eq_some {s : List Decoded} {off i : ℕ} (hi : indexOfOffset s off = some i) :
    ∃ d, s[i]? = some d ∧ d.offsetDwords = off := by
  obtain ⟨hlt,hoff,-⟩ := List.findIdx?_eq_some_iff_getElem.mp hi
  exact ⟨s[i],List.getElem?_eq_getElem hlt,by simpa using hoff⟩

lemma Contiguous.indexOfOffset {s : List Decoded} (h : Contiguous s) {i : ℕ} {d : Decoded}
    (hd : s[i]? = some d) : Gcn.indexOfOffset s d.offsetDwords = some i := by
  cases hfind : Gcn.indexOfOffset s d.offsetDwords with
  | none =>
    have hmem := List.mem_of_getElem? hd
    have := List.findIdx?_eq_none_iff.mp hfind d hmem
    simp at this
  | some j =>
    obtain ⟨e,he,heq⟩ := indexOfOffset_eq_some hfind
    rw [h.index_eq he hd heq]

/-- The branch instructions, with the target the hardware computes. -/
def branchOf (d : Decoded) : Option ℤ :=
  match classifyTerminator d with
  | some (.uncond target) => some target
  | some (.cond _ _ target) => some target
  | _ => none

lemma validateTarget_ok {s : List Decoded} {off : ℕ} {target : ℤ} {t : ℕ}
    (h : validateTarget s off target = .ok t) :
    0 ≤ target ∧ t = target.toNat ∧ ∃ i, indexOfOffset s t = some i := by
  unfold validateTarget at h
  split_ifs at h with hneg hnone
  cases h
  exact ⟨by omega,rfl,Option.ne_none_iff_exists'.mp (by simpa using hnone)⟩

/-- A leader contributed by pass 1: the target of a branch or the offset after one. -/
def BranchLeader (rest : List Decoded) (x : ℕ) : Prop :=
  ∃ i d t, rest[i]? = some d ∧ branchOf d = some t ∧
    (x = t.toNat ∨ ∃ e, rest[i+1]? = some e ∧ x = e.offsetDwords)

lemma mem_nextLeader {rest : List Decoded} {x : ℕ} :
    x ∈ nextLeader rest ↔ ∃ e, rest[0]? = some e ∧ x = e.offsetDwords := by
  cases rest <;> simp [nextLeader]

lemma branchLeader_cons {d : Decoded} {rest : List Decoded} {x : ℕ} :
    BranchLeader (d :: rest) x ↔
      (∃ t, branchOf d = some t ∧ (x = t.toNat ∨ x ∈ nextLeader rest)) ∨
        BranchLeader rest x := by
  constructor
  · rintro ⟨i,e,t,he,ht,hx⟩
    cases i with
    | zero =>
      cases he
      exact .inl ⟨t,ht,hx.imp_right mem_nextLeader.mpr⟩
    | succ i => exact .inr ⟨i,e,t,he,ht,hx⟩
  · rintro (⟨t,ht,hx⟩ | ⟨i,e,t,he,ht,hx⟩)
    · exact ⟨0,d,t,rfl,ht,hx.imp_right mem_nextLeader.mp⟩
    · exact ⟨i+1,e,t,he,ht,hx⟩

lemma branchLeaders_cons_branch {s rest : List Decoded} {d : Decoded} {t : ℤ} {ls : List ℕ}
    (ht : branchOf d = some t) (h : branchLeaders s (d :: rest) = .ok ls) :
    0 ≤ t ∧ (∃ i, indexOfOffset s t.toNat = some i) ∧
      ∃ more, branchLeaders s rest = .ok more ∧ ls = t.toNat :: (nextLeader rest ++ more) := by
  have hstep : (do
      let t ← validateTarget s d.offsetDwords t
      let more ← branchLeaders s rest
      return t :: (nextLeader rest ++ more)) = Except.ok ls := by
    unfold branchOf at ht
    unfold branchLeaders at h
    split at ht <;> simp_all
    split at h <;> simp_all
  obtain ⟨u,hv,hstep⟩ := bind_eq_ok.mp hstep
  obtain ⟨more,hmore,hls⟩ := bind_eq_ok.mp hstep
  obtain ⟨hpos,rfl,hidx⟩ := validateTarget_ok hv
  cases hls
  exact ⟨hpos,hidx,more,hmore,rfl⟩

lemma branchLeaders_cons_other {s rest : List Decoded} {d : Decoded} {ls : List ℕ}
    (ht : branchOf d = none) (h : branchLeaders s (d :: rest) = .ok ls) :
    branchLeaders s rest = .ok ls := by
  unfold branchOf at ht
  unfold branchLeaders at h
  split at h <;> simp_all

lemma branchLeaders_mem {s rest : List Decoded} {ls : List ℕ}
    (h : branchLeaders s rest = .ok ls) (x : ℕ) : x ∈ ls ↔ BranchLeader rest x := by
  induction rest generalizing ls with
  | nil =>
    cases h
    simp [BranchLeader]
  | cons d rest ih =>
    rw [branchLeader_cons]
    cases ht : branchOf d with
    | none =>
      rw [ih (branchLeaders_cons_other ht h)]
      simp
    | some t =>
      obtain ⟨-,-,more,hmore,rfl⟩ := branchLeaders_cons_branch ht h
      simp [ih hmore, or_assoc]

lemma branchLeaders_target {s rest : List Decoded} {ls : List ℕ}
    (h : branchLeaders s rest = .ok ls) {d : Decoded} (hd : d ∈ rest) {t : ℤ}
    (ht : branchOf d = some t) : 0 ≤ t ∧ ∃ i, indexOfOffset s t.toNat = some i := by
  induction rest generalizing ls with
  | nil => simp at hd
  | cons c rest ih =>
    cases hc : branchOf c with
    | none =>
      rcases List.mem_cons.mp hd with rfl | hd
      · simp [hc] at ht
      · exact ih (branchLeaders_cons_other hc h) hd
    | some u =>
      obtain ⟨hpos,hidx,more,hmore,-⟩ := branchLeaders_cons_branch hc h
      rcases List.mem_cons.mp hd with rfl | hd
      · rw [hc] at ht
        cases ht
        exact ⟨hpos,hidx⟩
      · exact ih hmore hd

lemma leaders_pairwise {s : List Decoded} {ls : List ℕ} (h : leaders s = .ok ls) :
    ls.Pairwise (· < ·) := by
  obtain ⟨more,-,hls⟩ := bind_eq_ok.mp h
  cases hls
  have hsorted := List.pairwise_insertionSort (· ≤ ·) (nextLeader s ++ more)
  have hle := hsorted.sublist (List.dedup_sublist _)
  exact (hle.and (List.nodup_dedup _)).imp (fun ⟨hab,hne⟩ => lt_of_le_of_ne hab hne)

lemma leaders_mem {s : List Decoded} {ls : List ℕ} (h : leaders s = .ok ls) (x : ℕ) :
    x ∈ ls ↔ x ∈ nextLeader s ∨ BranchLeader s x := by
  obtain ⟨more,hmore,hls⟩ := bind_eq_ok.mp h
  cases hls
  simp [branchLeaders_mem hmore x]

lemma leaders_target {s : List Decoded} {ls : List ℕ} (h : leaders s = .ok ls) {d : Decoded}
    (hd : d ∈ s) {t : ℤ} (ht : branchOf d = some t) :
    0 ≤ t ∧ ∃ i, indexOfOffset s t.toNat = some i := by
  obtain ⟨more,hmore,-⟩ := bind_eq_ok.mp h
  exact branchLeaders_target hmore hd ht

/-- Every leader is the offset of an instruction. -/
lemma leaders_offset {s : List Decoded} {ls : List ℕ} (h : leaders s = .ok ls) {x : ℕ}
    (hx : x ∈ ls) : ∃ (i : ℕ) (d : Decoded), s[i]? = some d ∧ x = d.offsetDwords := by
  rcases (leaders_mem h x).mp hx with hx | ⟨i,d,t,hd,ht,hx⟩
  · obtain ⟨e,he,hx⟩ := mem_nextLeader.mp hx
    exact ⟨0,e,he,hx⟩
  · rcases hx with hx | ⟨e,he,hx⟩
    · obtain ⟨-,j,hj⟩ := leaders_target h (List.mem_of_getElem? hd) ht
      obtain ⟨e,he,hoff⟩ := indexOfOffset_eq_some hj
      exact ⟨j,e,he,hx.trans hoff.symm⟩
    · exact ⟨i+1,e,he,hx⟩

lemma cutBlock_ok {s : List Decoded} {leader : ℕ} {next : Option ℕ} {b : BasicBlock}
    (h : cutBlock s leader next = .ok b) :
    ∃ startIdx endIdx last, indexOfOffset s leader = some startIdx ∧
      next.elim (some s.length) (indexOfOffset s) = some endIdx ∧ startIdx < endIdx ∧
      s[endIdx-1]? = some last ∧ b.start = leader ∧
      b.insts = List.range' startIdx (endIdx-startIdx) ∧
      blockTerminator s (endIdx-1) last next = .ok b.terminator := by
  unfold cutBlock at h
  split at h
  · rename_i startIdx endIdx hstart hend
    split at h
    · rename_i last hlast
      split_ifs at h with hlt
      obtain ⟨term,hterm,hb⟩ := bind_eq_ok.mp h
      cases hb
      exact ⟨startIdx,endIdx,last,hstart,hend,hlt,hlast,rfl,rfl,hterm⟩
    · cases h
  · cases h

lemma cutBlocks_get {s : List Decoded} {ls : List ℕ} {bs : List BasicBlock}
    (h : cutBlocks s ls = .ok bs) {k : ℕ} {b : BasicBlock} (hb : bs[k]? = some b) :
    ∃ leader, ls[k]? = some leader ∧ cutBlock s leader ls[k+1]? = .ok b := by
  induction ls generalizing bs k with
  | nil =>
    cases h
    simp at hb
  | cons leader rest ih =>
    obtain ⟨block,hblock,h⟩ := bind_eq_ok.mp h
    obtain ⟨blocks,hblocks,hbs⟩ := bind_eq_ok.mp h
    cases hbs
    cases k with
    | zero =>
      cases hb
      exact ⟨leader,rfl,by simpa [List.head?_eq_getElem?] using hblock⟩
    | succ k => exact ih hblocks hb

lemma cutBlocks_starts {s : List Decoded} {ls : List ℕ} {bs : List BasicBlock}
    (h : cutBlocks s ls = .ok bs) : bs.map (·.start) = ls := by
  induction ls generalizing bs with
  | nil =>
    cases h
    rfl
  | cons leader rest ih =>
    obtain ⟨block,hblock,h⟩ := bind_eq_ok.mp h
    obtain ⟨blocks,hblocks,hbs⟩ := bind_eq_ok.mp h
    cases hbs
    obtain ⟨_,_,_,-,-,-,-,hstart,-⟩ := cutBlock_ok hblock
    simp [hstart, ih hblocks]

/-- Block `k` ends with the instruction `d` at index `i`. -/
structure EndsAt (s : List Decoded) (cfg : Cfg) (k : ℕ) (b : BasicBlock) (i : ℕ) (d : Decoded) :
    Prop where
  block : cfg.blocks[k]? = some b
  inst : s[i]? = some d
  start_le : b.start ≤ d.offsetDwords
  next : cfg.blocks[k+1]?.map (·.start) = s[i+1]?.map (·.offsetDwords)
  term : blockTerminator s i d (cfg.blocks[k+1]?.map (·.start)) = .ok b.terminator

/-- How `buildCfg` lays blocks over the live instructions `s`. -/
structure Layout (s : List Decoded) (cfg : Cfg) : Prop where
  starts_lt : (cfg.blocks.map (·.start)).Pairwise (· < ·)
  mem_starts : ∀ x, x ∈ cfg.blocks.map (·.start) ↔ x ∈ nextLeader s ∨ BranchLeader s x
  offset : ∀ x ∈ cfg.blocks.map (·.start), ∃ (i : ℕ) (d : Decoded),
    s[i]? = some d ∧ x = d.offsetDwords
  target : ∀ d ∈ s, ∀ t, branchOf d = some t → 0 ≤ t
  endsAt : ∀ k b, cfg.blocks[k]? = some b → ∃ i d, EndsAt s cfg k b i d
  validated : validateLoops cfg = .ok ()

lemma live_contiguous {insts : List Decoded} (h : Contiguous insts) : Contiguous (live insts) :=
  h.take _

lemma cutBlock_endsAt {s : List Decoded} (hs : Contiguous s) {cfg : Cfg} {k : ℕ} {b : BasicBlock}
    (hb : cfg.blocks[k]? = some b)
    (hcut : cutBlock s b.start (cfg.blocks[k+1]?.map (·.start)) = .ok b) :
    ∃ i d, EndsAt s cfg k b i d := by
  obtain ⟨startIdx,endIdx,last,hstart,hend,hlt,hlast,-,-,hterm⟩ := cutBlock_ok hcut
  obtain ⟨first,hfirst,hfirstOff⟩ := indexOfOffset_eq_some hstart
  refine ⟨endIdx-1,last,hb,hlast,?_,?_,hterm⟩
  · rw [← hfirstOff]
    rcases Nat.lt_or_eq_of_le (Nat.le_sub_one_of_lt hlt) with hlt' | heq
    · exact (hs.offset_lt hfirst hlast hlt').le
    · subst heq
      rw [hfirst] at hlast
      cases hlast
      exact le_rfl
  · have hsucc : endIdx-1+1 = endIdx := by omega
    rw [hsucc]
    cases hnext : cfg.blocks[k+1]? with
    | none =>
      simp only [hnext, Option.map_none, Option.elim_none, Option.some.injEq] at hend
      subst hend
      simp
    | some b' =>
      simp only [hnext, Option.map_some, Option.elim_some] at hend
      obtain ⟨e,he,hoffe⟩ := indexOfOffset_eq_some hend
      simp [he, hoffe]

theorem buildCfg_layout {insts : List Decoded} (hs : Contiguous insts) {cfg : Cfg}
    (h : buildCfg insts = .ok cfg) : Layout (live insts) cfg := by
  obtain ⟨ls,hls,h⟩ := bind_eq_ok.mp h
  obtain ⟨bs,hbs,h⟩ := bind_eq_ok.mp h
  obtain ⟨u,hval,hcfg⟩ := bind_eq_ok.mp h
  cases hcfg
  have hstarts := cutBlocks_starts hbs
  have hoff : ∀ x ∈ bs.map (·.start), ∃ (i : ℕ) (d : Decoded),
      (live insts)[i]? = some d ∧ x = d.offsetDwords := by
    intro x hx
    rw [hstarts] at hx
    exact leaders_offset hls hx
  refine ⟨?_,?_,hoff,?_,?_,hval⟩
  · rw [hstarts]
    exact leaders_pairwise hls
  · intro x
    rw [hstarts]
    exact leaders_mem hls x
  · intro d hd t ht
    exact (leaders_target hls hd ht).1
  · intro k b hb
    obtain ⟨leader,hleader,hcut⟩ := cutBlocks_get hbs hb
    have hget : ∀ j : ℕ, ls[j]? = bs[j]?.map (·.start) := by
      intro j
      rw [← hstarts, List.getElem?_map]
    rw [hget] at hleader hcut
    simp only [hb, Option.map_some, Option.some.injEq] at hleader
    subst hleader
    exact cutBlock_endsAt (live_contiguous hs) hb hcut

lemma blockIndexAt_eq_some {cfg : Cfg} {x k : ℕ} (h : cfg.blockIndexAt x = some k) :
    ∃ b, cfg.blocks[k]? = some b ∧ b.start = x := by
  obtain ⟨hlt,hx,-⟩ := List.findIdx?_eq_some_iff_getElem.mp h
  exact ⟨cfg.blocks[k],List.getElem?_eq_getElem hlt,by simpa using hx⟩

namespace Layout

variable {s : List Decoded} {cfg : Cfg}

lemma start_lt (hl : Layout s cfg) {j k : ℕ} {b c : BasicBlock} (hb : cfg.blocks[j]? = some b)
    (hc : cfg.blocks[k]? = some c) (hjk : j < k) : b.start < c.start := by
  obtain ⟨hj,rfl⟩ := List.getElem?_eq_some_iff.mp hb
  obtain ⟨hk,rfl⟩ := List.getElem?_eq_some_iff.mp hc
  exact List.pairwise_iff_getElem.mp (List.pairwise_map.mp hl.starts_lt) j k hj hk hjk

lemma start_lt_iff (hl : Layout s cfg) {j k : ℕ} {b c : BasicBlock}
    (hb : cfg.blocks[j]? = some b) (hc : cfg.blocks[k]? = some c) :
    b.start < c.start ↔ j < k := by
  refine ⟨fun hlt => ?_,hl.start_lt hb hc⟩
  by_contra hjk
  rcases Nat.lt_or_eq_of_le (Nat.le_of_not_lt hjk) with hkj | rfl
  · have := hl.start_lt hc hb hkj
    omega
  · rw [hb] at hc
    cases hc
    omega

lemma index_eq (hl : Layout s cfg) {j k : ℕ} {b c : BasicBlock}
    (hb : cfg.blocks[j]? = some b) (hc : cfg.blocks[k]? = some c) (heq : b.start = c.start) :
    j = k := by
  have hlt := hl.start_lt_iff hb hc
  have hgt := hl.start_lt_iff hc hb
  omega

lemma blockIndexAt (hl : Layout s cfg) {k : ℕ} {b : BasicBlock}
    (hb : cfg.blocks[k]? = some b) : cfg.blockIndexAt b.start = some k := by
  cases hfind : cfg.blockIndexAt b.start with
  | none =>
    have := List.findIdx?_eq_none_iff.mp hfind b (List.mem_of_getElem? hb)
    simp at this
  | some j =>
    obtain ⟨c,hc,heq⟩ := blockIndexAt_eq_some hfind
    rw [hl.index_eq hc hb heq]

lemma block_of_start {x : ℕ} (hx : x ∈ cfg.blocks.map (·.start)) :
    ∃ (k : ℕ) (b : BasicBlock), cfg.blocks[k]? = some b ∧ b.start = x := by
  obtain ⟨b,hb,rfl⟩ := List.mem_map.mp hx
  obtain ⟨k,hk⟩ := List.mem_iff_getElem?.mp hb
  exact ⟨k,b,hk,rfl⟩

/-- Some block owns the offset of every live instruction. -/
lemma owner (hl : Layout s cfg) (hs : Contiguous s) {i : ℕ} {d : Decoded} (hd : s[i]? = some d) :
    ∃ (k : ℕ) (b : BasicBlock), cfg.blocks[k]? = some b ∧ b.start ≤ d.offsetDwords ∧
      ∀ b', cfg.blocks[k+1]? = some b' → d.offsetDwords < b'.start := by
  classical
  let After : ℕ → Prop := fun k => ∀ b, cfg.blocks[k]? = some b → d.offsetDwords < b.start
  have hend : ∃ k, After k := ⟨cfg.blocks.length,by simp [After]⟩
  have hstart : ¬ After 0 := by
    obtain ⟨hlt,-⟩ := List.getElem?_eq_some_iff.mp hd
    obtain ⟨first,hfirst⟩ : ∃ first, s[0]? = some first := ⟨_,List.getElem?_eq_getElem (by omega)⟩
    have hmem := (hl.mem_starts _).mpr (.inl (mem_nextLeader.mpr ⟨_,hfirst,rfl⟩))
    obtain ⟨k,b,hb,hbs⟩ := block_of_start hmem
    intro hafter
    have hklt := (List.getElem?_eq_some_iff.mp hb).1
    obtain ⟨b0,h0⟩ : ∃ b0, cfg.blocks[0]? = some b0 := ⟨_,List.getElem?_eq_getElem (by omega)⟩
    have hlt0 := hafter _ h0
    have hle0 : ¬ b.start < b0.start := by
      rw [hl.start_lt_iff hb h0]
      omega
    have hle : ¬ d.offsetDwords < first.offsetDwords := by
      rw [hs.index_lt_iff hd hfirst]
      omega
    omega
  obtain ⟨k,hk⟩ : ∃ k, Nat.find hend = k+1 := by
    refine Nat.exists_eq_succ_of_ne_zero ?_
    intro h0
    exact hstart (h0 ▸ Nat.find_spec hend)
  have hbefore : ¬ After k := Nat.find_min hend (by omega)
  obtain ⟨b,hb,hle⟩ : ∃ b, cfg.blocks[k]? = some b ∧ b.start ≤ d.offsetDwords := by
    simpa only [After, not_forall, not_lt, exists_prop] using hbefore
  exact ⟨k,b,hb,hle,hk ▸ Nat.find_spec hend⟩

/-- Every branch instruction is the last one of a block. -/
theorem endsAt_of_branch (hl : Layout s cfg) (hs : Contiguous s) {i : ℕ} {d : Decoded} {t : ℤ}
    (hd : s[i]? = some d) (ht : branchOf d = some t) :
    ∃ (k : ℕ) (b : BasicBlock), EndsAt s cfg k b i d := by
  obtain ⟨k,b,hb,hle,hafter⟩ := hl.owner hs hd
  obtain ⟨j,e,he⟩ := hl.endsAt k b hb
  have hnext := he.next
  have hij : ¬ i < j := by
    intro hij
    obtain ⟨hjlt,-⟩ := List.getElem?_eq_some_iff.mp he.inst
    obtain ⟨c',hsucc⟩ : ∃ c', s[i+1]? = some c' := ⟨_,List.getElem?_eq_getElem (by omega)⟩
    have hmem := (hl.mem_starts _).mpr (.inr ⟨i,d,t,hd,ht,.inr ⟨_,hsucc,rfl⟩⟩)
    obtain ⟨m,c,hc,hcs⟩ := block_of_start hmem
    have hdc := hs.offset_lt hd hsucc (Nat.lt_succ_self i)
    have hkm := (hl.start_lt_iff hb hc).mp (by omega)
    cases hn : cfg.blocks[k+1]? with
    | none =>
      have hmlt := (List.getElem?_eq_some_iff.mp hc).1
      have := List.getElem?_eq_none_iff.mp hn
      omega
    | some b' =>
      rw [hn] at hnext
      obtain ⟨e',he',hoff⟩ := Option.map_eq_some_iff.mp hnext.symm
      dsimp only at hoff
      have hcb := hs.offset_lt hsucc he' (by omega)
      have := (hl.start_lt_iff hc hn).mp (by omega)
      omega
  have hji : ¬ j < i := by
    intro hji
    obtain ⟨hilt,-⟩ := List.getElem?_eq_some_iff.mp hd
    obtain ⟨c',hsucc⟩ : ∃ c', s[j+1]? = some c' := ⟨_,List.getElem?_eq_getElem (by omega)⟩
    rw [hsucc] at hnext
    obtain ⟨b',hb',hoff⟩ := Option.map_eq_some_iff.mp hnext
    have hlt := hafter b' hb'
    rw [hoff, hs.index_lt_iff hd hsucc] at hlt
    omega
  obtain rfl : i = j := by omega
  obtain rfl : d = e := Option.some.inj (hd.symm.trans he.inst)
  exact ⟨k,b,he⟩

end Layout

end Unemups4.Gcn

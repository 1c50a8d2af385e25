import Unemups4.Decoder
import Unemups4.LoopShape

/-! The blocks of a graph partition the live instructions, and nothing that `buildCfg` takes for granted
fails on a decoded stream. -/
namespace Unemups4.Gcn
open Fallible

section Partition

variable {s : List Decoded}

lemma Contiguous.offset_le_of_le (h : Contiguous s) {i j : ℕ} {d e : Decoded} (hd : s[i]? = some d)
    (he : s[j]? = some e) (hij : i ≤ j) : d.offsetDwords ≤ e.offsetDwords := by
  rcases Nat.lt_or_eq_of_le hij with hlt | rfl
  · exact (h.offset_lt hd he hlt).le
  · rw [hd] at he
    cases he
    exact le_rfl

/-- The first leader is the first instruction. -/
lemma leaders_head (hs : Contiguous s) {ls : List ℕ} (h : leaders s = .ok ls) :
    ls.head? = s.head?.map (·.offsetDwords) := by
  cases ls with
  | nil =>
    cases s with
    | nil => rfl
    | cons d s => simpa [nextLeader] using (leaders_mem h d.offsetDwords).mpr (.inl (by simp [nextLeader]))
  | cons x ls =>
    obtain ⟨i,d,hd,hx⟩ := leaders_offset h (by simp : x ∈ x :: ls)
    obtain ⟨first,hfirst⟩ : ∃ first, s[0]? = some first :=
      ⟨_,List.getElem?_eq_getElem (by have := (List.getElem?_eq_some_iff.mp hd).1; omega)⟩
    have hmem : first.offsetDwords ∈ x :: ls :=
      (leaders_mem h _).mpr (.inl (mem_nextLeader.mpr ⟨first,hfirst,rfl⟩))
    have hle := hs.offset_le_of_le hfirst hd (Nat.zero_le i)
    have heq : first.offsetDwords = x := by
      rcases List.mem_cons.mp hmem with heq | hmem
      · exact heq
      · have := (List.pairwise_cons.mp (leaders_pairwise h)).1 _ hmem
        omega
    simp [List.head?_eq_getElem?,hfirst,heq]

/-- From a leader on, the blocks hold the rest of the instructions. -/
lemma cutBlocks_partition {ls : List ℕ} {bs : List BasicBlock} (h : cutBlocks s ls = .ok bs)
    {x i : ℕ} (hx : ls.head? = some x) (hi : indexOfOffset s x = some i) :
    bs.flatMap (·.insts) = List.range' i (s.length-i) := by
  induction ls generalizing bs x i with
  | nil => simp at hx
  | cons leader rest ih =>
    obtain ⟨block,hblock,h⟩ := bind_eq_ok.mp h
    obtain ⟨blocks,hblocks,hbs⟩ := bind_eq_ok.mp h
    cases hbs
    obtain ⟨startIdx,endIdx,last,hstart,hend,hlt,hlast,-,hinsts,-⟩ := cutBlock_ok hblock
    obtain rfl : leader = x := by simpa using hx
    obtain rfl : startIdx = i := by simpa [hstart] using hi
    rw [List.flatMap_cons,hinsts]
    cases rest with
    | nil =>
      cases hblocks
      obtain rfl : s.length = endIdx := by simpa using hend
      simp
    | cons y rest =>
      have hy : indexOfOffset s y = some endIdx := by simpa using hend
      have hle := (List.findIdx?_eq_some_iff_getElem.mp hy).1
      have hfirst : endIdx = startIdx+(endIdx-startIdx) := by omega
      have hrest : s.length-startIdx = (endIdx-startIdx)+(s.length-endIdx) := by omega
      rw [ih hblocks rfl hy,hrest,← List.range'_append_1,← hfirst]

end Partition

/-- The blocks cut the instructions `s` into runs, in order, that only their last instruction leaves, and
only for the start of a block. -/
structure WellFormed (s : List Decoded) (cfg : Cfg) : Prop where
  partition : cfg.blocks.flatMap (·.insts) = List.range s.length
  starts_lt : (cfg.blocks.map (·.start)).Pairwise (· < ·)
  first : ∀ b ∈ cfg.blocks, ∃ i d, b.insts.head? = some i ∧ s[i]? = some d ∧ d.offsetDwords = b.start
  straight : ∀ b ∈ cfg.blocks, ∀ i ∈ b.insts.dropLast, ∀ d, s[i]? = some d → classifyTerminator d = none
  targets : ∀ b ∈ cfg.blocks, ∀ t ∈ b.terminator.targets, ∃ k, cfg.blockIndexAt t = some k

/-- An `s_endpgm` is the last live instruction. -/
lemma endpgm_last {insts : List Decoded} {i : ℕ} {d : Decoded} (hd : (live insts)[i]? = some d)
    (hend : isEndpgm d) : i+1 = (live insts).length := by
  obtain ⟨hi,heq⟩ := List.getElem?_eq_some_iff.mp hd
  have hlen : i < insts.length := by
    have := List.length_take_le' (((insts.findIdx? isEndpgm).map (· + 1)).getD insts.length) insts
    rw [live] at hi
    omega
  have hget : isEndpgm insts[i] := by
    rw [← heq] at hend
    simpa [live] using hend
  cases hfind : insts.findIdx? isEndpgm with
  | none =>
    have := List.findIdx?_eq_none_iff.mp hfind insts[i] (List.getElem_mem hlen)
    simp [hget] at this
  | some j =>
    obtain ⟨hj,hendj,hbefore⟩ := List.findIdx?_eq_some_iff_getElem.mp hfind
    have hlive : (live insts).length = j+1 := by
      simp only [live,hfind,Option.map_some,Option.getD_some,List.length_take]
      omega
    have hji : ¬i < j := fun hij => hbefore i hij hget
    omega

lemma classify_done {d : Decoded} (h : classifyTerminator d = some .done) : isEndpgm d := by
  unfold classifyTerminator at h
  split at h
  · next op simm16 hinst => cases op <;> simp_all [isEndpgm]
  · cases h

lemma classify_none {d : Decoded} (hend : ¬isEndpgm d) (hbranch : branchOf d = none) :
    classifyTerminator d = none := by
  cases h : classifyTerminator d with
  | none => rfl
  | some k =>
    cases k with
    | done => exact absurd (classify_done h) hend
    | uncond target => simp [branchOf,h] at hbranch
    | cond op c target => simp [branchOf,h] at hbranch

namespace Layout

variable {s : List Decoded} {cfg : Cfg}

lemma index_of_start (hl : Layout s cfg) {x : ℕ} (hx : x ∈ cfg.blocks.map (·.start)) :
    ∃ k, cfg.blockIndexAt x = some k := by
  obtain ⟨k,b,hb,rfl⟩ := block_of_start hx
  exact ⟨k,hl.blockIndexAt hb⟩

/-- The fall of the last conditional is that of a loop, which has a block behind it. -/
lemma fall_of_last (hl : Layout s cfg) {k i : ℕ} {b : BasicBlock} {d : Decoded}
    (h : EndsAt s cfg k b i d) (hnone : s[i+1]? = none) {c : BranchCond} {u : ℤ} {fall : ℕ}
    (hu : branchOf d = some u) (hterm : b.terminator = .cond c u.toNat fall) :
    ∃ m, cfg.blockIndexAt fall = some m := by
  have htaken : u.toNat ∈ cfg.blocks.map (·.start) :=
    (hl.mem_starts _).mpr (.inr ⟨i,d,u,h.inst,hu,.inl rfl⟩)
  obtain ⟨m,t,ht,hstart⟩ := block_of_start htaken
  have hlast : cfg.blocks[k+1]? = none := by
    have := h.next
    rw [hnone] at this
    simpa using this
  have hmk : m ≤ k := by
    have := (List.getElem?_eq_some_iff.mp ht).1
    have := List.getElem?_eq_none_iff.mp hlast
    omega
  have hback : u.toNat ≤ b.start := by
    rw [← hstart]
    rcases Nat.lt_or_eq_of_le hmk with hlt | rfl
    · exact (hl.start_lt ht h.block hlt).le
    · obtain rfl : t = b := Option.some.inj (ht.symm.trans h.block)
      exact le_rfl
  have hloop := loopOf_of_cond h.block hterm hback
  exact hl.checked.merge k _ hloop

lemma targets_start (hl : Layout s cfg) {k : ℕ} {b : BasicBlock}
    (hb : cfg.blocks[k]? = some b) : ∀ t ∈ b.terminator.targets, ∃ m, cfg.blockIndexAt t = some m := by
  obtain ⟨i,d,h⟩ := hl.endsAt k b hb
  have htaken {u : ℤ} (hu : branchOf d = some u) : ∃ m, cfg.blockIndexAt u.toNat = some m :=
    hl.index_of_start ((hl.mem_starts _).mpr (.inr ⟨i,d,u,h.inst,hu,.inl rfl⟩))
  rcases blockTerminator_cases h.term with ⟨u,hu,hterm⟩ | ⟨op,c,u,hu,hterm⟩ | ⟨-,⟨x,hx,hterm⟩ | hterm⟩
  · simpa [hterm,Terminator.targets] using htaken (branchOf_uncond hu)
  · intro t ht
    have hbranch := branchOf_cond hu
    rw [hterm] at ht
    simp only [Terminator.targets,List.mem_cons,List.not_mem_nil,or_false] at ht
    rcases ht with rfl | rfl
    · exact htaken hbranch
    · cases hnext : s[i+1]? with
      | none =>
        rw [hnext] at hterm
        exact hl.fall_of_last h hnext hbranch hterm
      | some e =>
        exact hl.index_of_start ((hl.mem_starts _).mpr (.inr ⟨i,d,u,h.inst,hbranch,.inr ⟨e,hnext,rfl⟩⟩))
  · obtain ⟨n,hn,rfl⟩ := Option.map_eq_some_iff.mp hx
    simp [hterm,Terminator.targets,hl.blockIndexAt hn]
  · simp [hterm,Terminator.targets]

/-- A branch inside of a block would start another one behind it. -/
lemma branch_ends (hl : Layout s cfg) (hs : Contiguous s) {k i j : ℕ} {b : BasicBlock} {d e : Decoded}
    (h : EndsAt s cfg k b j e) (hd : s[i]? = some d) (hle : b.start ≤ d.offsetDwords) (hij : i < j) :
    branchOf d = none := by
  cases hu : branchOf d with
  | none => rfl
  | some u =>
    obtain ⟨k',b',h'⟩ := hl.endsAt_of_branch hs hd hu
    have hlt := hs.offset_lt hd h.inst hij
    have hkk : k ≤ k' := (h'.start_le_iff hs hl h.block).mp hle
    rcases Nat.lt_or_eq_of_le hkk with hlt' | rfl
    · have := h.offset_lt_of_index_lt hs hl h' hlt'
      omega
    · have := h.inst_unique hs h'
      rw [this] at hlt
      omega

end Layout

/-- The runs that the blocks hold, each from its start to where it ends. -/
lemma buildCfg_insts {insts : List Decoded} {cfg : Cfg} (h : buildCfg insts = .ok cfg) {k : ℕ}
    {b : BasicBlock} (hb : cfg.blocks[k]? = some b) :
    ∃ startIdx endIdx, startIdx < endIdx ∧ indexOfOffset (live insts) b.start = some startIdx ∧
      endIdx ≤ (live insts).length ∧ b.insts = List.range' startIdx (endIdx-startIdx) ∧
      (cfg.blocks[k+1]?.map (·.start)).elim (some (live insts).length) (indexOfOffset (live insts)) =
        some endIdx := by
  obtain ⟨ls,hls,h⟩ := bind_eq_ok.mp h
  obtain ⟨bs,hbs,h⟩ := bind_eq_ok.mp h
  obtain ⟨-,-,hcfg⟩ := bind_eq_ok.mp h
  cases hcfg
  obtain ⟨leader,hleader,hcut⟩ := cutBlocks_get hbs hb
  obtain ⟨startIdx,endIdx,last,hstart,hend,hlt,hlast,rfl,hinsts,-⟩ := cutBlock_ok hcut
  have hnext : ls[k+1]? = bs[k+1]?.map (·.start) := by
    rw [← cutBlocks_starts hbs,List.getElem?_map]
  have hle := (List.getElem?_eq_some_iff.mp hlast).1
  exact ⟨startIdx,endIdx,hlt,hstart,by omega,hinsts,by rw [← hnext]; exact hend⟩

lemma mem_dropLast_range' {i a n : ℕ} (h : i ∈ (List.range' a n).dropLast) : a ≤ i ∧ i+1 < a+n := by
  cases n with
  | zero => simp at h
  | succ n =>
    rw [List.range'_concat,List.dropLast_concat,List.mem_range'_1] at h
    omega

/-- A block ends with the last instruction of its run. -/
lemma EndsAt.index {s : List Decoded} (hs : Contiguous s) {cfg : Cfg} {k j : ℕ} {b : BasicBlock}
    {e : Decoded} (h : EndsAt s cfg k b j e) {endIdx : ℕ}
    (hend : (cfg.blocks[k+1]?.map (·.start)).elim (some s.length) (indexOfOffset s) = some endIdx) :
    j+1 = endIdx := by
  rw [h.next] at hend
  cases hnext : s[j+1]? with
  | none =>
    have hj := (List.getElem?_eq_some_iff.mp h.inst).1
    have := List.getElem?_eq_none_iff.mp hnext
    simp [hnext] at hend
    omega
  | some e' =>
    have := hs.indexOfOffset hnext
    simpa [hnext,this] using hend

lemma buildCfg_partition {insts : List Decoded} (hs : Contiguous insts) {cfg : Cfg}
    (h : buildCfg insts = .ok cfg) :
    cfg.blocks.flatMap (·.insts) = List.range (live insts).length := by
  obtain ⟨ls,hls,h⟩ := bind_eq_ok.mp h
  obtain ⟨bs,hbs,h⟩ := bind_eq_ok.mp h
  obtain ⟨-,-,hcfg⟩ := bind_eq_ok.mp h
  cases hcfg
  have hlive := live_contiguous hs
  have hhead := leaders_head hlive hls
  cases hfirst : (live insts)[0]? with
  | none =>
    have hnil : live insts = [] := by simpa using hfirst
    rw [hnil] at hhead ⊢
    obtain rfl : ls = [] := by simpa using hhead
    cases hbs
    rfl
  | some d =>
    rw [List.head?_eq_getElem? (l := live insts),hfirst] at hhead
    have := cutBlocks_partition hbs hhead (hlive.indexOfOffset hfirst)
    simpa [List.range_eq_range'] using this

theorem buildCfg_wellFormed {insts : List Decoded} (hs : Contiguous insts) {cfg : Cfg}
    (h : buildCfg insts = .ok cfg) : WellFormed (live insts) cfg := by
  have hl := buildCfg_layout hs h
  have hlive := live_contiguous hs
  refine ⟨buildCfg_partition hs h,hl.starts_lt,?_,?_,?_⟩
  · intro b hb
    obtain ⟨k,hk⟩ := List.mem_iff_getElem?.mp hb
    obtain ⟨startIdx,endIdx,hlt,hstart,-,hinsts,-⟩ := buildCfg_insts h hk
    obtain ⟨d,hd,hoff⟩ := indexOfOffset_eq_some hstart
    exact ⟨startIdx,d,by simp [hinsts,List.head?_range']; omega,hd,hoff⟩
  · intro b hb i hi d hd
    obtain ⟨k,hk⟩ := List.mem_iff_getElem?.mp hb
    obtain ⟨startIdx,endIdx,hlt,hstart,hle,hinsts,hnext⟩ := buildCfg_insts h hk
    obtain ⟨first,hfirst,hoff⟩ := indexOfOffset_eq_some hstart
    obtain ⟨j,e,hends⟩ := hl.endsAt k b hk
    have hj := hends.index hlive hnext
    rw [hinsts] at hi
    obtain ⟨hlo,hhi⟩ := mem_dropLast_range' hi
    have hstartle : b.start ≤ d.offsetDwords := hoff ▸ hlive.offset_le_of_le hfirst hd hlo
    refine classify_none (fun hend => ?_) (hl.branch_ends hlive hends hd hstartle (by omega))
    have := endpgm_last hd hend
    omega
  · intro b hb
    obtain ⟨k,hk⟩ := List.mem_iff_getElem?.mp hb
    exact hl.targets_start hk

section NoPanic

lemma validateTarget_not_panicked {s : List Decoded} {off : ℕ} {target : ℤ} :
    validateTarget s off target ≠ .error .panicked := by
  unfold validateTarget
  split_ifs <;> simp

lemma branchLeaders_not_panicked {s rest : List Decoded} :
    branchLeaders s rest ≠ .error .panicked := by
  induction rest with
  | nil => simp [branchLeaders]
  | cons d rest ih =>
    have hstep (t : ℤ) : (do
        let t ← validateTarget s d.offsetDwords t
        let more ← branchLeaders s rest
        return t :: (nextLeader rest ++ more)) ≠ Except.error CfgError.panicked := by
      intro h
      rcases bind_eq_error.mp h with h | ⟨u,-,h⟩
      · exact validateTarget_not_panicked h
      · rcases bind_eq_error.mp h with h | ⟨more,-,h⟩
        · exact ih h
        · cases h
    unfold branchLeaders
    split
    · exact ih
    · exact ih
    · exact hstep _
    · simp
    · exact hstep _

/-- Pass 1 stops at a conditional that it has no condition for. -/
lemma branchLeaders_cond {s rest : List Decoded} {ls : List ℕ} (h : branchLeaders s rest = .ok ls) :
    ∀ d ∈ rest, ∀ op t, classifyTerminator d ≠ some (.cond op none t) := by
  induction rest generalizing ls with
  | nil => simp
  | cons c rest ih =>
    intro d hd op t hcond
    rcases List.mem_cons.mp hd with rfl | hd
    · rw [branchLeaders,hcond] at h
      cases h
    · cases hbranch : branchOf c with
      | none => exact ih (branchLeaders_cons_other hbranch h) d hd op t hcond
      | some u =>
        obtain ⟨-,-,more,hmore,-⟩ := branchLeaders_cons_branch hbranch h
        exact ih hmore d hd op t hcond

lemma blockTerminator_not_panicked {s : List Decoded} {i : ℕ} {d : Decoded} {next : Option ℕ}
    (hcond : ∀ op t, classifyTerminator d ≠ some (.cond op none t)) :
    blockTerminator s i d next ≠ .error .panicked := by
  unfold blockTerminator
  split
  · simp
  · simp
  · simp
  · next op t hd => exact absurd hd (hcond op t)
  · split <;> simp

/-- Between two leaders there is a block. -/
lemma cutBlock_not_panicked {s : List Decoded} {leader : ℕ} {next : Option ℕ}
    {i j : ℕ} (hi : indexOfOffset s leader = some i)
    (hj : next.elim (some s.length) (indexOfOffset s) = some j) (hij : i < j) (hlen : j ≤ s.length)
    (hcond : ∀ d ∈ s, ∀ op t, classifyTerminator d ≠ some (.cond op none t)) :
    cutBlock s leader next ≠ .error .panicked := by
  have hlast : s[j-1]? = some s[j-1] := List.getElem?_eq_getElem (by omega)
  rw [cutBlock,hi,hj]
  simp only [hlast,if_pos hij]
  intro h
  rcases bind_eq_error.mp h with h | ⟨term,-,h⟩
  · exact blockTerminator_not_panicked (hcond _ (List.getElem_mem _)) h
  · cases h

lemma cutBlocks_not_panicked {s : List Decoded} (hs : Contiguous s) {ls : List ℕ}
    (hsorted : ls.Pairwise (· < ·))
    (hoff : ∀ x ∈ ls, ∃ (i : ℕ) (d : Decoded), s[i]? = some d ∧ x = d.offsetDwords)
    (hcond : ∀ d ∈ s, ∀ op t, classifyTerminator d ≠ some (.cond op none t)) :
    cutBlocks s ls ≠ .error .panicked := by
  induction ls with
  | nil => simp [cutBlocks]
  | cons x rest ih =>
    obtain ⟨hbefore,hrest⟩ := List.pairwise_cons.mp hsorted
    obtain ⟨i,d,hd,rfl⟩ := hoff x (by simp)
    have hi := (List.getElem?_eq_some_iff.mp hd).1
    intro h
    rcases bind_eq_error.mp h with h | ⟨b,-,h⟩
    · cases rest with
      | nil =>
        exact cutBlock_not_panicked (hs.indexOfOffset hd) rfl hi le_rfl hcond h
      | cons y rest =>
        obtain ⟨j,e,he,rfl⟩ := hoff y (by simp)
        have hij := (hs.index_lt_iff hd he).mp (hbefore _ (by simp))
        have hj := (List.getElem?_eq_some_iff.mp he).1
        exact cutBlock_not_panicked (hs.indexOfOffset hd) (by simpa using hs.indexOfOffset he) hij hj.le
          hcond h
    · rcases bind_eq_error.mp h with h | ⟨bs,-,h⟩
      · exact ih hrest (fun x hx => hoff x (by simp [hx])) h
      · cases h

lemma validateLoopsFrom_not_panicked {cfg : Cfg} {bis : List ℕ} {n : ℕ} :
    validateLoopsFrom cfg bis n ≠ .error .panicked := by
  induction bis generalizing n with
  | nil => simp [validateLoopsFrom]
  | cons bi bis ih =>
    unfold validateLoopsFrom
    split
    · exact ih
    · dsimp only
      split_ifs
      all_goals first | exact ih | simp

theorem buildCfg_not_panicked {insts : List Decoded} (hs : Contiguous insts) :
    buildCfg insts ≠ .error .panicked := by
  have hlive := live_contiguous hs
  intro h
  rcases bind_eq_error.mp h with h | ⟨ls,hls,h⟩
  · rcases bind_eq_error.mp h with h | ⟨more,-,h⟩
    · exact branchLeaders_not_panicked h
    · cases h
  rcases bind_eq_error.mp h with h | ⟨bs,-,h⟩
  · obtain ⟨more,hmore,-⟩ := bind_eq_ok.mp hls
    exact cutBlocks_not_panicked hlive (leaders_pairwise hls) (fun x => leaders_offset hls)
      (branchLeaders_cond hmore) h
  rcases bind_eq_error.mp h with h | ⟨-,-,h⟩
  · unfold validateLoops at h
    split at h
    · cases h
    · exact validateLoopsFrom_not_panicked h
  · cases h

end NoPanic

end Unemups4.Gcn

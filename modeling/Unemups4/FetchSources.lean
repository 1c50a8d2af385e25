import Unemups4.FetchShader

/-! Whether the attributes that the fetch-shader parser reports are the ones its loads fetch:
what every scalar register holds is followed through the loads, by name and in memory. -/
namespace Unemups4.Gcn

/-- What a scalar register holds: its launch value, a dword read through a launch pair, or a
dword read through a pair that a load had written. -/
inductive Provenance where
  | launch
  | dword (sbase : ℕ) (offset : BitVec 64)
  | chased (offset : BitVec 64)
  deriving DecidableEq

/-- What the order of the loads tells at one of them: the load that last named each quad, what
each scalar register holds, and whether v0 is still the launch value. -/
structure Tracked where
  named : ℕ → Option (ℕ × ℕ)
  holds : ℕ → Provenance
  indexKept : Bool

/-- A buffer load and what is known there. -/
structure FetchSite where
  named : Option (ℕ × ℕ)
  holds : Fin 4 → Provenance
  vaddr : Operand
  indexKept : Bool

namespace Tracked

def launch : Tracked := ⟨fun _ => none,fun _ => .launch,true⟩

def through (t : Tracked) (sbase : ℕ) (offset : BitVec 64) : Provenance :=
  if t.holds sbase = .launch ∧ t.holds (sbase+1) = .launch then .dword sbase offset
  else .chased offset

def step (t : Tracked) : FetchOp → Tracked
  | .load dst sbase offset =>
      { t with
        named := Function.update t.named dst (some (sbase,offset*smrdOffsetDwordBytes))
        holds := fun r =>
          if dst ≤ r ∧ r < dst+4 then t.through sbase (BitVec.ofNat 64 (offset*4+(r-dst)*4))
          else t.holds r }
  | .fetch destVgpr components _ _ _ _ _ =>
      { t with indexKept := t.indexKept && !(destVgpr == 0 && 0 < components) }

end Tracked

def fetchSites : List FetchOp → Tracked → List FetchSite
  | [], _ => []
  | .load dst sbase offset :: ops, t => fetchSites ops (t.step (.load dst sbase offset))
  | .fetch destVgpr components vaddr srsrc soffset offset offen :: ops, t =>
      ⟨t.named srsrc,fun j => t.holds (srsrc+j),vaddr,t.indexKept⟩ ::
        fetchSites ops (t.step (.fetch destVgpr components vaddr srsrc soffset offset offen))

/-- Each of the four registers still holds its dword of the load that named the quad, read
through a pair no load had written, and the index is v0 as launched. -/
def FetchSite.Clean (x : FetchSite) : Prop :=
  (∃ sbase offset, x.named = some (sbase,offset) ∧
    ∀ j : Fin 4, x.holds j = .dword sbase (BitVec.ofNat 64 (offset+j*4))) ∧
  x.vaddr = .vgpr 0 ∧ x.indexKept

lemma GuestMemory.word_low (g : GuestMemory) (addr : BitVec 64) :
    (g.word addr).setWidth 8 = g.byteAt addr := by
  have hbyte : (g.bytes addr 4).getD 0 0 = g.byteAt addr := by
    simpa using g.bytes_getD addr (show 0 < 4 by omega)
  rw [← hbyte]
  simp only [GuestMemory.word, readLeU32, Nat.zero_add]
  generalize (g.bytes addr 4).getD 0 0 = b₀
  ext i hi
  rw [BitVec.getElem_setWidth, BitVec.getLsbD_append]
  simp [hi]

lemma pairPtr_lo (regs : ℕ → Word) (n : ℕ) : (pairPtr regs n).setWidth 32 = regs n :=
  Origins.set_lo _ _

lemma pairPtr_hi (regs : ℕ → Word) (n : ℕ) : (pairPtr regs n >>> 32).setWidth 32 = regs (n+1) :=
  Origins.set_hi _ _

lemma pairPtr_ne_zero {regs : ℕ → Word} {n : ℕ} (h : regs n ≠ 0 ∨ regs (n+1) ≠ 0) :
    pairPtr regs n ≠ 0 := by
  intro hzero
  have hlo := pairPtr_lo regs n
  have hhi := pairPtr_hi regs n
  rw [hzero] at hlo hhi
  rcases h with h | h
  · exact h hlo.symm
  · exact h hhi.symm

/-- Any address can be the launch value of a pair. -/
lemma exists_pairPtr_eq (n : ℕ) (addr : BitVec 64) :
    ∃ regs : ℕ → Word, pairPtr regs n = addr := by
  refine ⟨fun r => if r = n then addr.setWidth 32 else (addr >>> 32).setWidth 32,?_⟩
  ext i hi
  by_cases hlow : i < 32
  · simp [pairPtr, hlow, BitVec.getLsbD_eq_getElem hi]
  · have hhigh : 32+(i-32) = i := by omega
    have hwidth : i-32 < 32 := by omega
    simp [pairPtr, hlow, hhigh, hwidth, BitVec.getLsbD_eq_getElem hi]

/-- Two places that are not the same pair and offset are different addresses for some launch
values of the pairs. -/
lemma exists_place_ne {n n' : ℕ} {off off' : BitVec 64} (h : n = n' → off ≠ off') :
    ∃ regs : ℕ → Word, pairPtr regs n+off ≠ pairPtr regs n'+off' := by
  have hzero (p : ℕ) : pairPtr (fun _ => 0) p = 0 := by simp [pairPtr]
  by_cases hoff : off = off'
  · subst hoff
    have hne : n' ≠ n := fun heq => h heq.symm rfl
    refine ⟨fun r => if r = n then 1 else 0,fun heq => ?_⟩
    have hlo := congrArg (BitVec.setWidth 32) (add_right_cancel heq)
    rw [pairPtr_lo, pairPtr_lo] at hlo
    simp [hne] at hlo
  · refine ⟨fun _ => 0,fun heq => hoff ?_⟩
    rw [hzero, hzero] at heq
    simpa using heq


/-- What a register of this provenance shows, given the launch registers. A dword read through
a loaded pair is one past some pointer that is not null, where no dword of memory is zero. -/
def Provenance.Shows (g : GuestMemory) (s₀ : FetchLane) (r : ℕ) (x : Word) : Provenance → Prop
  | launch => x = s₀.sgprs r
  | dword sbase offset => x = g.word (pairPtr s₀.sgprs sbase+offset)
  | chased offset => (∀ addr, g.word addr ≠ 0) → ∃ ptr ≠ 0, x = g.word (ptr+offset)

/-- The registers show what the order of the loads tells. -/
structure Tracked.Tracks (t : Tracked) (g : GuestMemory) (s₀ s : FetchLane) : Prop where
  holds : ∀ r, (t.holds r).Shows g s₀ r (s.sgprs r)
  index : t.indexKept → s.vgprs 0 = s₀.vgprs 0

section Tracking

variable {F : FloatOps} {g : GuestMemory} {special : SpecialReg → Word} {s₀ s : FetchLane}
  {t : Tracked}

lemma Tracked.launch_tracks : Tracked.launch.Tracks g s s := ⟨fun _ => rfl,fun _ => rfl⟩

lemma Provenance.Shows.ne_zero {pv : Provenance} {r : ℕ} {x : Word} (h : pv.Shows g s₀ r x)
    (hpv : pv ≠ .launch) (hg : ∀ addr, g.word addr ≠ 0) : x ≠ 0 := by
  cases pv with
  | launch => exact absurd rfl hpv
  | dword sbase offset =>
    rw [show x = _ from h]
    exact hg _
  | chased offset =>
    obtain ⟨ptr,-,hx⟩ := h hg
    rw [hx]
    exact hg _

namespace Tracked.Tracks

/-- A load through a pair reads where the launch registers point, or past a loaded pointer. -/
lemma through (h : t.Tracks g s₀ s) (sbase r : ℕ) (offset : BitVec 64) :
    (t.through sbase offset).Shows g s₀ r (g.word (pairPtr s.sgprs sbase+offset)) := by
  unfold Tracked.through
  have hlo := h.holds sbase
  have hhi := h.holds (sbase+1)
  split_ifs with hpair
  · rw [hpair.1] at hlo
    rw [hpair.2] at hhi
    simp only [Provenance.Shows] at hlo hhi ⊢
    rw [pairPtr, pairPtr, hlo, hhi]
  · intro hg
    refine ⟨_,pairPtr_ne_zero ?_,rfl⟩
    rcases not_and_or.mp hpair with hne | hne
    · exact .inl (hlo.ne_zero hne hg)
    · exact .inr (hhi.ne_zero hne hg)

lemma step (h : t.Tracks g s₀ s) (op : FetchOp) :
    (t.step op).Tracks g s₀ (s.step F g special op) := by
  cases op with
  | load dst sbase offset =>
    refine ⟨fun r => ?_,h.index⟩
    simp only [Tracked.step, FetchLane.step]
    split_ifs with hr
    · exact h.through sbase r _
    · exact h.holds r
  | fetch destVgpr components vaddr srsrc soffset offset offen =>
    refine ⟨h.holds,fun hkept => ?_⟩
    simp only [Tracked.step, Bool.and_eq_true, Bool.not_eq_true', Bool.and_eq_false_iff,
      beq_eq_false_iff_ne, decide_eq_false_iff_not] at hkept
    have hspared : ¬(destVgpr ≤ 0 ∧ 0 < destVgpr+components) := by omega
    simp only [FetchLane.step, hspared, if_false]
    exact h.index hkept.1

end Tracked.Tracks

/-- A buffer load is given what is known at its site. -/
structure FetchSite.Shows (x : FetchSite) (g : GuestMemory) (s₀ : FetchLane) (v : FetchView) :
    Prop where
  words : ∀ j, ∃ r, (x.holds j).Shows g s₀ r (v.words j)
  index : x.vaddr = .vgpr 0 → x.indexKept → v.index = s₀.vgprs 0

lemma fetchSites_show (h : t.Tracks g s₀ s) (ops : List FetchOp) :
    List.Forall₂ (fun x v => FetchSite.Shows x g s₀ v) (fetchSites ops t)
      (fetchViews F g special ops s) := by
  induction ops generalizing t s with
  | nil => exact .nil
  | cons op ops ih =>
    cases op with
    | load dst sbase offset => exact ih (h.step _)
    | fetch destVgpr components vaddr srsrc soffset offset offen =>
      refine .cons ⟨fun j => ⟨_,h.holds _⟩,?_⟩ (ih (h.step _))
      rintro hvaddr hkept
      dsimp only at hvaddr
      subst hvaddr
      exact h.index hkept

/-- The attributes name what the sites name. -/
lemma attributesFrom_named {ops : List FetchOp} {attributes : List FetchAttribute}
    (h : attributesFrom t.named ops = some attributes) :
    List.Forall₂ (fun a x => x.named = some (a.descPtrSgpr,a.descOffsetBytes)) attributes
      (fetchSites ops t) := by
  induction ops generalizing t attributes with
  | nil =>
    cases h
    exact .nil
  | cons op ops ih =>
    cases op with
    | load dst sbase offset => exact ih h
    | fetch destVgpr components vaddr srsrc soffset offset offen =>
      unfold attributesFrom at h
      cases hnamed : t.named srsrc with
      | none => simp [hnamed] at h
      | some place =>
        simp only [hnamed, Option.map_eq_map, Option.map_eq_some_iff] at h
        obtain ⟨more,hmore,rfl⟩ := h
        exact .cons hnamed (ih hmore)

end Tracking

section Related

variable {α β γ : Type} {R : α → β → Prop} {S : β → γ → Prop} {T : α → γ → Prop}
  {as : List α} {bs : List β} {cs : List γ}

lemma forall₂_through (hR : List.Forall₂ R as bs) (hS : List.Forall₂ S bs cs)
    (h : ∀ b ∈ bs, ∀ a c, R a b → S b c → T a c) : List.Forall₂ T as cs := by
  induction hR generalizing cs with
  | nil =>
    cases hS
    exact .nil
  | cons hab _ ih =>
    cases hS with
    | cons hbc hrest =>
      refine .cons (h _ List.mem_cons_self _ _ hab hbc) (ih hrest ?_)
      exact fun b hb => h b (List.mem_cons_of_mem _ hb)

lemma forall₂_between (hR : List.Forall₂ R as bs) (hS : List.Forall₂ S bs cs)
    (hT : List.Forall₂ T as cs) {b : β} (hb : b ∈ bs) : ∃ a c, R a b ∧ S b c ∧ T a c := by
  induction hR generalizing cs with
  | nil => simp at hb
  | cons hab _ ih =>
    cases hS with
    | cons hbc hS =>
      cases hT with
      | cons hac hT =>
        rcases List.mem_cons.mp hb with rfl | hb
        · exact ⟨_,_,hab,hbc,hac⟩
        · exact ih hS hT hb

end Related

/-- One byte stands out. -/
def markedMemory (mark : BitVec 64) : GuestMemory :=
  ⟨fun addr => if addr = mark then 0xff else 1,fun _ _ => true⟩

lemma markedMemory_low (mark addr : BitVec 64) :
    ((markedMemory mark).word addr).setWidth 8 = if addr = mark then 0xff else 1 :=
  (markedMemory mark).word_low addr

lemma markedMemory_ne_zero (mark addr : BitVec 64) : (markedMemory mark).word addr ≠ 0 := by
  intro hzero
  have hlow := markedMemory_low mark addr
  rw [hzero] at hlow
  split_ifs at hlow <;> simp at hlow

lemma markedMemory_ne {mark addr : BitVec 64} (h : addr ≠ mark) :
    (markedMemory mark).word addr ≠ (markedMemory mark).word mark := by
  intro heq
  have hlow := congrArg (BitVec.setWidth 8) heq
  rw [markedMemory_low, markedMemory_low, if_neg h, if_pos rfl] at hlow
  simp at hlow

/-- Unless a register holds that very dword, some launch registers and memory tell the two
apart. -/
lemma exists_shows_ne {pv : Provenance} {n : ℕ} {off : BitVec 64} (h : pv ≠ .dword n off) :
    ∃ (regs : ℕ → Word) (g : GuestMemory), ∀ (vgprs : ℕ → Word) (r : ℕ) (x : Word),
      pv.Shows g ⟨regs,vgprs⟩ r x → x ≠ g.word (pairPtr regs n+off) := by
  cases pv with
  | launch =>
    refine ⟨fun _ => 0,markedMemory 0,?_⟩
    rintro vgprs r x rfl
    exact (markedMemory_ne_zero _ _).symm
  | dword n' off' =>
    have hplace : n' = n → off' ≠ off := fun hn hoff => h (by rw [hn, hoff])
    obtain ⟨regs,hne⟩ := exists_place_ne hplace
    refine ⟨regs,markedMemory (pairPtr regs n+off),?_⟩
    rintro vgprs r x rfl
    exact markedMemory_ne hne
  | chased off' =>
    obtain ⟨regs,hregs⟩ := exists_pairPtr_eq n (off'-off)
    refine ⟨regs,markedMemory off',?_⟩
    intro vgprs r x hx
    obtain ⟨ptr,hptr,rfl⟩ := hx (markedMemory_ne_zero off')
    rw [hregs, sub_add_cancel]
    exact markedMemory_ne fun heq => hptr (by simpa using heq)

def ones : Word := BitVec.allOnes 32

/-- Every byte of memory is 0xff. -/
def onesMemory : GuestMemory := ⟨fun _ => 0xff,fun _ _ => true⟩

lemma onesMemory_word (addr : BitVec 64) : onesMemory.word addr = ones := by
  simp [GuestMemory.word, readLeU32, GuestMemory.bytes, onesMemory, ones]

section Ones

variable {F : FloatOps} {s : FetchLane} {t : Tracked}

/-- All scalar registers are ones; a vector register is ones once written, and 1 before, apart
from v0. -/
structure Tracked.Floods (t : Tracked) (s : FetchLane) : Prop where
  sgprs : ∀ r, s.sgprs r = ones
  vgprs : ∀ r, r ≠ 0 → s.vgprs r = 1 ∨ s.vgprs r = ones
  index : t.indexKept = false → s.vgprs 0 = ones

/-- With ones for a descriptor the components come unconverted. -/
lemma component_ones (hs : ∀ r, s.sgprs r = ones) (addr : BitVec 64) (srsrc : ℕ) {components i : ℕ}
    (hi : i < components) :
    F.fetchComponent (s.vsharp srsrc).dfmt (s.vsharp srsrc).nfmt
      (onesMemory.bytes addr (components*4)) i = ones := by
  have hdfmt : (s.vsharp srsrc).dfmt = 15 := by
    simp only [FetchLane.vsharp, hs]
    rfl
  rw [hdfmt]
  change readLeU32 (onesMemory.bytes addr (components*4)) (i*4) = ones
  rw [onesMemory.readLeU32_bytes addr (by omega), onesMemory_word]

lemma Tracked.Floods.step (h : t.Floods s) (op : FetchOp) :
    (t.step op).Floods (s.step F onesMemory (fun _ => ones) op) := by
  cases op with
  | load dst sbase offset =>
    refine ⟨fun r => ?_,h.vgprs,h.index⟩
    simp only [FetchLane.step]
    split_ifs with hr
    · exact onesMemory_word _
    · exact h.sgprs r
  | fetch destVgpr components vaddr srsrc soffset offset offen =>
    refine ⟨h.sgprs,fun r hr => ?_,fun hkept => ?_⟩
    · simp only [FetchLane.step]
      split_ifs with hwritten
      · exact .inr (component_ones h.sgprs _ _ (by omega))
      · exact h.vgprs r hr
    · simp only [FetchLane.step]
      split_ifs with hwritten
      · exact component_ones h.sgprs _ _ (by omega)
      · have hspared : ¬(destVgpr = 0 ∧ 0 < components) := by omega
        simp only [Tracked.step] at hkept
        refine h.index ?_
        simpa [hspared] using hkept

/-- The index of a load that does not read the launch value of v0. -/
lemma fetchSites_flood (h : t.Floods s) (ops : List FetchOp) :
    List.Forall₂ (fun x v => ¬(x.vaddr = .vgpr 0 ∧ x.indexKept) →
        v.index = 1 ∨ v.index = ones ∨ v.index = x.vaddr.scalar (fun _ => ones) fun _ => ones)
      (fetchSites ops t) (fetchViews F onesMemory (fun _ => ones) ops s) := by
  induction ops generalizing t s with
  | nil => exact .nil
  | cons op ops ih =>
    cases op with
    | load dst sbase offset => exact ih (h.step _)
    | fetch destVgpr components vaddr srsrc soffset offset offen =>
      refine .cons (fun hother => ?_) (ih (h.step _))
      dsimp only [FetchLane.view] at hother ⊢
      have hsgprs : s.sgprs = fun _ => ones := funext h.sgprs
      cases vaddr with
      | vgpr n =>
        simp only [FetchLane.indexOf]
        by_cases hn : n = 0
        · subst hn
          exact .inr (.inl (h.index (by simpa using hother)))
        · exact (h.vgprs n hn).imp_right .inl
      | _ => exact .inr (.inr (by rw [← hsgprs]; rfl))

end Ones

/-- In whatever memory and from whatever launch registers the loads run, they have the reported
descriptors and the launch index. -/
def FetchSound (F : FloatOps) (insts : List Decoded) : Prop :=
  ∀ layout, parseFetchShader insts = some layout → ∀ g special s₀,
    List.Forall₂ (FetchAttribute.Agrees g s₀) layout.attributes
      (fetchViews F g special (fetchOps insts) s₀)

/-- An accepted stream is parsed soundly just when every site is clean. -/
theorem fetchSound_iff (F : FloatOps) {insts : List Decoded} {layout : FetchLayout}
    (h : parseFetchShader insts = some layout) :
    FetchSound F insts ↔ ∀ x ∈ fetchSites (fetchOps insts) .launch, x.Clean := by
  have hnamed := attributesFrom_named (t := .launch) (attributesFrom_of_parseFetchShader h)
  constructor
  · intro hsound x hx
    have hagrees := hsound layout h
    have hplace : ∃ sbase offset, x.named = some (sbase,offset) := by
      have hviews := @fetchSites_show F onesMemory (fun _ => 0) _ ⟨fun _ => 0,fun _ => 0⟩ _
        Tracked.launch_tracks (fetchOps insts)
      obtain ⟨a,v,hax,-,-⟩ := forall₂_between hnamed hviews (hagrees _ _ _) hx
      exact ⟨_,_,hax⟩
    obtain ⟨sbase,offset,hplace⟩ := hplace
    have hholds (j : Fin 4) : x.holds j = .dword sbase (BitVec.ofNat 64 (offset+j*4)) := by
      by_contra hne
      obtain ⟨regs,g,hdiffers⟩ := exists_shows_ne hne
      have hviews := @fetchSites_show F g (fun _ => 0) _ ⟨regs,fun _ => 0⟩ _
        Tracked.launch_tracks (fetchOps insts)
      obtain ⟨a,v,hax,hxv,hav⟩ := forall₂_between hnamed hviews (hagrees _ _ _) hx
      obtain ⟨r,hshows⟩ := hxv.words j
      have hword := hav.1 j
      rw [hplace, Option.some.injEq, Prod.mk.injEq] at hax
      rw [← hax.1, ← hax.2] at hword
      exact hdiffers _ r _ hshows hword
    refine ⟨⟨sbase,offset,hplace,hholds⟩,?_⟩
    by_contra hother
    obtain ⟨c,hc,hones,hconst⟩ : ∃ c : Word, c ≠ 1 ∧ c ≠ ones ∧
        c ≠ x.vaddr.scalar (fun _ => ones) fun _ => ones := by
      by_cases htwo : x.vaddr.scalar (fun _ => ones) (fun _ => ones) = 2
      · exact ⟨3,by decide,by decide,by rw [htwo]; decide⟩
      · exact ⟨2,by decide,by decide,Ne.symm htwo⟩
    have hfloods : Tracked.launch.Floods ⟨fun _ => ones,fun r => if r = 0 then c else 1⟩ :=
      ⟨fun _ => rfl,fun r hr => .inl (if_neg hr),nofun⟩
    obtain ⟨a,v,-,hxv,hav⟩ := forall₂_between hnamed (fetchSites_flood (F := F) hfloods _)
      (hagrees _ _ _) hx
    have hindex : v.index = c := hav.2
    rcases hxv hother with hv | hv | hv
    · exact hc (hindex.symm.trans hv)
    · exact hones (hindex.symm.trans hv)
    · exact hconst (hindex.symm.trans hv)
  · intro hclean layout' h' g special s₀
    obtain rfl : layout = layout' := Option.some.inj (h.symm.trans h')
    refine forall₂_through hnamed
      (fetchSites_show Tracked.launch_tracks (fetchOps insts)) fun x hx a v hax hxv => ?_
    obtain ⟨⟨sbase,offset,hplace,hholds⟩,hvaddr,hkept⟩ := hclean x hx
    rw [hplace, Option.some.injEq, Prod.mk.injEq] at hax
    refine ⟨fun j => ?_,hxv.index hvaddr hkept⟩
    obtain ⟨r,hshows⟩ := hxv.words j
    rw [hholds j] at hshows
    rw [← hax.1, ← hax.2]
    exact hshows

def vertexFetch (vaddr : Operand) (off : ℕ) : Decoded :=
  ⟨.mubuf .bufferLoadFormatXyzw (.vgpr 4) vaddr 8 (.inlineInt 0) 0 true false,2,off⟩

/-- One attribute through the pair s[2:3], then the return. -/
def fetchPlain : List Decoded :=
  [⟨.smrd .sLoadDwordx4 (.sgpr 8) 2 true 0,1,0⟩,vertexFetch (.vgpr 0) 1,
   ⟨.sop1 .sSetpcB64 (.sgpr 0) (.sgpr 0),1,3⟩]

/-- The pair is loaded over before the descriptor is read through it. -/
def fetchChased : List Decoded :=
  [⟨.smrd .sLoadDwordx4 (.sgpr 2) 2 true 1,1,0⟩,⟨.smrd .sLoadDwordx4 (.sgpr 8) 2 true 0,1,1⟩,
   vertexFetch (.vgpr 0) 2,⟨.sop1 .sSetpcB64 (.sgpr 0) (.sgpr 0),1,4⟩]

/-- The index comes from v1. -/
def fetchBySecond : List Decoded :=
  [⟨.smrd .sLoadDwordx4 (.sgpr 8) 2 true 0,1,0⟩,vertexFetch (.vgpr 1) 1,
   ⟨.sop1 .sSetpcB64 (.sgpr 0) (.sgpr 0),1,3⟩]

theorem fetchSound_fetchPlain :
    parseFetchShader fetchPlain = some ⟨[⟨8,4,4,2,0⟩]⟩ ∧ FetchSound noFloats fetchPlain := by
  have hparse : parseFetchShader fetchPlain = some ⟨[⟨8,4,4,2,0⟩]⟩ := by decide
  refine ⟨hparse,(fetchSound_iff noFloats hparse).mpr fun x hx => ?_⟩
  obtain rfl := List.mem_singleton.mp hx
  exact ⟨⟨2,0,rfl,by decide⟩,rfl,rfl⟩

/-- Both streams are accepted. -/
theorem not_fetchSound :
    (∃ layout, parseFetchShader fetchChased = some layout) ∧ ¬FetchSound noFloats fetchChased ∧
      (∃ layout, parseFetchShader fetchBySecond = some layout) ∧
      ¬FetchSound noFloats fetchBySecond := by
  have hchased : parseFetchShader fetchChased = some ⟨[⟨8,4,4,2,0⟩]⟩ := by decide
  have hsecond : parseFetchShader fetchBySecond = some ⟨[⟨8,4,4,2,0⟩]⟩ := by decide
  refine ⟨⟨_,hchased⟩,fun h => ?_,⟨_,hsecond⟩,fun h => ?_⟩
  · have hagrees := h _ hchased ⟨fun addr => addr.setWidth 8,fun _ _ => true⟩ (fun _ => 0)
      ⟨fun _ => 0,fun _ => 0⟩
    obtain ⟨hagrees,-⟩ := List.forall₂_cons.mp hagrees
    exact absurd (hagrees.1 0) (by decide +kernel)
  · have hagrees := h _ hsecond ⟨fun _ => 0,fun _ _ => true⟩ (fun _ => 0)
      ⟨fun _ => 0,fun r => if r = 0 then 7 else 9⟩
    obtain ⟨hagrees,-⟩ := List.forall₂_cons.mp hagrees
    exact absurd hagrees.2 (by decide)

end Unemups4.Gcn

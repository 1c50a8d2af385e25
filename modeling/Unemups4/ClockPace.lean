import Unemups4.VirtualClock

/-! When the guest's clock keeps pace with the host's: what the host's time may do between two
reads or flips, and what a flip may do, for a span that starts at some time of the two clocks. -/
namespace Unemups4.Clock

/-- The virtual time, looked at without an interruption. -/
def Vars.computed (mode : Mode) (v : Vars) : ℕ :=
  if v.virtAnchorNs = 0 then min v.hostNs (v.lastNs+frameNs)
  else
    match mode with
    | .realtime => v.virtAnchorNs+min (v.hostNs-v.realAnchorNs) maxFrameDeltaNs
    | .fixedStep => v.virtAnchorNs+v.flipCount*frameNs

/-- Where a span of time starts: on the guest's clock, on the host's, and in flips. -/
structure Mark where
  read : ℕ
  host : ℕ
  flips : ℕ
  deriving DecidableEq, Repr

/-- What a clock shows at a time of the host if it has kept pace since. -/
def Mark.fair (m : Mark) (hostNs : ℕ) : ℕ := m.read+(hostNs-m.host)

/-- A flip has looked at the clock and not yet asked the host. -/
def Flipper.asks : Flipper → Bool
  | .host _ => true
  | _ => false

/-- A flip is about to store the virtual anchor. -/
def Flipper.stores : Flipper → Bool
  | .storeVirt _ => true
  | _ => false

/-- The host's time stays within a frame of the last read before the first flip is through, then
within what a frame may observe and not while a flip is between the two clocks; or, in fixed steps,
within a frame for each flip since the span began. The first flip is not through in the span. -/
def KeepsPace {ι : Type*} (mode : Mode) (m : Mark) (v : Vars) (f : Flipper) : Act ι → Prop
  | .tick d =>
      d = 0 ∨
        if v.virtAnchorNs = 0 then v.hostNs+d ≤ v.lastNs+frameNs
        else
          match mode with
          | .realtime => v.hostNs+d ≤ v.realAnchorNs+maxFrameDeltaNs ∧ f.asks = false
          | .fixedStep => v.hostNs+d ≤ m.host+(v.flipCount-m.flips)*frameNs
  | .flip => v.virtAnchorNs = 0 → f.stores = false
  | _ => True

instance {ι : Type*} (mode : Mode) (m : Mark) (v : Vars) (f : Flipper) (act : Act ι) :
    Decidable (KeepsPace mode m v f act) := by
  unfold KeepsPace
  cases mode <;> split <;> infer_instance

/-- The anchors are of the past, and there are none before the first flip. -/
structure Anchored (v : Vars) (f : Flipper) : Prop where
  real : v.realAnchorNs ≤ v.hostNs
  flips : v.virtAnchorNs ≠ 0 ∨ f ≠ .idle → v.flipCount ≠ 0
  asked : ∀ virt real, f = .storeReal virt real → real ≤ v.hostNs

/-- The flipping thread looks at the anchors that it has stored itself. -/
def Look.Paced (v : Vars) : Look → Prop
  | .anchor => True
  | .real _ virt => virt = v.virtAnchorNs
  | .host _ virt realAnchor => virt = v.virtAnchorNs ∧ realAnchor = v.realAnchorNs
  | .boot .. | .flips .. => False

/-- What a flip is about to make of the clock is not behind either. -/
def Flipper.Paced (due : ℕ) (v : Vars) : Flipper → Prop
  | .idle | .peek => True
  | .capture => False
  | .compute _ look => look.Paced v
  | .host virt => 0 < virt ∧ due ≤ virt
  | .storeReal virt real => 0 < virt ∧ v.realAnchorNs ≤ real ∧
      due ≤ virt+min (v.hostNs-real) maxFrameDeltaNs
  | .storeVirt virt => 0 < virt ∧ due ≤ virt+min (v.hostNs-v.realAnchorNs) maxFrameDeltaNs

/-- The clock is not behind, nor will be once a flip under way is through. -/
def Paced (mode : Mode) (m : Mark) (v : Vars) (f : Flipper) : Prop :=
  if v.virtAnchorNs = 0 then m.fair v.hostNs ≤ v.hostNs ∧ m.fair v.hostNs ≤ v.lastNs+frameNs
  else
    match mode with
    | .realtime => f.Paced (m.fair v.hostNs) v ∧ (f.stores = false →
        m.fair v.hostNs ≤ v.virtAnchorNs+min (v.hostNs-v.realAnchorNs) maxFrameDeltaNs)
    | .fixedStep => f = .idle ∧ m.flips ≤ v.flipCount ∧
        m.read ≤ v.virtAnchorNs+m.flips*frameNs ∧
        v.hostNs ≤ m.host+(v.flipCount-m.flips)*frameNs

variable {ι : Type*} {mode : Mode} {m : Mark} {v : Vars} {f : Flipper}

lemma anchored_initial (hostNs : ℕ) :
    Anchored (initial hostNs : State ι).vars (initial hostNs : State ι).flipper where
  real := Nat.zero_le _
  flips h := by simp [initial] at h
  asked virt real h := by cases h

lemma Anchored.flip (h : Anchored v f) :
    Anchored (advanceFrame mode v f).1 (advanceFrame mode v f).2 := by
  have hmove := advanceFrame_move mode v f
  generalize (advanceFrame mode v f).1 = v' at hmove ⊢
  generalize (advanceFrame mode v f).2 = f' at hmove ⊢
  cases hmove with
  | start hnext =>
    refine ⟨h.real,fun _ => Nat.succ_ne_zero _,?_⟩
    rintro virt real rfl
    simp at hnext
  | capture hnext =>
    refine ⟨h.real,fun _ => h.flips (.inr nofun),?_⟩
    rintro virt real rfl
    simp at hnext
  | host =>
    refine ⟨h.real,fun _ => h.flips (.inr nofun),?_⟩
    intro virt real heq
    cases heq
    exact le_rfl
  | storeReal => exact ⟨h.asked _ _ rfl,fun _ => h.flips (.inr nofun),nofun⟩
  | _ => exact ⟨h.real,fun _ => h.flips (.inr nofun),nofun⟩

/-- The times that the host's passes add to both clocks. -/
lemma Mark.fair_add {host d : ℕ} (h : m.host ≤ host) : m.fair (host+d) = m.fair host+d := by
  unfold fair
  omega

/-- Within its window a virtual time goes on as the host's does. -/
lemma due_add {virt real host d due : ℕ} (hreal : real ≤ host)
    (hdue : due ≤ virt+min (host-real) maxFrameDeltaNs) (hwindow : host+d ≤ real+maxFrameDeltaNs) :
    due+d ≤ virt+min (host+d-real) maxFrameDeltaNs := by
  omega

lemma Paced.tick {d : ℕ} (h : Paced mode m v f) (hanchored : Anchored v f) (hhost : m.host ≤ v.hostNs)
    (hok : KeepsPace mode m v f (.tick d : Act ι)) :
    Paced mode m { v with hostNs := v.hostNs+d } f := by
  obtain rfl | hok := hok
  · exact h
  unfold Paced at h ⊢
  simp only [m.fair_add hhost]
  split_ifs at h hok ⊢ with hzero
  · omega
  · cases mode with
    | fixedStep =>
      obtain ⟨hidle,hflips,hread,-⟩ := h
      exact ⟨hidle,hflips,hread,hok⟩
    | realtime =>
      obtain ⟨hflip,hshown⟩ := h
      obtain ⟨hwindow,hasks⟩ := hok
      refine ⟨?_,fun hstores => due_add hanchored.real (hshown hstores) hwindow⟩
      cases f with
      | host virt => cases hasks
      | storeReal virt real =>
        obtain ⟨hpos,hreal,hdue⟩ := hflip
        exact ⟨hpos,hreal,due_add (hanchored.asked _ _ rfl) hdue (hwindow.trans (by omega))⟩
      | storeVirt virt => exact ⟨hflip.1,due_add hanchored.real hflip.2 hwindow⟩
      | _ => exact hflip

/-- A read is of no account once the first flip is through, and before it puts the end off. -/
lemma Paced.read {last : ℕ} (h : Paced mode m v f) (hlast : v.lastNs ≤ last) :
    Paced mode m { v with lastNs := last } f := by
  unfold Paced at h ⊢
  split_ifs at h ⊢ with hzero
  · exact ⟨h.1,h.2.trans (by simpa using hlast)⟩
  · cases mode with
    | fixedStep => exact h
    | realtime =>
      refine ⟨?_,h.2⟩
      have hflip := h.1
      cases f with
      | compute last look => cases look <;> exact hflip
      | _ => exact hflip

/-- The flipping thread's look ends in what the anchors give. -/
lemma Look.Paced.step {last : ℕ} {look look' : Look} (h : look.Paced v) (hzero : v.virtAnchorNs ≠ 0)
    (hc : computedNs .realtime v last look = .inl look') : look'.Paced v := by
  cases look with
  | anchor =>
    simp only [computedNs, if_neg hzero, Sum.inl.injEq] at hc
    exact hc ▸ rfl
  | real seen virt =>
    simp only [computedNs, Sum.inl.injEq] at hc
    exact hc ▸ ⟨h,rfl⟩
  | _ => cases hc

lemma Look.Paced.value {last seen value : ℕ} {look : Look} (h : look.Paced v)
    (hzero : v.virtAnchorNs ≠ 0) (hc : computedNs .realtime v last look = .inr (seen,value)) :
    value = v.virtAnchorNs+min (v.hostNs-v.realAnchorNs) maxFrameDeltaNs := by
  cases look with
  | anchor => simp [computedNs, hzero] at hc
  | real seen virt => cases hc
  | host seen virt realAnchor =>
    obtain ⟨rfl,rfl⟩ := h
    cases hc
    rfl
  | _ => exact h.elim

/-- A step of a flip, once the first one is through. -/
lemma Flipper.Paced.step {due : ℕ} (h : f.Paced due v) (hanchored : Anchored v f)
    (hzero : v.virtAnchorNs ≠ 0) (hshown : f.stores = false →
      due ≤ v.virtAnchorNs+min (v.hostNs-v.realAnchorNs) maxFrameDeltaNs) :
    (advanceFrame .realtime v f).1.virtAnchorNs ≠ 0 ∧
      (advanceFrame .realtime v f).1.hostNs = v.hostNs ∧
      (advanceFrame .realtime v f).2.Paced due (advanceFrame .realtime v f).1 ∧
      ((advanceFrame .realtime v f).2.stores = false →
        due ≤ (advanceFrame .realtime v f).1.virtAnchorNs+
          min (v.hostNs-(advanceFrame .realtime v f).1.realAnchorNs) maxFrameDeltaNs) := by
  cases f with
  | idle =>
    have hflips : v.flipCount ≠ 0 := hanchored.flips (.inl hzero)
    simp only [advanceFrame, if_neg hflips]
    exact ⟨hzero,trivial,trivial,fun _ => hshown rfl⟩
  | capture => exact h.elim
  | peek => exact ⟨hzero,rfl,trivial,fun _ => hshown rfl⟩
  | compute last look =>
    cases hc : computedNs .realtime v last look with
    | inl look' =>
      simp only [advanceFrame, hc]
      exact ⟨hzero,trivial,Look.Paced.step h hzero hc,fun _ => hshown rfl⟩
    | inr result =>
      obtain ⟨seen,value⟩ := result
      have hvalue : value = _ := Look.Paced.value h hzero hc
      have hdue := hshown rfl
      simp only [advanceFrame, hc]
      refine ⟨hzero,trivial,⟨by omega,?_⟩,fun _ => hdue⟩
      rw [← hvalue] at hdue
      omega
  | host virt =>
    refine ⟨hzero,rfl,⟨h.1,hanchored.real,?_⟩,fun _ => hshown rfl⟩
    exact h.2.trans (Nat.le_add_right _ _)
  | storeReal virt real => exact ⟨hzero,rfl,⟨h.1,h.2.2⟩,fun hstores => by cases hstores⟩
  | storeVirt virt => exact ⟨h.1.ne',rfl,trivial,fun _ => h.2⟩

variable (mode) in
lemma advanceFrame_boot (hzero : v.virtAnchorNs = 0) (hstores : f.stores = false) :
    (advanceFrame mode v f).1.virtAnchorNs = 0 ∧ (advanceFrame mode v f).1.hostNs = v.hostNs ∧
      (advanceFrame mode v f).1.lastNs = v.lastNs := by
  have hmove := advanceFrame_move mode v f
  generalize (advanceFrame mode v f).1 = v' at hmove ⊢
  generalize (advanceFrame mode v f).2 = f' at hmove
  cases hmove with
  | storeVirt => cases hstores
  | _ => exact ⟨hzero,rfl,rfl⟩

lemma Paced.flip (h : Paced mode m v f) (hanchored : Anchored v f)
    (hok : KeepsPace mode m v f (.flip : Act ι)) :
    Paced mode m (advanceFrame mode v f).1 (advanceFrame mode v f).2 := by
  unfold Paced at h
  split_ifs at h with hzero
  · obtain ⟨hzero',hhost,hlast⟩ := advanceFrame_boot mode hzero (hok hzero)
    unfold Paced
    rw [if_pos hzero', hhost, hlast]
    exact h
  · cases mode with
    | fixedStep =>
      obtain ⟨rfl,hflips,hread,hhost⟩ := h
      have hstarted : v.flipCount ≠ 0 := hanchored.flips (.inl hzero)
      simp only [Paced, advanceFrame, if_neg hstarted, if_neg hzero]
      refine ⟨trivial,Nat.le_succ_of_le hflips,hread,hhost.trans ?_⟩
      exact Nat.add_le_add_left (Nat.mul_le_mul_right _ (by omega)) _
    | realtime =>
      obtain ⟨hzero',hhost,hflip,hshown⟩ := Flipper.Paced.step h.1 hanchored hzero h.2
      unfold Paced
      rw [if_neg hzero', hhost]
      exact ⟨hflip,hshown⟩

section Step

variable [DecidableEq ι] {s : State ι}

variable (mode) in
/-- What a reader does leaves all but the last value alone. -/
lemma readStep_vars (hs : Ordered s) (i : ι) (spurious : Bool) :
    (readStep mode s i spurious).flipper = s.flipper ∧ ∃ last, s.vars.lastNs ≤ last ∧
      (readStep mode s i spurious).vars = { s.vars with lastNs := last } := by
  cases hr : s.readers i with
  | idle | load =>
    rw [readStep]
    simp only [hr]
    exact ⟨by trivial,_,le_rfl,rfl⟩
  | compute call last look =>
    simp only [readStep, hr]
    split <;> exact ⟨rfl,_,le_rfl,rfl⟩
  | swap last next seen =>
    have hfloor := hs.readers i
    rw [hr] at hfloor
    simp only [readStep, hr]
    split_ifs with hwon
    · refine ⟨rfl,next,?_,rfl⟩
      rw [hwon.1]
      exact (Nat.le_add_right _ _).trans hfloor
    · exact ⟨rfl,_,le_rfl,rfl⟩

lemma Anchored.step (h : Anchored s.vars s.flipper) (hs : Ordered s) (act : Act ι) :
    Anchored (step mode s act).vars (step mode s act).flipper := by
  cases act with
  | flip => exact h.flip
  | tick d =>
    exact ⟨h.real.trans (Nat.le_add_right _ _),h.flips,
      fun virt real heq => (h.asked virt real heq).trans (Nat.le_add_right _ _)⟩
  | call i call =>
    simp only [Clock.step]
    split_ifs <;> exact h
  | read i spurious =>
    obtain ⟨hflipper,last,-,hvars⟩ := readStep_vars mode hs i spurious
    change Anchored (readStep mode s i spurious).vars (readStep mode s i spurious).flipper
    rw [hflipper, hvars]
    exact ⟨h.real,h.flips,h.asked⟩

/-- In steps that keep the pace the clock keeps it. -/
theorem Paced.step (h : Paced mode m s.vars s.flipper) (hanchored : Anchored s.vars s.flipper)
    (hs : Ordered s) (hhost : m.host ≤ s.vars.hostNs) {act : Act ι}
    (hok : KeepsPace mode m s.vars s.flipper act) :
    Paced mode m (Clock.step mode s act).vars (Clock.step mode s act).flipper := by
  cases act with
  | flip => exact h.flip hanchored hok
  | tick d => exact h.tick hanchored hhost hok
  | call i call =>
    simp only [Clock.step]
    split_ifs <;> exact h
  | read i spurious =>
    obtain ⟨hflipper,last,hlast,hvars⟩ := readStep_vars mode hs i spurious
    change Paced mode m (readStep mode s i spurious).vars (readStep mode s i spurious).flipper
    rw [hflipper, hvars]
    exact h.read hlast

end Step

/-- A span can start where the read is not ahead of virtual time and no flip is under way. -/
lemma paced_start {read : ℕ} (hread : read ≤ v.computed mode) :
    Paced mode ⟨read,v.hostNs,v.flipCount⟩ v .idle := by
  have hfair : (⟨read,v.hostNs,v.flipCount⟩ : Mark).fair v.hostNs = read := by simp [Mark.fair]
  unfold Paced
  rw [hfair]
  unfold Vars.computed at hread
  split_ifs at hread ⊢
  · exact le_min_iff.mp hread
  · cases mode with
    | realtime => exact ⟨trivial,fun _ => hread⟩
    | fixedStep => exact ⟨rfl,le_rfl,hread,by simp⟩

/-- The clock that has kept pace shows what it should, but for a flip between its two stores. -/
theorem Paced.shown (h : Paced mode m v f) (hstores : v.virtAnchorNs ≠ 0 → f.stores = false) :
    m.fair v.hostNs ≤ v.computed mode := by
  unfold Paced at h
  unfold Vars.computed
  split_ifs at h ⊢ with hzero
  · exact le_min_iff.mpr h
  · cases mode with
    | realtime => exact h.2 (hstores hzero)
    | fixedStep =>
      obtain ⟨-,hflips,hread,hhost⟩ := h
      have hsum : m.flips*frameNs+(v.flipCount-m.flips)*frameNs = v.flipCount*frameNs := by
        rw [← Nat.add_mul, Nat.add_sub_cancel' hflips]
      change m.read+(v.hostNs-m.host) ≤ v.virtAnchorNs+v.flipCount*frameNs
      omega

end Unemups4.Clock

import Mathlib

/-! The virtual guest clock. Readers and the one thread that presents flips share the last value
read, the two anchors and the flip count, and take turns between any two of their accesses. Times
are nanoseconds without a bound; `realtime_sums_lt` says how long 64 bits of them last. -/
namespace Unemups4.Clock

def frameNs : ℕ := 16666667

/-- What a single frame may observe to elapse. -/
def maxFrameDeltaNs : ℕ := 4*frameNs

/-- What two consecutive reads differ by at least. -/
def readFloorNs : ℕ := 1000

inductive Mode where
  | realtime
  | fixedStep
  deriving DecidableEq, Repr

/-- The shared variables and the host's clock. `published` counts the anchors that flips have
stored; the code does not keep it. -/
structure Vars where
  lastNs : ℕ
  virtAnchorNs : ℕ
  realAnchorNs : ℕ
  flipCount : ℕ
  hostNs : ℕ
  published : ℕ
  deriving DecidableEq, Repr

/-- Where `computedNs` stands: about to load the virtual anchor, and after that with the number
of anchors published when it did so: about to ask the host in the boot phase, about to load the
real anchor, to ask the host, or to load the flip count. -/
inductive Look where
  | anchor
  | boot (seen : ℕ)
  | real (seen virt : ℕ)
  | host (seen virt real : ℕ)
  | flips (seen virt : ℕ)
  deriving DecidableEq, Repr

/-- One access of `computedNs`; the last one gives the virtual time. -/
def computedNs (mode : Mode) (v : Vars) (last : ℕ) : Look → Look ⊕ ℕ × ℕ
  | .anchor =>
      if v.virtAnchorNs = 0 then .inl (.boot v.published)
      else
        match mode with
        | .realtime => .inl (.real v.published v.virtAnchorNs)
        | .fixedStep => .inl (.flips v.published v.virtAnchorNs)
  | .boot seen => .inr (seen,min v.hostNs (last+frameNs))
  | .real seen virt => .inl (.host seen virt v.realAnchorNs)
  | .host seen virt real => .inr (seen,virt+min (v.hostNs-real) maxFrameDeltaNs)
  | .flips seen virt => .inr (seen,virt+v.flipCount*frameNs)

inductive Call where
  | now
  | peek
  deriving DecidableEq, Repr

/-- Where a reader stands: between calls, about to load the last value, in `computedNs`, or about
to exchange the last value for its own. -/
inductive Reader where
  | idle
  | load (call : Call)
  | compute (call : Call) (last : ℕ) (look : Look)
  | swap (last next seen : ℕ)
  deriving DecidableEq, Repr

/-- Where the flipping thread stands: between flips, about to load the last value for the first
anchor or for a peek, in `computedNs`, about to ask the host, or to store an anchor. -/
inductive Flipper where
  | idle
  | capture
  | peek
  | compute (last : ℕ) (look : Look)
  | host (virt : ℕ)
  | storeReal (virt real : ℕ)
  | storeVirt (virt : ℕ)
  deriving DecidableEq, Repr

/-- What a call returned, with the anchors published when it looked at the anchor, the host's
time and the reads made when it returned. -/
structure Result where
  value : ℕ
  seen : ℕ
  host : ℕ
  reads : ℕ
  deriving DecidableEq, Repr

/-- The clock, its threads, and what the calls have returned, the latest first. -/
structure State (ι : Type*) where
  vars : Vars
  readers : ι → Reader
  flipper : Flipper
  reads : List Result
  peeks : List Result

/-- What happens next: the host's time passes, a reader makes a call or moves on (its exchange
may fail for no reason), or the flipping thread starts a flip or moves on. -/
inductive Act (ι : Type*) where
  | tick (d : ℕ)
  | call (i : ι) (call : Call)
  | read (i : ι) (spurious : Bool)
  | flip

variable {ι : Type*} [DecidableEq ι]

def State.setReader (s : State ι) (i : ι) (r : Reader) : State ι :=
  { s with readers := Function.update s.readers i r }

/-- `nowNs` and `peekNs`: the last value, the virtual time, and for a read the exchange. -/
def readStep (mode : Mode) (s : State ι) (i : ι) (spurious : Bool) : State ι :=
  match s.readers i with
  | .idle => s
  | .load call => s.setReader i (.compute call s.vars.lastNs .anchor)
  | .compute call last look =>
      match computedNs mode s.vars last look, call with
      | .inl look, call => s.setReader i (.compute call last look)
      | .inr (seen,value), .now => s.setReader i (.swap last (max value (last+readFloorNs)) seen)
      | .inr (seen,value), .peek =>
          { s.setReader i .idle with
            peeks := ⟨max value last,seen,s.vars.hostNs,s.reads.length⟩ :: s.peeks }
  | .swap last next seen =>
      if s.vars.lastNs = last ∧ spurious = false then
        { s.setReader i .idle with
          vars := { s.vars with lastNs := next }
          reads := ⟨next,seen,s.vars.hostNs,s.reads.length+1⟩ :: s.reads }
      else s.setReader i (.compute .now s.vars.lastNs .anchor)

/-- One access of a flip: the first one anchors to the last value, a later one to a peek; the
real anchor is stored before the virtual one. -/
def advanceFrame (mode : Mode) (v : Vars) : Flipper → Vars × Flipper
  | .idle =>
      let first := v.flipCount = 0
      let v := { v with flipCount := v.flipCount+1 }
      match mode with
      | .fixedStep => (v,if first then .capture else .idle)
      | .realtime => (v,if first then .capture else .peek)
  | .capture =>
      let virt := max v.lastNs 1
      match mode with
      | .fixedStep => (v,.storeVirt virt)
      | .realtime => (v,.host virt)
  | .peek => (v,.compute v.lastNs .anchor)
  | .compute last look =>
      match computedNs mode v last look with
      | .inl look => (v,.compute last look)
      | .inr (_,value) => (v,.host (max (max value last) 1))
  | .host virt => (v,.storeReal virt v.hostNs)
  | .storeReal virt real => ({ v with realAnchorNs := real },.storeVirt virt)
  | .storeVirt virt => ({ v with virtAnchorNs := virt, published := v.published+1 },.idle)

def step (mode : Mode) (s : State ι) : Act ι → State ι
  | .tick d => { s with vars := { s.vars with hostNs := s.vars.hostNs+d } }
  | .call i call => if s.readers i = .idle then s.setReader i (.load call) else s
  | .read i spurious => readStep mode s i spurious
  | .flip =>
      let (v,f) := advanceFrame mode s.vars s.flipper
      { s with vars := v, flipper := f }

def initial (hostNs : ℕ) : State ι := ⟨⟨0,0,0,0,hostNs,0⟩,fun _ => .idle,.idle,[],[]⟩

/-- A run: the host's time is what it is at the start and never falls. -/
def run (mode : Mode) (hostNs : ℕ) (acts : List (Act ι)) : State ι :=
  acts.foldl (step mode) (initial hostNs)

/-- What holds at the start and over each step holds at the end of every run. -/
lemma run_invariant {mode : Mode} {inv : State ι → Prop} (hostNs : ℕ) (acts : List (Act ι))
    (hinit : inv (initial hostNs)) (hstep : ∀ s act, inv s → inv (step mode s act)) :
    inv (run mode hostNs acts) :=
  List.foldlRecOn acts (step mode) hinit fun s hs act _ => hstep s act hs

/-- How a reader moves on while no call returns. -/
inductive Reader.Move (mode : Mode) (v : Vars) : Reader → Reader → Prop
  | call (call : Call) : Move mode v .idle (.load call)
  | load (call : Call) : Move mode v (.load call) (.compute call v.lastNs .anchor)
  | look {call : Call} {last : ℕ} {look look' : Look} :
      computedNs mode v last look = .inl look' →
      Move mode v (.compute call last look) (.compute call last look')
  | value {last seen value : ℕ} {look : Look} : computedNs mode v last look = .inr (seen,value) →
      Move mode v (.compute .now last look) (.swap last (max value (last+readFloorNs)) seen)
  | retry {last next seen : ℕ} :
      Move mode v (.swap last next seen) (.compute .now v.lastNs .anchor)

/-- How the flipping thread moves on, and what it does to the variables. -/
inductive Flipper.Move (mode : Mode) (v : Vars) : Flipper → Vars → Flipper → Prop
  | start {next : Flipper} : next = .idle ∨ next = .capture ∨ next = .peek →
      Move mode v .idle { v with flipCount := v.flipCount+1 } next
  | capture {next : Flipper} :
      next = .host (max v.lastNs 1) ∨ mode = .fixedStep ∧ next = .storeVirt (max v.lastNs 1) →
      Move mode v .capture v next
  | peek : Move mode v .peek v (.compute v.lastNs .anchor)
  | look {last : ℕ} {look look' : Look} : computedNs mode v last look = .inl look' →
      Move mode v (.compute last look) v (.compute last look')
  | value {last seen value : ℕ} {look : Look} : computedNs mode v last look = .inr (seen,value) →
      Move mode v (.compute last look) v (.host (max (max value last) 1))
  | host {virt : ℕ} : Move mode v (.host virt) v (.storeReal virt v.hostNs)
  | storeReal {virt real : ℕ} :
      Move mode v (.storeReal virt real) { v with realAnchorNs := real } (.storeVirt virt)
  | storeVirt {virt : ℕ} :
      Move mode v (.storeVirt virt)
        { v with virtAnchorNs := virt, published := v.published+1 } .idle

/-- All that a step can do. -/
inductive Effect (mode : Mode) (s : State ι) : State ι → Prop
  | stay : Effect mode s s
  | tick (d : ℕ) : Effect mode s { s with vars := { s.vars with hostNs := s.vars.hostNs+d } }
  | move {i : ι} {r : Reader} : (s.readers i).Move mode s.vars r → Effect mode s (s.setReader i r)
  | peeked {i : ι} {last seen value : ℕ} {look : Look} : s.readers i = .compute .peek last look →
      computedNs mode s.vars last look = .inr (seen,value) →
      Effect mode s { s.setReader i .idle with
        peeks := ⟨max value last,seen,s.vars.hostNs,s.reads.length⟩ :: s.peeks }
  | returned {i : ι} {next seen : ℕ} : s.readers i = .swap s.vars.lastNs next seen →
      Effect mode s { s.setReader i .idle with
        vars := { s.vars with lastNs := next }
        reads := ⟨next,seen,s.vars.hostNs,s.reads.length+1⟩ :: s.reads }
  | flip {v : Vars} {f : Flipper} : s.flipper.Move mode s.vars v f →
      Effect mode s { s with vars := v, flipper := f }

lemma readStep_effect (mode : Mode) (s : State ι) (i : ι) (spurious : Bool) :
    Effect mode s (readStep mode s i spurious) := by
  cases hr : s.readers i with
  | idle => simpa [readStep, hr] using .stay
  | load call => simpa [readStep, hr] using .move (hr ▸ .load call)
  | compute call last look =>
    cases hc : computedNs mode s.vars last look with
    | inl look' => simpa [readStep, hr, hc] using .move (hr ▸ .look hc)
    | inr result =>
      obtain ⟨seen,value⟩ := result
      cases call with
      | now => simpa [readStep, hr, hc] using .move (hr ▸ .value hc)
      | peek => simpa [readStep, hr, hc] using .peeked hr hc
  | swap last next seen =>
    by_cases hwon : s.vars.lastNs = last ∧ spurious = false
    · obtain ⟨rfl,rfl⟩ := hwon
      simpa [readStep, hr] using .returned hr
    · simpa [readStep, hr, hwon] using .move (hr ▸ .retry)

lemma advanceFrame_move (mode : Mode) (v : Vars) (f : Flipper) :
    f.Move mode v (advanceFrame mode v f).1 (advanceFrame mode v f).2 := by
  cases f with
  | idle => cases mode <;> exact .start (by dsimp only [advanceFrame]; split_ifs <;> simp)
  | capture => cases mode <;> exact .capture (by simp [advanceFrame])
  | peek => exact .peek
  | compute last look =>
    cases hc : computedNs mode v last look with
    | inl look' => simpa only [advanceFrame, hc] using .look hc
    | inr result => simpa only [advanceFrame, hc] using .value hc
  | host virt => exact .host
  | storeReal virt real => exact .storeReal
  | storeVirt virt => exact .storeVirt

lemma step_effect (mode : Mode) (s : State ι) (act : Act ι) : Effect mode s (step mode s act) := by
  cases act with
  | tick d => exact .tick d
  | call i call =>
    by_cases hi : s.readers i = .idle
    · simpa [step, hi] using .move (hi ▸ .call call)
    · simpa [step, hi] using .stay
  | read i spurious => exact readStep_effect mode s i spurious
  | flip => exact .flip (advanceFrame_move mode s.vars s.flipper)

/-- The value and the look of the last read. -/
def lastValue (reads : List Result) : ℕ := (reads.head?.map Result.value).getD 0

def lastSeen (reads : List Result) : ℕ := (reads.head?.map Result.seen).getD 0

@[simp] lemma lastValue_cons (r : Result) (reads : List Result) :
    lastValue (r :: reads) = r.value := rfl

@[simp] lemma lastSeen_cons (r : Result) (reads : List Result) :
    lastSeen (r :: reads) = r.seen := rfl

/-- A relation to the last read carries over to a further one. -/
lemma isChain_cons {rel : Result → Result → Prop} {r : Result} {reads : List Result}
    (hchain : reads.IsChain rel) (hr : ∀ r' ∈ reads.head?, rel r r') :
    (r :: reads).IsChain rel := List.isChain_cons.mpr ⟨hr,hchain⟩

/-- What held of all readers still does when it holds of the one that moved. -/
lemma forall_setReader {P : Reader → Prop} {s : State ι} {i : ι} {r : Reader}
    (h : ∀ j, P (s.readers j)) (hr : P r) (j : ι) : P ((s.setReader i r).readers j) := by
  simp only [State.setReader, Function.update_apply]
  split_ifs
  · exact hr
  · exact h j

lemma Flipper.Move.lastNs_eq {mode : Mode} {v v' : Vars} {f f' : Flipper}
    (h : f.Move mode v v' f') : v'.lastNs = v.lastNs := by
  cases h <;> rfl

/-- A value to be exchanged keeps its distance from the last one. -/
def Reader.Floored : Reader → Prop
  | .swap last next _ => last+readFloorNs ≤ next
  | _ => True

lemma Reader.Move.floored {mode : Mode} {v : Vars} {r r' : Reader} (h : r.Move mode v r') :
    r'.Floored := by
  cases h with
  | value => exact le_max_right _ _
  | _ => trivial

/-- Every read has moved the last value on. -/
structure Ordered (s : State ι) : Prop where
  last : s.vars.lastNs = lastValue s.reads
  chain : s.reads.IsChain fun r' r => r.value+readFloorNs ≤ r'.value
  readers : ∀ i, (s.readers i).Floored

omit [DecidableEq ι] in
lemma ordered_initial (hostNs : ℕ) : Ordered (initial hostNs : State ι) :=
  ⟨rfl,.nil,fun _ => trivial⟩

lemma Ordered.step {mode : Mode} {s : State ι} (hs : Ordered s) (act : Act ι) :
    Ordered (step mode s act) := by
  generalize hs' : Clock.step mode s act = s'
  have heffect := step_effect mode s act
  rw [hs'] at heffect
  cases heffect with
  | stay => exact hs
  | tick d => exact ⟨hs.last,hs.chain,hs.readers⟩
  | move hmove => exact ⟨hs.last,hs.chain,forall_setReader hs.readers hmove.floored⟩
  | peeked => exact ⟨hs.last,hs.chain,forall_setReader hs.readers trivial⟩
  | @returned i next seen hr =>
    refine ⟨rfl,isChain_cons hs.chain fun r hr' => ?_,forall_setReader hs.readers trivial⟩
    have hvalue : lastValue s.reads = r.value := by simp [lastValue, Option.mem_def.mp hr']
    have hfloor := hs.readers i
    rw [hr] at hfloor
    rwa [← hvalue, ← hs.last]
  | flip hmove => exact ⟨hmove.lastNs_eq.trans hs.last,hs.chain,hs.readers⟩

/-- What a look at the anchor is worth, `base` being the look of the last read: the anchor seen
has grown by a frame at most with each one published since that look, and so has the anchor now
on top of what the look will give. -/
structure Near (v : Vars) (base last seen virt : ℕ) : Prop where
  base_le : base ≤ seen
  seen_le : seen ≤ v.published
  virt_le : virt ≤ last+(seen-base)*maxFrameDeltaNs
  anchor_le : v.virtAnchorNs ≤ max virt (last+readFloorNs)+(v.published-seen)*maxFrameDeltaNs

/-- What a value to be exchanged is worth in the same terms. -/
structure Within (v : Vars) (base last next seen : ℕ) : Prop where
  base_le : base ≤ seen
  seen_le : seen ≤ v.published
  next_le : next ≤ last+max readFloorNs ((seen-base+1)*maxFrameDeltaNs)
  anchor_le : v.virtAnchorNs ≤ next+(v.published-seen)*maxFrameDeltaNs

def Look.Near (v : Vars) (base last : ℕ) : Look → Prop
  | .anchor => True
  | .boot seen => Clock.Near v base last seen 0
  | .real seen virt | .host seen virt _ => Clock.Near v base last seen virt
  | .flips _ _ => False

/-- A reader whose last value is out of date will look again. -/
def Reader.Near (v : Vars) (base : ℕ) : Reader → Prop
  | .idle | .load _ => True
  | .compute _ last look => last ≤ v.lastNs ∧ (last = v.lastNs → look.Near v base last)
  | .swap last next seen =>
      last ≤ v.lastNs ∧ (last = v.lastNs → Within v base last next seen)

/-- What the flipping thread will store is a frame ahead at most. -/
def Look.Below (v : Vars) : Look → Prop
  | .real _ virt | .host _ virt _ => virt ≤ v.virtAnchorNs
  | .flips _ _ => False
  | _ => True

def Flipper.Below (v : Vars) : Flipper → Prop
  | .compute last look => last ≤ v.lastNs ∧ look.Below v
  | .host virt | .storeReal virt _ | .storeVirt virt =>
      virt ≤ max v.virtAnchorNs v.lastNs+maxFrameDeltaNs
  | _ => True

/-- Between reads the anchor grows by a frame at most with each flip. -/
structure Growing (s : State ι) : Prop where
  base_le : lastSeen s.reads ≤ s.vars.published
  anchor_le : s.vars.virtAnchorNs ≤
    s.vars.lastNs+(s.vars.published-lastSeen s.reads)*maxFrameDeltaNs
  readers : ∀ i, (s.readers i).Near s.vars (lastSeen s.reads)
  flipper : s.flipper.Below s.vars
  chain : s.reads.IsChain fun r' r => r.seen ≤ r'.seen ∧
    r'.value ≤ r.value+max readFloorNs ((r'.seen-r.seen+1)*maxFrameDeltaNs)

omit [DecidableEq ι] in
lemma growing_initial (hostNs : ℕ) : Growing (initial hostNs : State ι) :=
  ⟨le_rfl,Nat.zero_le _,fun _ => trivial,trivial,.nil⟩

variable {v : Vars} {base last : ℕ} {look look' : Look}

/-- One access keeps what a reader knows of the anchor. -/
lemma Look.Near.step (hbase : base ≤ v.published)
    (hanchor : v.virtAnchorNs ≤ last+(v.published-base)*maxFrameDeltaNs) (hl : look.Near v base last)
    (h : computedNs .realtime v last look = .inl look') : look'.Near v base last := by
  cases look with
  | anchor =>
    simp only [computedNs] at h
    split_ifs at h with hzero
    · cases h
      exact ⟨hbase,le_rfl,Nat.zero_le _,by omega⟩
    · cases h
      exact ⟨hbase,le_rfl,hanchor,by omega⟩
  | real seen virt =>
    cases h
    exact hl
  | _ => cases h

/-- The virtual time is within a frame of the anchor seen. -/
lemma Near.within {seen virt elapsed : ℕ} (hn : Near v base last seen virt)
    (helapsed : elapsed ≤ maxFrameDeltaNs) :
    Within v base last (max (virt+elapsed) (last+readFloorNs)) seen where
  base_le := hn.base_le
  seen_le := hn.seen_le
  next_le := by
    have hvirt := hn.virt_le
    rw [Nat.add_mul, Nat.one_mul]
    omega
  anchor_le := hn.anchor_le.trans (by omega)

lemma Look.Near.value {seen value : ℕ} (hl : look.Near v base last)
    (h : computedNs .realtime v last look = .inr (seen,value)) :
    Within v base last (max value (last+readFloorNs)) seen := by
  cases look with
  | anchor =>
    simp only [computedNs] at h
    split_ifs at h
  | boot seen =>
    cases h
    have hboot : Clock.Near v base last seen 0 := hl
    refine ⟨hboot.base_le,hboot.seen_le,?_,hboot.anchor_le.trans (by omega)⟩
    have hframe : frameNs ≤ (seen-base+1)*maxFrameDeltaNs :=
      (by decide : frameNs ≤ maxFrameDeltaNs).trans (Nat.le_mul_of_pos_left _ (Nat.succ_pos _))
    omega
  | real seen virt => cases h
  | host seen virt real =>
    cases h
    exact hl.within (min_le_right _ _)
  | flips seen virt => exact hl.elim

/-- A store of a new anchor, a frame ahead at most, does not spoil a look. -/
lemma Near.store {seen virt virt' : ℕ} (hn : Near v base v.lastNs seen virt)
    (hvirt : virt' ≤ max v.virtAnchorNs v.lastNs+maxFrameDeltaNs) :
    Near { v with virtAnchorNs := virt', published := v.published+1 } base v.lastNs seen virt where
  base_le := hn.base_le
  seen_le := hn.seen_le.trans (Nat.le_succ _)
  virt_le := hn.virt_le
  anchor_le := by
    have hanchor := hn.anchor_le
    simp only [Nat.sub_add_comm hn.seen_le, Nat.add_mul, Nat.one_mul]
    omega

lemma Within.store {seen next virt' : ℕ} (hw : Within v base v.lastNs next seen)
    (hnext : v.lastNs ≤ next) (hvirt : virt' ≤ max v.virtAnchorNs v.lastNs+maxFrameDeltaNs) :
    Within { v with virtAnchorNs := virt', published := v.published+1 } base v.lastNs next seen where
  base_le := hw.base_le
  seen_le := hw.seen_le.trans (Nat.le_succ _)
  next_le := hw.next_le
  anchor_le := by
    have hanchor := hw.anchor_le
    simp only [Nat.sub_add_comm hw.seen_le, Nat.add_mul, Nat.one_mul]
    omega

/-- What readers know is of the last value, the virtual anchor and the flips. -/
structure Vars.Same (v v' : Vars) : Prop where
  lastNs : v'.lastNs = v.lastNs
  virtAnchorNs : v'.virtAnchorNs = v.virtAnchorNs
  published : v'.published = v.published

lemma Near.same {v' : Vars} {seen virt : ℕ} (h : v.Same v') (hn : Near v base last seen virt) :
    Near v' base last seen virt :=
  ⟨hn.base_le,h.published ▸ hn.seen_le,hn.virt_le,
    h.published ▸ h.virtAnchorNs ▸ hn.anchor_le⟩

lemma Within.same {v' : Vars} {next seen : ℕ} (h : v.Same v') (hw : Within v base last next seen) :
    Within v' base last next seen :=
  ⟨hw.base_le,h.published ▸ hw.seen_le,hw.next_le,h.published ▸ h.virtAnchorNs ▸ hw.anchor_le⟩

lemma Reader.Near.same {v' : Vars} {r : Reader} (h : v.Same v') (hr : r.Near v base) :
    r.Near v' base := by
  cases r with
  | compute call last look =>
    refine ⟨h.lastNs ▸ hr.1,fun heq => ?_⟩
    have hlook := hr.2 (heq.trans h.lastNs)
    cases look with
    | boot | real | host => exact Clock.Near.same h hlook
    | _ => exact hlook
  | swap last next seen => exact ⟨h.lastNs ▸ hr.1,fun heq => (hr.2 (heq.trans h.lastNs)).same h⟩
  | _ => trivial

lemma Flipper.Below.same {v' : Vars} {f : Flipper} (h : v.Same v') (hf : f.Below v) :
    f.Below v' := by
  cases f with
  | compute last look =>
    refine ⟨h.lastNs ▸ hf.1,?_⟩
    cases look with
    | real | host => exact le_of_le_of_eq hf.2 h.virtAnchorNs.symm
    | _ => exact hf.2
  | host | storeReal | storeVirt =>
    simpa only [Flipper.Below, h.lastNs, h.virtAnchorNs] using hf
  | _ => trivial

/-- A read puts every other reader out of date. -/
lemma Reader.Near.read {r : Reader} {next base' : ℕ} (hr : r.Near v base) (hnext : v.lastNs < next) :
    r.Near { v with lastNs := next } base' := by
  cases r with
  | compute | swap => exact ⟨hr.1.trans hnext.le,fun heq => absurd heq (hr.1.trans_lt hnext).ne⟩
  | _ => trivial

lemma Reader.Near.store {r : Reader} {virt : ℕ} (hfloor : r.Floored) (hr : r.Near v base)
    (hvirt : virt ≤ max v.virtAnchorNs v.lastNs+maxFrameDeltaNs) :
    r.Near { v with virtAnchorNs := virt, published := v.published+1 } base := by
  cases r with
  | compute call last look =>
    refine ⟨hr.1,fun heq => ?_⟩
    obtain rfl : last = v.lastNs := heq
    have hlook := hr.2 rfl
    cases look with
    | boot | real | host => exact Clock.Near.store hlook hvirt
    | _ => exact hlook
  | swap last next seen =>
    refine ⟨hr.1,fun heq => ?_⟩
    obtain rfl : last = v.lastNs := heq
    exact (hr.2 rfl).store ((Nat.le_add_right _ _).trans hfloor) hvirt
  | _ => trivial

lemma Reader.Move.near {r r' : Reader} (hbase : base ≤ v.published)
    (hanchor : v.virtAnchorNs ≤ v.lastNs+(v.published-base)*maxFrameDeltaNs)
    (h : r.Move .realtime v r') (hr : r.Near v base) : r'.Near v base := by
  cases h with
  | call => trivial
  | load | retry => exact ⟨le_rfl,fun _ => trivial⟩
  | look hc =>
    refine ⟨hr.1,fun heq => ?_⟩
    subst heq
    exact Look.Near.step hbase hanchor (hr.2 rfl) hc
  | value hc => exact ⟨hr.1,fun heq => Look.Near.value (hr.2 heq) hc⟩

/-- What the flipping thread peeks is within a frame of the anchor, that no other thread stores. -/
lemma Flipper.Move.below {v' : Vars} {f f' : Flipper} (h : f.Move .realtime v v' f')
    (hf : f.Below v) : f'.Below v' := by
  have hone : 1 ≤ maxFrameDeltaNs := by decide
  have hframe : frameNs ≤ maxFrameDeltaNs := by decide
  cases h with
  | start hnext => rcases hnext with rfl | rfl | rfl <;> trivial
  | capture hnext =>
    rcases hnext with rfl | ⟨hmode,-⟩
    · change max v.lastNs 1 ≤ max v.virtAnchorNs v.lastNs+maxFrameDeltaNs
      omega
    · cases hmode
  | peek => exact ⟨le_rfl,trivial⟩
  | @look last look look' hc =>
    refine ⟨hf.1,?_⟩
    cases look with
    | anchor =>
      simp only [computedNs] at hc
      split_ifs at hc
      · cases hc
        trivial
      · cases hc
        exact le_refl v.virtAnchorNs
    | real =>
      cases hc
      exact hf.2
    | _ => cases hc
  | @value last seen value look hc =>
    change max (max value last) 1 ≤ max v.virtAnchorNs v.lastNs+maxFrameDeltaNs
    have hlast := hf.1
    have hlook := hf.2
    cases look with
    | anchor =>
      simp only [computedNs] at hc
      split_ifs at hc
    | boot =>
      cases hc
      omega
    | real => cases hc
    | host seen virt real =>
      cases hc
      change virt ≤ v.virtAnchorNs at hlook
      omega
    | flips => exact hlook.elim
  | host => exact hf
  | storeReal => exact hf
  | storeVirt => trivial

lemma Flipper.Below.read {f : Flipper} {next : ℕ} (hf : f.Below v) (hnext : v.lastNs < next) :
    f.Below { v with lastNs := next } := by
  cases f with
  | compute last look =>
    refine ⟨hf.1.trans hnext.le,?_⟩
    cases look <;> exact hf.2
  | host | storeReal | storeVirt =>
    simp only [Flipper.Below] at hf ⊢
    omega
  | _ => trivial

/-- The other variables a flip moves are of no account here. -/
lemma Flipper.Move.same_or_store {v' : Vars} {f f' : Flipper} (h : f.Move .realtime v v' f') :
    v.Same v' ∨ ∃ virt, f = .storeVirt virt ∧
      v' = { v with virtAnchorNs := virt, published := v.published+1 } := by
  cases h with
  | storeVirt => exact .inr ⟨_,rfl,rfl⟩
  | _ => exact .inl ⟨rfl,rfl,rfl⟩

lemma Growing.step {s : State ι} (hordered : Ordered s) (hs : Growing s) (act : Act ι) :
    Growing (step .realtime s act) := by
  generalize hs' : Clock.step .realtime s act = s'
  have heffect := step_effect .realtime s act
  rw [hs'] at heffect
  cases heffect with
  | stay => exact hs
  | tick d =>
    have hsame : s.vars.Same { s.vars with hostNs := s.vars.hostNs+d } := ⟨rfl,rfl,rfl⟩
    exact ⟨hs.base_le,hs.anchor_le,fun i => (hs.readers i).same hsame,hs.flipper.same hsame,hs.chain⟩
  | @move i r hmove =>
    exact ⟨hs.base_le,hs.anchor_le,
      forall_setReader hs.readers (hmove.near hs.base_le hs.anchor_le (hs.readers i)),hs.flipper,
      hs.chain⟩
  | peeked => exact ⟨hs.base_le,hs.anchor_le,forall_setReader hs.readers trivial,hs.flipper,hs.chain⟩
  | @returned i next seen hr =>
    have hreader := hs.readers i
    have hfloor := hordered.readers i
    rw [hr] at hreader hfloor
    have hwithin := hreader.2 rfl
    have hnext : s.vars.lastNs < next :=
      (Nat.lt_add_of_pos_right (by decide : 0 < readFloorNs)).trans_le hfloor
    refine ⟨hwithin.seen_le,hwithin.anchor_le,
      forall_setReader (fun j => (hs.readers j).read hnext) trivial,?_,
      isChain_cons hs.chain fun r hr' => ?_⟩
    · exact hs.flipper.read hnext
    · have hvalue : s.vars.lastNs = r.value := by
        rw [hordered.last]
        simp [lastValue, Option.mem_def.mp hr']
      have hseen : lastSeen s.reads = r.seen := by simp [lastSeen, Option.mem_def.mp hr']
      have hle := hwithin.next_le
      have hbase := hwithin.base_le
      rw [hvalue, hseen] at hle
      exact ⟨hseen ▸ hbase,hle⟩
  | @flip v' f hmove =>
    have hbelow := hmove.below hs.flipper
    rcases hmove.same_or_store with hsame | ⟨virt,hf,rfl⟩
    · refine ⟨?_,?_,fun i => (hs.readers i).same hsame,hbelow,hs.chain⟩
      · exact hsame.published ▸ hs.base_le
      · rw [hsame.virtAnchorNs, hsame.lastNs, hsame.published]
        exact hs.anchor_le
    · have hvirt := hs.flipper
      rw [hf] at hvirt
      refine ⟨hs.base_le.trans (Nat.le_succ _),?_,
        fun i => (hs.readers i).store (hordered.readers i) hvirt,hbelow,hs.chain⟩
      have hanchor := hs.anchor_le
      simp only [Flipper.Below] at hvirt
      simp only [Nat.sub_add_comm hs.base_le, Nat.add_mul, Nat.one_mul]
      omega

/-- How far virtual time may be ahead of a time of the host after `n` reads. -/
def ahead (host n : ℕ) : ℕ := host+readFloorNs*n+1

def Look.Timed (v : Vars) (n : ℕ) : Look → Prop
  | .real _ virt => virt ≤ ahead v.realAnchorNs n
  | .host _ virt realAnchor => virt ≤ ahead realAnchor n ∧ realAnchor ≤ v.hostNs
  | .flips _ _ => False
  | _ => True

def Reader.Timed (v : Vars) (n : ℕ) : Reader → Prop
  | .compute _ last look => last ≤ ahead v.hostNs n ∧ look.Timed v n
  | .swap _ next _ => next ≤ ahead v.hostNs (n+1)
  | _ => True

def Flipper.Timed (v : Vars) (n : ℕ) : Flipper → Prop
  | .compute last look => last ≤ ahead v.hostNs n ∧ look.Timed v n
  | .host virt => virt ≤ ahead v.hostNs n
  | .storeReal virt real => virt ≤ ahead real n ∧ v.realAnchorNs ≤ real ∧ real ≤ v.hostNs
  | .storeVirt virt => virt ≤ ahead v.realAnchorNs n
  | _ => True

/-- The anchors are a pair: the virtual one is ahead of the real one no more than reads made. -/
structure Vars.Timed (v : Vars) (n : ℕ) : Prop where
  last : v.lastNs ≤ ahead v.hostNs n
  virt : v.virtAnchorNs ≤ ahead v.realAnchorNs n
  real : v.realAnchorNs ≤ v.hostNs

def Result.Timed (r : Result) : Prop := r.value ≤ ahead r.host r.reads

structure Timed (s : State ι) : Prop where
  vars : s.vars.Timed s.reads.length
  readers : ∀ i, (s.readers i).Timed s.vars s.reads.length
  flipper : s.flipper.Timed s.vars s.reads.length
  reads : ∀ r ∈ s.reads, r.Timed
  peeks : ∀ r ∈ s.peeks, r.Timed

omit [DecidableEq ι] in
lemma timed_initial (hostNs : ℕ) : Timed (initial hostNs : State ι) :=
  ⟨⟨Nat.zero_le _,Nat.zero_le _,Nat.zero_le _⟩,fun _ => trivial,trivial,by simp [initial],
    by simp [initial]⟩

lemma ahead_mono {host host' n n' : ℕ} (hhost : host ≤ host') (hn : n ≤ n') :
    ahead host n ≤ ahead host' n' :=
  Nat.succ_le_succ (Nat.add_le_add hhost (Nat.mul_le_mul_left _ hn))

/-- Host time, the real anchor and the number of reads only grow. -/
structure Vars.Later (v v' : Vars) : Prop where
  hostNs : v.hostNs ≤ v'.hostNs
  realAnchorNs : v.realAnchorNs ≤ v'.realAnchorNs

variable {n n' : ℕ}

lemma Look.Timed.later {v' : Vars} (h : v.Later v') (hn : n ≤ n') (hl : look.Timed v n) :
    look.Timed v' n' := by
  cases look with
  | real => exact le_trans hl (ahead_mono h.realAnchorNs hn)
  | host => exact ⟨hl.1.trans (ahead_mono le_rfl hn),hl.2.trans h.hostNs⟩
  | _ => exact hl

lemma Reader.Timed.later {v' : Vars} {r : Reader} (h : v.Later v') (hn : n ≤ n')
    (hr : r.Timed v n) : r.Timed v' n' := by
  cases r with
  | compute => exact ⟨hr.1.trans (ahead_mono h.hostNs hn),hr.2.later h hn⟩
  | swap => exact le_trans hr (ahead_mono h.hostNs (Nat.succ_le_succ hn))
  | _ => trivial

/-- The flipping thread itself stores the real anchor. -/
lemma Flipper.Timed.later {v' : Vars} {f : Flipper} (h : v.hostNs ≤ v'.hostNs)
    (hreal : v'.realAnchorNs = v.realAnchorNs) (hn : n ≤ n') (hf : f.Timed v n) :
    f.Timed v' n' := by
  cases f with
  | compute =>
    exact ⟨hf.1.trans (ahead_mono h hn),hf.2.later ⟨h,hreal.ge⟩ hn⟩
  | host => exact le_trans hf (ahead_mono h hn)
  | storeReal =>
    exact ⟨hf.1.trans (ahead_mono le_rfl hn),hreal ▸ hf.2.1,hf.2.2.trans h⟩
  | storeVirt => exact le_trans hf (ahead_mono hreal.ge hn)
  | _ => trivial

/-- An access of `computedNs` keeps the pair of anchors. -/
lemma Look.Timed.step (hv : v.Timed n) (hl : look.Timed v n)
    (h : computedNs .realtime v last look = .inl look') : look'.Timed v n := by
  cases look with
  | anchor =>
    simp only [computedNs] at h
    split_ifs at h
    · cases h
      trivial
    · cases h
      exact hv.virt
  | real =>
    cases h
    exact ⟨hl,hv.real⟩
  | _ => cases h

/-- Virtual time is ahead of the host's no more than its anchor was. -/
lemma Look.Timed.value {seen value : ℕ} (hl : look.Timed v n)
    (h : computedNs .realtime v last look = .inr (seen,value)) : value ≤ ahead v.hostNs n := by
  cases look with
  | anchor =>
    simp only [computedNs] at h
    split_ifs at h
  | boot =>
    cases h
    unfold ahead
    omega
  | real => cases h
  | host seen virt real =>
    cases h
    obtain ⟨hvirt,hreal⟩ := hl
    unfold ahead at hvirt ⊢
    omega
  | flips => exact hl.elim

lemma Reader.Move.timed {r r' : Reader} (hv : v.Timed n) (h : r.Move .realtime v r')
    (hr : r.Timed v n) : r'.Timed v n := by
  cases h with
  | call => trivial
  | load | retry => exact ⟨hv.last,trivial⟩
  | look hc => exact ⟨hr.1,hr.2.step hv hc⟩
  | value hc =>
    refine max_le ((hr.2.value hc).trans (ahead_mono le_rfl (Nat.le_succ n))) ?_
    have hlast := hr.1
    simp only [ahead, Nat.mul_add] at hlast ⊢
    omega

/-- A flip pairs the time it peeked with a later time of the host. -/
lemma Flipper.Move.timed {v' : Vars} {f f' : Flipper} (hv : v.Timed n)
    (h : f.Move .realtime v v' f') (hf : f.Timed v n) :
    v'.Timed n ∧ v.Later v' ∧ f'.Timed v' n := by
  cases h with
  | start hnext =>
    refine ⟨⟨hv.last,hv.virt,hv.real⟩,⟨le_rfl,le_rfl⟩,?_⟩
    rcases hnext with rfl | rfl | rfl <;> trivial
  | capture hnext =>
    refine ⟨hv,⟨le_rfl,le_rfl⟩,?_⟩
    rcases hnext with rfl | ⟨hmode,-⟩
    · exact max_le hv.last (Nat.le_add_left _ _)
    · cases hmode
  | peek => exact ⟨hv,⟨le_rfl,le_rfl⟩,hv.last,trivial⟩
  | look hc => exact ⟨hv,⟨le_rfl,le_rfl⟩,hf.1,hf.2.step hv hc⟩
  | value hc =>
    exact ⟨hv,⟨le_rfl,le_rfl⟩,max_le (max_le (hf.2.value hc) hf.1) (Nat.le_add_left _ _)⟩
  | host => exact ⟨hv,⟨le_rfl,le_rfl⟩,hf,hv.real,le_rfl⟩
  | storeReal =>
    exact ⟨⟨hv.last,hv.virt.trans (ahead_mono hf.2.1 le_rfl),hf.2.2⟩,⟨le_rfl,hf.2.1⟩,hf.1⟩
  | storeVirt => exact ⟨⟨hv.last,hf,hv.real⟩,⟨le_rfl,le_rfl⟩,trivial⟩

lemma Timed.step {s : State ι} (hs : Timed s) (act : Act ι) : Timed (step .realtime s act) := by
  generalize hs' : Clock.step .realtime s act = s'
  have heffect := step_effect .realtime s act
  rw [hs'] at heffect
  cases heffect with
  | stay => exact hs
  | tick d =>
    have hhost : s.vars.hostNs ≤ s.vars.hostNs+d := Nat.le_add_right _ _
    exact ⟨⟨hs.vars.last.trans (ahead_mono hhost le_rfl),hs.vars.virt,hs.vars.real.trans hhost⟩,
      fun i => (hs.readers i).later ⟨hhost,le_rfl⟩ le_rfl,hs.flipper.later hhost rfl le_rfl,
      hs.reads,hs.peeks⟩
  | @move i r hmove =>
    exact ⟨hs.vars,forall_setReader hs.readers (hmove.timed hs.vars (hs.readers i)),hs.flipper,
      hs.reads,hs.peeks⟩
  | @peeked i last seen value look hr hc =>
    have hreader := hs.readers i
    rw [hr] at hreader
    refine ⟨hs.vars,forall_setReader hs.readers trivial,hs.flipper,hs.reads,?_⟩
    exact List.forall_mem_cons.mpr ⟨max_le (hreader.2.value hc) hreader.1,hs.peeks⟩
  | @returned i next seen hr =>
    have hnext := hs.readers i
    rw [hr] at hnext
    have hmore : s.reads.length ≤ s.reads.length+1 := Nat.le_succ _
    refine ⟨⟨hnext,hs.vars.virt.trans (ahead_mono le_rfl hmore),hs.vars.real⟩,
      forall_setReader (fun j => (hs.readers j).later ⟨le_rfl,le_rfl⟩ hmore) trivial,
      hs.flipper.later le_rfl rfl hmore,List.forall_mem_cons.mpr ⟨hnext,hs.reads⟩,hs.peeks⟩
  | @flip v' f hmove =>
    obtain ⟨hv,hlater,hf⟩ := hmove.timed hs.vars hs.flipper
    exact ⟨hv,fun i => (hs.readers i).later hlater le_rfl,hf,hs.reads,hs.peeks⟩

/-- An anchor that is looked at is below half of what 64 bits hold. -/
def Look.Low : Look → Prop
  | .real _ virt | .host _ virt _ | .flips _ virt => virt < 2^63
  | _ => True

/-- No sum of a read or a flip wraps in 64 bits while the times it adds to are below half of what
they hold, and so are the frames of the flips. -/
lemma sums_lt {mode : Mode} (hlast : last < 2^63) (hlook : look.Low)
    (hflips : v.flipCount*frameNs < 2^63) :
    last+frameNs < 2^64 ∧ last+readFloorNs < 2^64 ∧
      ∀ seen value, computedNs mode v last look = .inr (seen,value) → value < 2^64 := by
  have hframe : frameNs < 2^61 ∧ readFloorNs < 2^61 ∧ maxFrameDeltaNs < 2^61 := by decide
  refine ⟨by omega,by omega,fun seen value hvalue => ?_⟩
  cases look with
  | anchor =>
    simp only [computedNs] at hvalue
    split at hvalue
    · cases hvalue
    · cases mode <;> cases hvalue
  | boot seen =>
    cases hvalue
    omega
  | real seen virt => cases hvalue
  | host seen virt real =>
    cases hvalue
    have hvirt : virt < 2^63 := hlook
    omega
  | flips seen virt =>
    cases hvalue
    have hvirt : virt < 2^63 := hlook
    omega

lemma Look.Timed.low (hv : v.Timed n) (hl : look.Timed v n) (h : ahead v.hostNs n < 2^63) : look.Low := by
  cases look with
  | real seen virt => exact (le_trans hl (ahead_mono hv.real le_rfl)).trans_lt h
  | host seen virt real => exact (hl.1.trans (ahead_mono hl.2 le_rfl)).trans_lt h
  | flips seen virt => exact hl.elim
  | _ => trivial

/-- In realtime no sum wraps until the host's time and a microsecond for each read come to half of
what 64 bits hold, after 292 years. -/
theorem realtime_sums_lt (hostNs : ℕ) (acts : List (Act ι)) {s : State ι}
    (hs : s = run .realtime hostNs acts) (h : ahead s.vars.hostNs s.reads.length < 2^63)
    {last : ℕ} {look : Look}
    (hcompute : (∃ i call, s.readers i = .compute call last look) ∨ s.flipper = .compute last look) :
    last+frameNs < 2^64 ∧ last+readFloorNs < 2^64 ∧
      ∀ seen value, computedNs .realtime s.vars last look = .inr (seen,value) → value < 2^64 := by
  have htimed : Timed s := hs ▸ run_invariant hostNs acts (timed_initial hostNs) fun s act hs => hs.step act
  obtain ⟨hlast,hlook⟩ : last ≤ ahead s.vars.hostNs s.reads.length ∧
      look.Timed s.vars s.reads.length := by
    rcases hcompute with ⟨i,call,hr⟩ | hf
    · have hreader := htimed.readers i
      rwa [hr] at hreader
    · have hflipper := htimed.flipper
      rwa [hf] at hflipper
  -- in realtime the number of flips enters no sum
  have hsame : computedNs .realtime { s.vars with flipCount := 0 } last look =
      computedNs .realtime s.vars last look := by
    cases look with
    | flips => exact hlook.elim
    | _ => simp only [computedNs]
  rw [← hsame]
  exact sums_lt (hlast.trans_lt h) (hlook.low htimed.vars h) (by norm_num)

/-- In every run a read is one microsecond above the one before it at least. In realtime it is a
frame for each flip between the two and one more above it at most, the flips between them being
those whose anchors were published after the first looked and before the second did, and nothing
read or peeked is ahead of the host by more than a microsecond for each read made. -/
theorem clock_bounded (mode : Mode) (hostNs : ℕ) (acts : List (Act ι)) :
    ((run mode hostNs acts).reads.IsChain fun r' r => r.value+readFloorNs ≤ r'.value) ∧
    (mode = .realtime →
      ((run mode hostNs acts).reads.IsChain fun r' r =>
        r.seen ≤ r'.seen ∧ r'.value-r.value ≤
          max readFloorNs ((r'.seen-r.seen+1)*maxFrameDeltaNs)+1) ∧
      ∀ r ∈ (run mode hostNs acts).reads++(run mode hostNs acts).peeks,
        r.value ≤ r.host+readFloorNs*r.reads+1) := by
  have hordered : Ordered (run mode hostNs acts) :=
    run_invariant hostNs acts (ordered_initial hostNs) fun s act hs => hs.step act
  refine ⟨hordered.chain,?_⟩
  rintro rfl
  let inv (s : State ι) := (Ordered s ∧ Growing s) ∧ Timed s
  have hrealtime : inv (run .realtime hostNs acts) :=
    run_invariant hostNs acts ⟨⟨ordered_initial hostNs,growing_initial hostNs⟩,timed_initial hostNs⟩
      fun s act hs => ⟨⟨hs.1.1.step act,hs.1.2.step hs.1.1 act⟩,hs.2.step act⟩
  obtain ⟨⟨-,hgrowing⟩,htimed⟩ := hrealtime
  refine ⟨hgrowing.chain.imp fun r' r h => ⟨h.1,by have := h.2; omega⟩,fun r hr => ?_⟩
  rcases List.mem_append.mp hr with hr | hr
  · exact htimed.reads r hr
  · exact htimed.peeks r hr

/-- A read while booting, before any time has passed. -/
example : (run .realtime 5 (.call () .now :: List.replicate 4 (.read () false))).reads =
    [⟨1000,0,5,1⟩] := by decide

end Unemups4.Clock

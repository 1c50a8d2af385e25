import Unemups4.ClockPace
import Unemups4.SyncLocks

/-! The timed waits of POSIX. A deadline on the guest's clock becomes a wait on the host's when the
call is made; reads of the one and flips go on between any two of its steps. -/
namespace Unemups4.Clock

namespace Vars

variable (mode : Mode) (v : Vars)

/-- What the guest's clock shows: the value of a read made now. -/
def nextRead : ℕ := max (v.computed mode) (v.lastNs+readFloorNs)

end Vars

variable {ι : Type*} [DecidableEq ι] {mode : Mode} {s : State ι} {i : ι}

/-- A read that nothing interrupts returns what the clock shows. -/
theorem read_alone (hi : s.readers i = .idle) : ∃ acts : List (Act ι),
    (acts.foldl (step mode) s).reads.map Result.value =
      s.vars.nextRead mode :: s.reads.map Result.value := by
  by_cases hzero : s.vars.virtAnchorNs = 0
  · refine ⟨.call i .now :: List.replicate 4 (.read i false),?_⟩
    simp [List.replicate,step,readStep,State.setReader,computedNs,hi,hzero,Vars.nextRead,
      Vars.computed]
  · cases mode with
    | realtime =>
      refine ⟨.call i .now :: List.replicate 5 (.read i false),?_⟩
      simp [List.replicate,step,readStep,State.setReader,computedNs,hi,hzero,Vars.nextRead,
        Vars.computed]
    | fixedStep =>
      refine ⟨.call i .now :: List.replicate 4 (.read i false),?_⟩
      simp [List.replicate,step,readStep,State.setReader,computedNs,hi,hzero,Vars.nextRead,
        Vars.computed]

/-- No step takes the last value back. -/
lemma Ordered.lastNs_le (hs : Ordered s) (act : Act ι) :
    s.vars.lastNs ≤ (Clock.step mode s act).vars.lastNs := by
  generalize hs' : Clock.step mode s act = s'
  have heffect := step_effect mode s act
  rw [hs'] at heffect
  cases heffect with
  | @returned i next seen hr =>
    have hfloor := hs.readers i
    rw [hr] at hfloor
    exact (Nat.le_add_right _ _).trans hfloor
  | flip hmove => exact hmove.lastNs_eq.ge
  | _ => exact le_rfl

/-- Nor the host's time. -/
lemma hostNs_le (s : State ι) (act : Act ι) :
    s.vars.hostNs ≤ (Clock.step mode s act).vars.hostNs := by
  generalize hs' : Clock.step mode s act = s'
  have heffect := step_effect mode s act
  rw [hs'] at heffect
  cases heffect with
  | tick d => exact Nat.le_add_right _ _
  | @flip v f hmove =>
    generalize s.flipper = f₀ at hmove
    cases hmove <;> exact le_rfl
  | _ => exact le_rfl

end Unemups4.Clock

namespace Unemups4.Kernel.TimedWait

open Clock (Mode)

open Transition (Reach)

/-- The timespec a pointer leads to. -/
inductive Abstime where
  | null
  | unreadable
  | fields (sec nsec : Int64)
  deriving DecidableEq, Repr

def maxU64 : ℕ := 2^64-1

def maxU32 : ℕ := 2^32-1

/-- The first half of `abstime_to_relative_micros`: the deadline, or the error. -/
def deadlineNs : Abstime → Except ℕ ℕ
  | .null => .error 22
  | .unreadable => .error 14
  | .fields sec nsec =>
      if ¬(0 ≤ nsec ∧ nsec < 1000000000) ∨ sec < 0 then .error 22
      else .ok (min (min (sec.toInt.toNat*1000000000) maxU64+nsec.toInt.toNat) maxU64)

/-- The second half, once the epoch is read. -/
def relativeMicros (deadline epoch : ℕ) : ℕ := min ((deadline-epoch)/1000) maxU32

/-- The two timed waits. -/
inductive PosixCall where
  | mutexTimedlock (addr : GuestAddr)
  | condTimedwait (cond addr : GuestAddr)
  deriving DecidableEq, Repr

def PosixCall.syncCall : PosixCall → SyncCall
  | .mutexTimedlock addr => .mutex .timedlock addr
  | .condTimedwait cond addr => .condWait cond addr true

/-- What the virtual epoch is read for. -/
inductive Use where
  | gettime
  | wait (call : PosixCall) (deadline : ℕ)
  deriving DecidableEq, Repr

/-- A wait in the kernel: the deadline, the epoch's base and the read it was measured against, and
the host's time and the flips when the kernel was called. -/
structure Wait where
  deadline : ℕ
  base : ℕ
  read : ℕ
  host : ℕ
  flips : ℕ
  deriving DecidableEq, Repr

namespace Wait

variable (w : Wait)

def micros : ℕ := relativeMicros w.deadline (w.base+w.read)

/-- When the host's wait is over at the earliest. -/
def due : ℕ := w.host+w.micros*1000

/-- What is left up to the deadline when the epoch is read. -/
def remainder : ℕ := w.deadline-(w.base+w.read)

def mark : Clock.Mark := ⟨w.read,w.host,w.flips⟩

end Wait

/-- Where a thread is in a call of these: about to look at the base of the epoch, to read the clock
for it or on top of it, to call the kernel, or in the kernel. -/
inductive Phase where
  | idle
  | base (use : Use)
  | init (use : Use) (realEpoch : ℕ)
  | read (use : Use) (base : ℕ)
  | enter (call : PosixCall) (deadline base read : ℕ)
  | wait (w : Wait)
  deriving DecidableEq, Repr

/-- The base of the virtual epoch, that the first thread to need it captures. -/
inductive Base where
  | unset
  | running
  | set (ns : ℕ)
  deriving DecidableEq, Repr

/-- What a timed wait returned, with the wait if there was one and what the clock showed. -/
structure Return where
  code : ℕ
  wait : Option Wait
  read : ℕ
  deriving DecidableEq, Repr

/-- The clock, the threads in their calls and the locks, with the waits that are under way and what
the timed waits have returned. -/
structure State where
  clock : Clock.State Tid
  base : Base
  phase : Tid → Phase
  sync : SyncManager
  waits : List (Tid × Wait)
  returns : List Return

/-- What happens next: something at the clock, a call of `clock_gettime` or of a timed wait, a look
at the base of the epoch, the call of the kernel, or something among the locks. -/
inductive Act where
  | clock (act : Clock.Act Tid)
  | gettime (t : Tid)
  | timedwait (t : Tid) (call : PosixCall) (abstime : Abstime)
  | base (t : Tid) (realEpoch : ℕ)
  | enter (t : Tid)
  | sync (t : Tid) (act : Kernel.Act)

namespace State

variable (mode : Mode) (s : State) (t : Tid)

def setPhase (phase : Phase) : State := { s with phase := Function.update s.phase t phase }

def atClock (act : Clock.Act Tid) : State := { s with clock := Clock.step mode s.clock act }

/-- A thread that is in no call. -/
def Free : Prop :=
  s.phase t = .idle ∧ s.clock.readers t = .idle ∧
    match s.sync.pc t with
    | .done _ => True
    | _ => False

instance : Decidable (s.Free t) := by
  unfold Free
  cases s.sync.pc t <;> infer_instance

/-- `virtual_epoch_ns` and what follows it, once a read of the clock has come back. -/
def resume (value : ℕ) : State :=
  match s.phase t with
  | .init use realEpoch =>
      ({ s with base := .set (realEpoch-value) }.setPhase t
        (.read use (realEpoch-value))).atClock mode (.call t .now)
  | .read .gettime _ => s.setPhase t .idle
  | .read (.wait call deadline) base => s.setPhase t (.enter call deadline base value)
  | _ => s

/-- A wait that has come back from the kernel returns. -/
def settle (w : Wait) (sync : SyncManager) : State :=
  match sync.pc t with
  | .done code =>
      { s.setPhase t .idle with
        sync := sync
        waits := s.waits.filter fun p => p.1 ≠ t
        returns := ⟨code,some w,s.clock.vars.nextRead mode⟩ :: s.returns }
  | _ => { s with sync := sync }

end State

/-- The host waits for as long as it was asked to. -/
def Timely (w : Wait) (host : ℕ) : Pc → Kernel.Act → Prop
  | .enter .timedlock _ _ _, .go late _ => late = true ↔ w.due ≤ host
  | _, .wake true => w.due ≤ host
  | _, _ => True

instance (w : Wait) (host : ℕ) (pc : Pc) (act : Kernel.Act) : Decidable (Timely w host pc act) := by
  unfold Timely
  split <;> infer_instance

def next (mode : Mode) (s : State) : Act → Option State
  | .clock (.call t call) => if s.Free t then some (s.atClock mode (.call t call)) else none
  | .clock (.read t spurious) =>
      let s' := s.atClock mode (.read t spurious)
      some (if s.clock.readers t ≠ .idle ∧ s'.clock.readers t = .idle then
        s'.resume mode t s'.clock.vars.lastNs else s')
  | .clock act => some (s.atClock mode act)
  | .gettime t => if s.Free t then some (s.setPhase t (.base .gettime)) else none
  | .timedwait t call abstime =>
      if s.Free t then
        match deadlineNs abstime with
        | .error code =>
            some { s with returns := ⟨code,none,s.clock.vars.nextRead mode⟩ :: s.returns }
        | .ok deadline => some (s.setPhase t (.base (.wait call deadline)))
      else none
  | .base t realEpoch =>
      match s.phase t, s.base with
      | .base use, .unset =>
          some (({ s with base := .running }.setPhase t (.init use realEpoch)).atClock mode
            (.call t .now))
      | .base use, .set base => some ((s.setPhase t (.read use base)).atClock mode (.call t .now))
      | _, _ => none
  | .enter t =>
      match s.phase t with
      | .enter call deadline base read =>
          (s.sync.next t (.call call.syncCall)).map fun sync =>
            let w := ⟨deadline,base,read,s.clock.vars.hostNs,s.clock.vars.flipCount⟩
            { s.setPhase t (.wait w) with sync := sync, waits := (t,w) :: s.waits }
      | _ => none
  | .sync t act =>
      match s.phase t with
      | .idle =>
          if s.clock.readers t = .idle then
            (s.sync.next t act).map fun sync => { s with sync := sync }
          else none
      | .wait w =>
          if Timely w s.clock.vars.hostNs (s.sync.pc t) act then
            (s.sync.next t act).map fun sync => s.settle mode t w sync
          else none
      | _ => none

/-- No call yet; the host's time is whatever it is. -/
def start (hostNs : ℕ) : State := ⟨Clock.initial hostNs,.unset,fun _ => .idle,.start,[],[]⟩

/-- A thread whose wait has timed out, whatever is left of the call. -/
def TimedOut : Pc → Prop
  | .enter _ _ _ expired => expired = true
  | .asleep _ code | .relock _ code | .relockParked _ code => code = 60
  | _ => False

/-- A step that returns `ETIMEDOUT`. -/
def Ending (sync : SyncManager) (t : Tid) (act : Kernel.Act) : Prop :=
  match sync.pc t, act with
  | .enter .timedlock _ m expired, .go late _ =>
      expired = true ∨ late = true ∧ ((sync.objects m).lockPass t).2 = none
  | .relock w code, .go _ _ => code = 60 ∧ (sync.objects w.mutex).owner = none
  | _, _ => False

instance (sync : SyncManager) (t : Tid) (act : Kernel.Act) : Decidable (Ending sync t act) := by
  unfold Ending
  split <;> infer_instance

section Sync

variable {sync sync' : SyncManager} {t : Tid} {act : Kernel.Act}

/-- Only the timed lock has the code among those of a pass. -/
lemma pass_sixty {st : HostMutexState} {call : MutexCall} {expired late : Bool}
    (h : (st.pass t call expired late).2 = some 60) :
    call = .timedlock ∧ (expired = true ∨ late = true ∧ (st.lockPass t).2 = none) := by
  have hlock : (st.lockPass t).2 ≠ some 60 := by
    unfold HostMutexState.lockPass
    cases st.owner with
    | none => simp
    | some owner => cases st.mtype <;> simp <;> split_ifs <;> simp
  cases call with
  | lock => exact absurd h hlock
  | trylock =>
    simp only [HostMutexState.pass,HostMutexState.trylockPass] at h
    split at h
    · simp at h
    · split_ifs at h <;> simp at h
  | timedlock =>
    refine ⟨rfl,?_⟩
    simp only [HostMutexState.pass,HostMutexState.timedlockPass] at h
    split_ifs at h with hexpired hlate
    · exact .inl hexpired
    · exact .inr ⟨hlate.2,hlate.1⟩
    · exact absurd h hlock
  | unlock =>
    simp only [HostMutexState.pass,HostMutexState.unlockPass] at h
    split at h
    · simp at h
    · split_ifs at h <;> simp at h

/-- A pass that returns has the code that it found. -/
lemma pass_done {call : MutexCall} {addr : GuestAddr} {m : MutexId} {expired late : Bool} {code : ℕ}
    (h : (sync.pass t call addr m expired late).pc t = .done code) :
    ((sync.objects m).pass t call expired late).2 = some code := by
  cases hr : ((sync.objects m).pass t call expired late).2 with
  | none => simp [SyncManager.pass,hr] at h
  | some code' => simpa [SyncManager.pass,hr] using h

/-- It leaves no thread in the kernel that has timed out. -/
lemma pass_not_timedOut (call : MutexCall) (addr : GuestAddr) (m : MutexId) (expired late : Bool) :
    ¬TimedOut ((sync.pass t call addr m expired late).pc t) := by
  obtain ⟨pc,hpc,hkind⟩ := sync.pass_pc (t := t) call addr m expired late
  rw [hpc,Function.update_self]
  rcases hkind with rfl | ⟨code,rfl⟩ <;> exact id

/-- Where the code comes from. -/
lemma ending_of_sixty (h : sync.next t act = some sync') (hdone : sync'.pc t = .done 60) :
    Ending sync t act := by
  revert h
  fun_cases SyncManager.next sync t act <;> intro h <;> cases h
  case case1 call _ => cases call <;> simp [SyncManager.entry] at hdone
  case case4 call _ _ _ _ _ _ => split_ifs at hdone <;> simp at hdone
  case case11 hpc _ _ _ =>
    obtain ⟨rfl,hcode⟩ := pass_sixty (pass_done hdone)
    simpa [Ending,hpc] using hcode
  case case13 => cases (pass_sixty (pass_done hdone)).1
  case case19 m mtype _ _ _ _ =>
    simp only [SyncManager.goto_pc,Function.update_self,Pc.done.injEq,HostMutexState.reset] at hdone
    split_ifs at hdone
    simp at hdone
  all_goals
    rename sync.pc t = _ => hpc
    simp_all [Ending]

/-- A thread has timed out only when its host wait has. -/
lemma timedOut_next (h : sync.next t act = some sync') (hout : TimedOut (sync'.pc t)) :
    TimedOut (sync.pc t) ∨ act = .wake true := by
  revert h
  fun_cases SyncManager.next sync t act <;> intro h <;> cases h
  case case1 call _ => cases call <;> simp [SyncManager.entry,TimedOut] at hout
  case case4 => split_ifs at hout <;> simp [TimedOut] at hout
  case case11 | case13 => exact (pass_not_timedOut _ _ _ _ _ hout).elim
  all_goals
    rename sync.pc t = _ => hpc
    simp_all [TimedOut]

/-- The host's wait is over when the code is returned. -/
lemma due_of_ending {w : Wait} {host : ℕ} (hend : Ending sync t act)
    (htimely : Timely w host (sync.pc t) act) (hout : TimedOut (sync.pc t) → w.due ≤ host) :
    w.due ≤ host := by
  unfold Ending at hend
  split at hend
  case h_1 hpc =>
    rw [hpc] at htimely hout
    rcases hend with hexpired | ⟨hlate,-⟩
    · exact hout hexpired
    · exact htimely.mp hlate
  case h_2 hpc =>
    rw [hpc] at hout
    exact hout hend.1
  case h_3 => exact hend.elim

lemma due_of_wake {w : Wait} {host : ℕ} (h : Timely w host (sync.pc t) (.wake true)) :
    w.due ≤ host := by
  unfold Timely at h
  split at h <;> simp_all

/-- A call that starts has not timed out. -/
lemma call_not_timedOut {call : SyncCall} (h : sync.next t (.call call) = some sync') :
    ¬TimedOut (sync'.pc t) := by
  intro hout
  have hbefore := (timedOut_next h hout).resolve_right (by simp)
  cases hpc : sync.pc t <;> simp only [SyncManager.next,hpc,reduceCtorEq] at h
  rw [hpc] at hbefore
  exact hbefore

end Sync

lemma deadlineNs_error {abstime : Abstime} {code : ℕ} (h : deadlineNs abstime = .error code) :
    code ≠ 60 := by
  cases abstime with
  | fields sec nsec =>
    simp only [deadlineNs] at h
    split_ifs at h
    cases h
    decide
  | _ =>
    cases h
    decide

/-- A span that the seam carries as it is, or one below what the clock moves by with each read. -/
def Whole (span : ℕ) : Prop := span < 1000 ∨ span % 1000 = 0 ∧ span ≤ maxU32*1000

instance (span : ℕ) : Decidable (Whole span) := inferInstanceAs (Decidable (_ ∨ _))

/-- A deadline is a whole number of microseconds ahead, or almost there. For one that is not, no flip
is under way and the read is not ahead of virtual time when the kernel is called, the clock keeps pace
while the wait is under way, and no flip is between its two stores when the call returns. -/
def Steady (mode : Mode) (s : State) : Act → Prop
  | .enter t =>
      match s.phase t with
      | .enter _ deadline base read =>
          Whole (deadline-(base+read)) ∧ (1000 ≤ deadline-(base+read) →
            read ≤ s.clock.vars.computed mode ∧ s.clock.flipper = .idle)
      | _ => True
  | .clock act => ∀ p ∈ s.waits, 1000 ≤ p.2.remainder →
      Clock.KeepsPace mode p.2.mark s.clock.vars s.clock.flipper act
  | .sync t act =>
      match s.phase t with
      | .wait w => Ending s.sync t act → 1000 ≤ w.remainder →
          s.clock.vars.virtAnchorNs ≠ 0 → s.clock.flipper.stores = false
      | _ => True
  | _ => True

instance (mode : Mode) (s : State) (act : Act) : Decidable (Steady mode s act) := by
  cases act with
  | enter t => unfold Steady; dsimp only; split <;> infer_instance
  | sync t act => unfold Steady; dsimp only; split <;> infer_instance
  | clock act => unfold Steady; infer_instance
  | _ => exact inferInstanceAs (Decidable True)

/-- The guest's clock shows the deadline or a later time. -/
def Return.Reached (r : Return) : Prop := ∃ w, r.wait = some w ∧ w.deadline ≤ w.base+r.read

/-- What is known of a thread in a call: its read is not ahead of the last value, and its wait has
timed out only when it is due. -/
def Phase.Kept (v : Clock.Vars) (pc : Pc) : Phase → Prop
  | .enter _ _ _ value => value ≤ v.lastNs
  | .wait w => w.read ≤ v.lastNs ∧ Whole w.remainder ∧ (TimedOut pc → w.due ≤ v.hostNs)
  | _ => True

structure Kept (mode : Mode) (s : State) : Prop where
  ordered : Clock.Ordered s.clock
  anchored : Clock.Anchored s.clock.vars s.clock.flipper
  phases : ∀ t, (s.phase t).Kept s.clock.vars (s.sync.pc t)
  waits : ∀ t w, s.phase t = .wait w → (t,w) ∈ s.waits
  begun : ∀ p ∈ s.waits, p.2.host ≤ s.clock.vars.hostNs
  paced : ∀ p ∈ s.waits, 1000 ≤ p.2.remainder →
    Clock.Paced mode p.2.mark s.clock.vars s.clock.flipper
  returns : ∀ r ∈ s.returns, r.code = 60 → r.Reached

lemma Phase.Kept.later {v v' : Clock.Vars} {pc : Pc} {phase : Phase} (h : phase.Kept v pc)
    (hlast : v.lastNs ≤ v'.lastNs) (hhost : v.hostNs ≤ v'.hostNs) : phase.Kept v' pc := by
  cases phase with
  | enter call deadline base read => exact le_trans h hlast
  | wait w => exact ⟨h.1.trans hlast,h.2.1,fun hout => (h.2.2 hout).trans hhost⟩
  | _ => trivial

section Steps

variable {mode : Mode} {s s' : State} {t : Tid}

lemma Kept.atClock (h : Kept mode s) {act : Clock.Act Tid}
    (hok : ∀ p ∈ s.waits, 1000 ≤ p.2.remainder →
      Clock.KeepsPace mode p.2.mark s.clock.vars s.clock.flipper act) :
    Kept mode (s.atClock mode act) where
  ordered := h.ordered.step act
  anchored := h.anchored.step h.ordered act
  phases t := (h.phases t).later (h.ordered.lastNs_le act) (Clock.hostNs_le s.clock act)
  waits := h.waits
  begun p hp := (h.begun p hp).trans (Clock.hostNs_le s.clock act)
  paced p hp hlong := (h.paced p hp hlong).step h.anchored h.ordered (h.begun p hp) (hok p hp hlong)
  returns := h.returns

/-- A call of the clock is no matter of its pace. -/
lemma Kept.call (h : Kept mode s) (t : Tid) (call : Clock.Call) :
    Kept mode (s.atClock mode (.call t call)) := h.atClock fun _ _ _ => trivial

lemma Kept.setPhase {phase : Phase} (h : Kept mode s) (hphase : phase.Kept s.clock.vars (s.sync.pc t))
    (hwait : ∀ w, phase = .wait w → (t,w) ∈ s.waits) : Kept mode (s.setPhase t phase) where
  ordered := h.ordered
  anchored := h.anchored
  phases u := by
    by_cases hu : u = t
    · subst hu
      simpa [State.setPhase] using hphase
    · simpa [State.setPhase,hu] using h.phases u
  waits u w hu := by
    by_cases heq : u = t
    · subst heq
      exact hwait w (by simpa [State.setPhase] using hu)
    · exact h.waits u w (by simpa [State.setPhase,heq] using hu)
  begun := h.begun
  paced := h.paced
  returns := h.returns

lemma Kept.setBase {base : Base} (h : Kept mode s) : Kept mode { s with base := base } :=
  ⟨h.ordered,h.anchored,h.phases,h.waits,h.begun,h.paced,h.returns⟩

lemma Kept.resume (h : Kept mode s) : Kept mode (s.resume mode t s.clock.vars.lastNs) := by
  unfold State.resume
  split
  · refine .call (.setPhase h.setBase ?_ ?_) _ _
    · trivial
    · exact nofun
  · exact h.setPhase trivial nofun
  · exact h.setPhase le_rfl nofun
  · exact h

/-- A step among the locks touches the thread that takes it alone. -/
lemma Kept.sync {sync : SyncManager} {act : Kernel.Act} (h : Kept mode s)
    (hsync : s.sync.next t act = some sync)
    (ht : (s.phase t).Kept s.clock.vars (sync.pc t)) : Kept mode { s with sync := sync } where
  ordered := h.ordered
  anchored := h.anchored
  phases u := by
    by_cases hu : u = t
    · exact hu ▸ ht
    · simpa [SyncManager.next_pc_other hsync hu] using h.phases u
  waits := h.waits
  begun := h.begun
  paced := h.paced
  returns := h.returns

/-- A wait that the kernel is called for is one of those under way. -/
lemma Kept.addWait {w : Wait} (h : Kept mode s) (hhost : w.host ≤ s.clock.vars.hostNs)
    (hpaced : 1000 ≤ w.remainder → Clock.Paced mode w.mark s.clock.vars s.clock.flipper) :
    Kept mode { s with waits := (t,w) :: s.waits } where
  ordered := h.ordered
  anchored := h.anchored
  phases := h.phases
  waits u w' hu := List.mem_cons_of_mem _ (h.waits u w' hu)
  begun := List.forall_mem_cons.mpr ⟨hhost,h.begun⟩
  paced := List.forall_mem_cons.mpr ⟨hpaced,h.paced⟩
  returns := h.returns

/-- The waits of a thread that is in none can go. -/
lemma Kept.dropWaits (h : Kept mode s) (ht : ∀ w, s.phase t ≠ .wait w) :
    Kept mode { s with waits := s.waits.filter fun p => p.1 ≠ t } where
  ordered := h.ordered
  anchored := h.anchored
  phases := h.phases
  waits u w hu := by
    have hne : u ≠ t := by
      rintro rfl
      exact ht w hu
    exact List.mem_filter.mpr ⟨h.waits u w hu,by simpa using hne⟩
  begun p hp := h.begun p (List.mem_of_mem_filter hp)
  paced p hp := h.paced p (List.mem_of_mem_filter hp)
  returns := h.returns

/-- What the wait was measured by is there when the code is returned. -/
lemma reached {w : Wait} {v : Clock.Vars} (hread : w.read ≤ v.lastNs) (hwhole : Whole w.remainder)
    (hdue : w.due ≤ v.hostNs) (hpace : 1000 ≤ w.remainder → w.mark.fair v.hostNs ≤ v.computed mode) :
    w.deadline ≤ w.base+v.nextRead mode := by
  have hfloor : v.lastNs+1000 ≤ v.nextRead mode := le_max_right _ _
  have hshown : v.computed mode ≤ v.nextRead mode := le_max_left _ _
  by_cases hshort : w.remainder < 1000
  · unfold Wait.remainder at hshort
    omega
  · obtain ⟨hmod,hmax⟩ := hwhole.resolve_left hshort
    have hfair : w.read+(v.hostNs-w.host) ≤ v.computed mode := hpace (not_lt.mp hshort)
    have hmicros : w.micros*1000 = w.remainder := by
      have hmin : w.micros = w.remainder/1000 :=
        min_eq_left (Nat.div_le_of_le_mul (by rwa [mul_comm]))
      rw [hmin]
      exact Nat.div_mul_cancel (Nat.dvd_of_mod_eq_zero hmod)
    unfold Wait.due at hdue
    unfold Wait.remainder at hmicros
    omega

lemma Kept.wait {w : Wait} {sync : SyncManager} {act : Kernel.Act} (h : Kept mode s)
    (hphase : s.phase t = .wait w) (htimely : Timely w s.clock.vars.hostNs (s.sync.pc t) act)
    (hsteady : Ending s.sync t act → 1000 ≤ w.remainder →
      s.clock.vars.virtAnchorNs ≠ 0 → s.clock.flipper.stores = false)
    (hsync : s.sync.next t act = some sync) : Kept mode (s.settle mode t w sync) := by
  obtain ⟨hread,hwhole,hout⟩ : (Phase.wait w).Kept s.clock.vars (s.sync.pc t) := hphase ▸ h.phases t
  have hout' : TimedOut (sync.pc t) → w.due ≤ s.clock.vars.hostNs := by
    intro hnow
    rcases timedOut_next hsync hnow with hbefore | rfl
    · exact hout hbefore
    · exact due_of_wake htimely
  have hkept : Kept mode { s with sync := sync } := h.sync hsync (hphase ▸ ⟨hread,hwhole,hout'⟩)
  unfold State.settle
  split
  case h_1 code hdone =>
    have hidle : Kept mode (State.setPhase { s with sync := sync } t .idle) :=
      hkept.setPhase trivial nofun
    have hgone := hidle.dropWaits (t := t) (by simp [State.setPhase])
    refine ⟨hgone.ordered,hgone.anchored,hgone.phases,hgone.waits,hgone.begun,hgone.paced,?_⟩
    intro r hr hcode
    rcases List.mem_cons.mp hr with rfl | hr
    · obtain rfl : code = 60 := hcode
      have hend := ending_of_sixty hsync hdone
      refine ⟨w,rfl,reached hread hwhole (due_of_ending hend htimely hout) fun hlong => ?_⟩
      exact (h.paced _ (h.waits t w hphase) hlong).shown (hsteady hend hlong)
    · exact hidle.returns r hr hcode
  case h_2 => exact hkept

lemma Kept.next {act : Act} (h : Kept mode s) (hsteady : Steady mode s act)
    (hnext : next mode s act = some s') : Kept mode s' := by
  cases act with
  | clock act =>
    cases act with
    | read t spurious =>
      obtain rfl := Option.some.inj hnext
      split_ifs
      · exact (h.atClock hsteady).resume
      · exact h.atClock hsteady
    | call t call =>
      simp only [TimedWait.next,Option.ite_none_right_eq_some,Option.some.injEq] at hnext
      exact hnext.2 ▸ h.call t call
    | tick d | flip =>
      obtain rfl := Option.some.inj hnext
      exact h.atClock hsteady
  | gettime t =>
    simp only [TimedWait.next,Option.ite_none_right_eq_some,Option.some.injEq] at hnext
    exact hnext.2 ▸ h.setPhase trivial nofun
  | timedwait t call abstime =>
    simp only [TimedWait.next,Option.ite_none_right_eq_some] at hnext
    obtain ⟨-,hnext⟩ := hnext
    split at hnext
    case h_1 code herror =>
      obtain rfl := Option.some.inj hnext
      refine ⟨h.ordered,h.anchored,h.phases,h.waits,h.begun,h.paced,?_⟩
      intro r hr hcode
      rcases List.mem_cons.mp hr with rfl | hr
      · exact absurd hcode (deadlineNs_error herror)
      · exact h.returns r hr hcode
    case h_2 =>
      obtain rfl := Option.some.inj hnext
      exact h.setPhase trivial nofun
  | base t realEpoch =>
    simp only [TimedWait.next] at hnext
    split at hnext <;> cases hnext
    · refine .call (.setPhase h.setBase ?_ ?_) _ _
      · trivial
      · exact nofun
    · refine .call (.setPhase h ?_ ?_) _ _
      · trivial
      · exact nofun
  | enter t =>
    simp only [TimedWait.next] at hnext
    split at hnext
    case h_1 call deadline base read hphase =>
      obtain ⟨sync,hsync,rfl⟩ := Option.map_eq_some_iff.mp hnext
      have hread : (Phase.enter call deadline base read).Kept s.clock.vars (s.sync.pc t) :=
        hphase ▸ h.phases t
      simp only [Steady,hphase] at hsteady
      obtain ⟨hwhole,hstart⟩ := hsteady
      have hkept : Kept mode { s with sync := sync } := h.sync hsync (hphase ▸ hread)
      let w : Wait := ⟨deadline,base,read,s.clock.vars.hostNs,s.clock.vars.flipCount⟩
      have hadded := hkept.addWait (t := t) (w := w) le_rfl fun hlong => by
        obtain ⟨hahead,hidle⟩ := hstart hlong
        exact hidle ▸ Clock.paced_start hahead
      refine hadded.setPhase ⟨hread,hwhole,fun hout => absurd hout (call_not_timedOut hsync)⟩ ?_
      intro w' hw
      cases hw
      exact List.mem_cons_self
    case h_2 => cases hnext
  | sync t act =>
    simp only [TimedWait.next] at hnext
    split at hnext
    case h_1 hphase =>
      simp only [Option.ite_none_right_eq_some] at hnext
      obtain ⟨sync,hsync,rfl⟩ := Option.map_eq_some_iff.mp hnext.2
      exact h.sync hsync (hphase ▸ trivial)
    case h_2 w hphase =>
      simp only [Option.ite_none_right_eq_some] at hnext
      obtain ⟨sync,hsync,rfl⟩ := Option.map_eq_some_iff.mp hnext.2
      simp only [Steady,hphase] at hsteady
      exact h.wait hphase hnext.1 hsteady hsync
    case h_3 => cases hnext

end Steps

/-- In a run all of whose steps are steady no timed wait returns early. -/
theorem timedOut_reached {mode : Mode} {s : State}
    (hs : Reach (next mode) (fun s => ∃ hostNs, s = start hostNs) (Steady mode) s) :
    ∀ r ∈ s.returns, r.code = 60 → r.Reached := by
  have hkept : Kept mode s := by
    refine hs.invariant ?_ fun _ _ _ h hok hstep => h.next hok hstep
    rintro _ ⟨hostNs,rfl⟩
    exact ⟨Clock.ordered_initial hostNs,Clock.anchored_initial hostNs,fun _ => trivial,nofun,
      by simp [start],by simp [start],by simp [start]⟩
  exact hkept.returns

/-- Thread 1 holds a mutex that thread 0 waits for, until a deadline so far from the read, and the
host's time goes on for as long. -/
private def aWait (abstime : Abstime) (span : ℕ) : List Act :=
  [.sync 1 (.call (.mutex .lock 8)),.sync 1 (.go false 0),.sync 1 (.go false 0),
    .sync 1 (.go false 0),.clock (.tick 1000000),.timedwait 0 (.mutexTimedlock 8) abstime,
    .base 0 1001000000,.clock (.read 0 false),.clock (.read 0 false),.clock (.read 0 false),
    .clock (.tick 5000),.clock (.read 0 false),.clock (.read 0 false),.clock (.read 0 false),
    .clock (.read 0 false),.clock (.read 0 false),.enter 0,.sync 0 (.go false 0),
    .sync 0 (.go false 0),.clock (.tick span),.sync 0 (.wake true),.sync 0 (.go true 0)]

/-- The same in fixed steps: the first flip comes before the kernel is called, and another one before
the seven microseconds pass. -/
private def aFlippedWait : List Act :=
  [.sync 1 (.call (.mutex .lock 8)),.sync 1 (.go false 0),.sync 1 (.go false 0),
    .sync 1 (.go false 0),.clock (.tick 1000000),.timedwait 0 (.mutexTimedlock 8) (.fields 1 1012000),
    .base 0 1001000000,.clock (.read 0 false),.clock (.read 0 false),.clock (.read 0 false),
    .clock (.tick 5000),.clock (.read 0 false),.clock (.read 0 false),.clock (.read 0 false),
    .clock (.read 0 false),.clock (.read 0 false),.clock .flip,.clock .flip,.clock .flip,.enter 0,
    .sync 0 (.go false 0),.sync 0 (.go false 0),.clock .flip,.clock (.tick 7000),
    .sync 0 (.wake true),.sync 0 (.go true 0)]

theorem timedOut_reached_seven : ∃ s : State,
    s.returns = [⟨60,some ⟨1001012000,1000000000,1005000,1005000,1⟩,34338334⟩] ∧
      ∀ r ∈ s.returns, r.code = 60 → r.Reached := by
  have hrun : ((Transition.exec (Transition.guarded (next .fixedStep) (Steady .fixedStep)) (start 0)
      aFlippedWait).map State.returns) =
        some [⟨60,some ⟨1001012000,1000000000,1005000,1005000,1⟩,34338334⟩] := by decide +kernel
  obtain ⟨s,hexec,hreturns⟩ := Option.map_eq_some_iff.mp hrun
  exact ⟨s,hreturns,timedOut_reached (.exec (.start ⟨0,rfl⟩) hexec)⟩

/-- Before the first flip a second of the host's time is a frame on the guest's clock. -/
theorem not_timedOut_reached : ¬∀ (mode : Mode) (s : State),
    Reach (next mode) (fun s => ∃ hostNs, s = start hostNs) (fun _ _ => True) s →
      ∀ r ∈ s.returns, r.code = 60 → r.Reached := by
  intro hall
  have hrun : ((Transition.exec (Transition.guarded (next .realtime) fun _ _ => True) (start 0)
      (aWait (.fields 2 1005000) 1000000000)).map State.returns) =
        some [⟨60,some ⟨2001005000,1000000000,1005000,1005000,0⟩,17671667⟩] := by decide +kernel
  obtain ⟨s,hexec,hreturns⟩ := Option.map_eq_some_iff.mp hrun
  obtain ⟨w,hw,hle⟩ := hall .realtime s (.exec (.start ⟨0,rfl⟩) hexec)
    ⟨60,some ⟨2001005000,1000000000,1005000,1005000,0⟩,17671667⟩ (by simp [hreturns]) rfl
  cases hw
  exact absurd hle (by decide)

end Unemups4.Kernel.TimedWait

import Unemups4.Transition

/-! The end of a guest thread against the joins and detaches of other threads: the thread runs
its destructors, publishes its value and leaves the table if it is detached by then. -/
namespace Unemups4.Kernel
open Transition (Reach)

/-- Where the thread is on its way out. -/
inductive ExitPc where
  | running
  | collecting (round : ℕ)
  | calling (round : ℕ) (toRun : List (ℕ × ℕ)) (didWork : Bool)
  | locking
  | storing
  | marking
  | unlocking
  | notifying
  | checking
  | removing
  | gone
  deriving DecidableEq, Repr

/-- Where another thread is in a join or a detach. -/
inductive CallerPc where
  | idle
  | joinFind
  | joinTest
  | joinLock
  | joinLoop
  | joinWaiting
  | joinLoad
  | joinTake (value : ℕ)
  | joinHost (value : ℕ)
  | joined (value : ℕ)
  | detachFind
  | detachStore
  | detachHandle
  | detached
  | failed (code : ℕ)
  deriving DecidableEq, Repr

/-- The thread, its entry in the table and the callers; `taken` and `ran` are the destructors
that were due and the ones called, and `quiet` that the last of the rounds found none due. -/
structure ThreadState where
  inTable : Bool
  exited : Bool
  exitValue : ℕ
  detached : Bool
  hostThread : Bool
  exitMu : Option (Option ℕ)
  slots : List ℕ
  realExitValue : Option ℕ
  pc : ExitPc
  caller : ℕ → CallerPc
  taken : List (ℕ × ℕ)
  ran : List (ℕ × ℕ)
  rounds : ℕ
  quiet : Bool
  detachReturned : Bool

/-- The guest code of the thread ends with a value and leaves its slots as it likes, as does
each destructor; the keys are those of the process at the time. -/
inductive ThreadAct where
  | publish
  | finish (value : ℕ) (slots : List ℕ)
  | collect (max : ℕ) (dtor : ℕ → Option ℕ)
  | call (slots : List ℕ)
  | exit
  | join (t : ℕ)
  | detach (t : ℕ)
  | caller (t : ℕ)

namespace ThreadState

def dtorIters : ℕ := 4

/-- The destructor due for a key. -/
def due (slots : List ℕ) (dtor : ℕ → Option ℕ) (key : ℕ) : Option (ℕ × ℕ) :=
  if slots.getD key 0 = 0 then none else (dtor key).map fun d => (d,slots.getD key 0)

/-- The slots after a round took what was due. -/
def cleared (slots : List ℕ) (max : ℕ) (dtor : ℕ → Option ℕ) : List ℕ :=
  (List.range (slots.length.max max)).map fun key =>
    if key < max ∧ (due slots dtor key).isSome then 0 else slots.getD key 0

variable (s : ThreadState)

def goto (t : ℕ) (pc : CallerPc) : ThreadState := { s with caller := Function.update s.caller t pc }

/-- The end of a round. -/
def nextRound (round : ℕ) (didWork : Bool) : ExitPc :=
  if didWork ∧ round+1 < dtorIters then .collecting (round+1) else .locking

def exitStep : Option ThreadState :=
  match s.pc with
  | .calling round [] didWork => some { s with pc := nextRound round didWork }
  | .locking => if s.exitMu = none then some { s with exitMu := some none, pc := .storing } else none
  | .storing => some { s with exitValue := s.realExitValue.getD 0, pc := .marking }
  | .marking => some { s with exited := true, pc := .unlocking }
  | .unlocking => some { s with exitMu := none, pc := .notifying }
  | .notifying => some { s with pc := .checking }
  | .checking => some { s with pc := if s.detached then .removing else .gone }
  | .removing => some { s with inTable := false, pc := .gone }
  | _ => none

/-- A waiter may be woken at any time; it looks at the flag again under the lock. -/
def callerStep (t : ℕ) : Option ThreadState :=
  match s.caller t with
  | .joinFind => some (s.goto t (if s.inTable then .joinTest else .failed 0x80020002))
  | .joinTest => some (s.goto t (if s.exited then .joinLoad else .joinLock))
  | .joinLock =>
      if s.exitMu = none then some { s.goto t .joinLoop with exitMu := some (some t) } else none
  | .joinLoop =>
      some { s.goto t (if s.exited then .joinLoad else .joinWaiting) with exitMu := none }
  | .joinWaiting => some (s.goto t .joinLock)
  | .joinLoad => some (s.goto t (.joinTake s.exitValue))
  | .joinTake value =>
      some { s.goto t (if s.hostThread then .joinHost value else .joined value) with
        hostThread := false }
  | .joinHost value => if s.pc = .gone then some (s.goto t (.joined value)) else none
  | .detachFind =>
      some { s.goto t (if s.inTable then .detachStore else .failed 3) with
        detachReturned := s.detachReturned || !s.inTable }
  | .detachStore => some { s.goto t .detachHandle with detached := true }
  | .detachHandle =>
      some { s.goto t .detached with hostThread := false, detachReturned := true }
  | _ => none

/-- No call of the thread is under way. -/
def Between (t : ℕ) : Prop :=
  match s.caller t with
  | .idle | .joined _ | .detached | .failed _ => True
  | _ => False

instance (t : ℕ) : Decidable (s.Between t) :=
  match h : s.caller t with
  | .idle | .joined _ | .detached | .failed _ => .isTrue (by simp [Between, h])
  | .joinFind | .joinTest | .joinLock | .joinLoop | .joinWaiting | .joinLoad | .joinTake _
  | .joinHost _ | .detachFind | .detachStore | .detachHandle => .isFalse (by simp [Between, h])

def step : ThreadAct → Option ThreadState
  | .publish => some { s with hostThread := true }
  | .finish value slots =>
      if s.pc = .running then
        some { s with realExitValue := some value, slots := slots, pc := .collecting 0 }
      else none
  | .collect max dtor =>
      match s.pc with
      | .collecting round =>
          let toRun := (List.range max).filterMap (due s.slots dtor)
          some { s with
            slots := cleared s.slots max dtor
            taken := s.taken ++ toRun
            rounds := s.rounds+1
            quiet := toRun.isEmpty
            pc := .calling round toRun false }
      | _ => none
  | .call slots =>
      match s.pc with
      | .calling round (d :: toRun) _ =>
          some { s with slots := slots, ran := s.ran ++ [d], pc := .calling round toRun true }
      | _ => none
  | .exit => s.exitStep
  | .join t => if s.Between t then some (s.goto t .joinFind) else none
  | .detach t => if s.Between t then some (s.goto t .detachFind) else none
  | .caller t => s.callerStep t

/-- The thread runs and stands in the table. -/
def start : ThreadState where
  inTable := true
  exited := false
  exitValue := 0
  detached := false
  hostThread := false
  exitMu := none
  slots := []
  realExitValue := none
  pc := .running
  caller _ := .idle
  taken := []
  ran := []
  rounds := 0
  quiet := false
  detachReturned := false

def Initial (s : ThreadState) : Prop := s = start

/-- Every destructor that was due has been called, and none was due any more or the rounds
were spent. -/
def DestructorsRan : Prop := s.ran = s.taken ∧ (s.quiet ∨ s.rounds = dtorIters)

/-- A join returns the value the thread exited with, after its destructors; a thread that has
gone and was detached is not in the table. -/
structure Agrees : Prop where
  joined : ∀ t value, s.caller t = .joined value → s.realExitValue = some value ∧ s.DestructorsRan
  detached : s.pc = .gone → s.detachReturned → s.inTable = false

/-- No detach marks a thread that looked, found itself not detached and has gone. -/
def Timely (s : ThreadState) : ThreadAct → Prop
  | .caller t => s.caller t = .detachStore → s.pc = .gone → s.detached = true
  | _ => True

instance (act : ThreadAct) : Decidable (s.Timely act) :=
  match act with
  | .caller t => inferInstanceAs (Decidable (s.caller t = .detachStore → _))
  | .publish | .finish _ _ | .collect _ _ | .call _ | .exit | .join _ | .detach _ => .isTrue trivial

end ThreadState

namespace ExitPc

/-- How far the thread is on its way out. -/
def stage : ExitPc → ℕ
  | running => 0
  | collecting _ | calling _ _ _ => 1
  | locking => 2
  | storing => 3
  | marking => 4
  | unlocking => 5
  | notifying => 6
  | checking => 7
  | removing => 8
  | gone => 9

end ExitPc

/-- The steps of the thread itself. -/
def ThreadAct.own : ThreadAct → Bool
  | .finish _ _ | .collect _ _ | .call _ | .exit => true
  | _ => false

namespace CallerPc

/-- The value a join has read. -/
def value : CallerPc → Option ℕ
  | joinTake value | joinHost value | joined value => some value
  | _ => none

end CallerPc

namespace ThreadState

variable {s s' : ThreadState} {act : ThreadAct}

/-- The destructors due and called, by where the thread is. -/
def Rounds (s : ThreadState) : Prop :=
  match s.pc with
  | .running => s.ran = s.taken ∧ s.rounds = 0
  | .collecting round => s.ran = s.taken ∧ s.rounds = round ∧ round < dtorIters
  | .calling round toRun didWork => s.taken = s.ran ++ toRun ∧ s.rounds = round+1 ∧
      round < dtorIters ∧ s.quiet = (toRun.isEmpty && !didWork)
  | _ => s.DestructorsRan

/-- What the exit of the thread reads and writes is the same. -/
structure SameExit (s s' : ThreadState) : Prop where
  pc : s'.pc = s.pc
  ran : s'.ran = s.ran
  taken : s'.taken = s.taken
  rounds : s'.rounds = s.rounds
  quiet : s'.quiet = s.quiet
  exited : s'.exited = s.exited
  exitValue : s'.exitValue = s.exitValue
  realExitValue : s'.realExitValue = s.realExitValue
  inTable : s'.inTable = s.inTable

lemma sameExit_goto (t : ℕ) (pc : CallerPc) : SameExit s (s.goto t pc) :=
  ⟨rfl,rfl,rfl,rfl,rfl,rfl,rfl,rfl,rfl⟩

lemma sameExit_callerStep {t : ℕ} (h : s.callerStep t = some s') : SameExit s s' := by
  revert h
  fun_cases callerStep s t <;> intro h <;> cases h <;>
    exact ⟨rfl,rfl,rfl,rfl,rfl,rfl,rfl,rfl,rfl⟩

lemma sameExit_step (hact : act.own = false) (h : s.step act = some s') : SameExit s s' := by
  cases act with
  | finish | collect | call | exit => cases hact
  | publish => cases h; exact ⟨rfl,rfl,rfl,rfl,rfl,rfl,rfl,rfl,rfl⟩
  | join t | detach t =>
    simp only [step, Option.ite_none_right_eq_some] at h
    obtain ⟨-,h⟩ := h
    cases h
    exact sameExit_goto _ _
  | caller t => exact sameExit_callerStep h

lemma rounds_congr (hs : SameExit s s') (hr : s.Rounds) : s'.Rounds := by
  simpa only [Rounds, DestructorsRan, hs.pc, hs.ran, hs.taken, hs.rounds, hs.quiet] using hr

lemma rounds_exitStep (hr : s.Rounds) (h : s.exitStep = some s') : s'.Rounds := by
  revert h
  fun_cases exitStep s <;> intro h <;> cases h
  case case1 round didWork hpc =>
    simp only [Rounds, hpc, List.append_nil, List.isEmpty_nil, Bool.true_and] at hr
    obtain ⟨hran,hrounds,hlt,hquiet⟩ := hr
    unfold nextRound
    split_ifs with hmore
    · exact ⟨hran.symm,hrounds,hmore.2⟩
    · refine ⟨hran.symm,?_⟩
      cases didWork with
      | false => exact .inl hquiet
      | true =>
        simp only [true_and, not_lt] at hmore
        exact .inr (hrounds.trans (le_antisymm hlt hmore))
  case case8 hpc =>
    simp only [Rounds, hpc] at hr
    split_ifs <;> exact hr
  all_goals
    simp only [Rounds, *] at hr
    exact hr

lemma rounds_step (hr : s.Rounds) (h : s.step act = some s') : s'.Rounds := by
  cases hown : act.own with
  | false => exact rounds_congr (sameExit_step hown h) hr
  | true =>
    revert h
    fun_cases step s act <;> intro h
    case case2 value slots hpc =>
      cases h
      simp only [Rounds, hpc] at hr
      exact ⟨hr.1,hr.2,by decide⟩
    case case4 max dtor round hpc toRun =>
      cases h
      simp only [Rounds, hpc] at hr
      obtain ⟨hran,hrounds,hlt⟩ := hr
      exact ⟨by rw [hran],by rw [hrounds],hlt,by simp⟩
    case case6 round d toRun _ hpc =>
      cases h
      simp only [Rounds, hpc] at hr
      obtain ⟨htaken,hrounds,hlt,hquiet⟩ := hr
      exact ⟨by simp [htaken],hrounds,hlt,by simp [hquiet]⟩
    case case8 => exact rounds_exitStep hr h
    all_goals first
      | exact absurd hown Bool.false_ne_true
      | cases h

/-- The value on its way to the entry. -/
structure Stored (s : ThreadState) : Prop where
  ended : 1 ≤ s.pc.stage → s.realExitValue.isSome
  stored : 4 ≤ s.pc.stage → s.realExitValue = some s.exitValue
  flagged : s.exited = true ↔ 5 ≤ s.pc.stage

lemma Stored.not_exited {pc : ExitPc} (hv : s.Stored) (hpc : s.pc = pc) (hlt : pc.stage < 5) :
    s.exited = false := by
  rw [Bool.eq_false_iff, ne_eq, hv.flagged, hpc, not_le]
  exact hlt

lemma stored_congr (hs : SameExit s s') (hv : s.Stored) : s'.Stored := by
  obtain ⟨hended,hstored,hflagged⟩ := hv
  constructor <;> simpa only [hs.pc, hs.exited, hs.exitValue, hs.realExitValue]

lemma stage_nextRound (round : ℕ) (didWork : Bool) : (nextRound round didWork).stage ≤ 2 := by
  unfold nextRound
  split_ifs <;> simp [ExitPc.stage]

/-- Before the value is stored. -/
lemma Stored.before {pc : ExitPc} (hv : s.Stored) (hpc : s.pc = pc) (hlt : pc.stage < 5)
    (hexited : s'.exited = s.exited) (hended : s'.realExitValue.isSome)
    (hstage : s'.pc.stage < 4) : s'.Stored := by
  refine ⟨fun _ => hended,fun hle => absurd hstage (not_lt.mpr hle),?_⟩
  rw [hexited, hv.not_exited hpc hlt]
  simp only [Bool.false_eq_true, false_iff, not_le]
  omega

/-- Once the flag is set. -/
lemma Stored.after (hv : s.Stored) (hpc : 5 ≤ s.pc.stage) (hstage : 5 ≤ s'.pc.stage)
    (hexited : s'.exited = s.exited) (hvalue : s'.exitValue = s.exitValue)
    (hreal : s'.realExitValue = s.realExitValue) : s'.Stored := by
  refine ⟨fun _ => ?_,fun _ => ?_,?_⟩
  · rw [hreal]
    exact hv.ended (by omega)
  · rw [hreal, hvalue]
    exact hv.stored (by omega)
  · simp only [hexited, hv.flagged.mpr hpc, hstage]

lemma stored_exitStep (hv : s.Stored) (h : s.exitStep = some s') : s'.Stored := by
  revert h
  fun_cases exitStep s <;> intro h <;> cases h
  case case1 round didWork hpc =>
    have hstage := stage_nextRound round didWork
    exact hv.before hpc (by simp [ExitPc.stage]) rfl (hv.ended (by simp [hpc, ExitPc.stage]))
      (by simp only; omega)
  case case2 hpc _ =>
    exact hv.before hpc (by decide) rfl (hv.ended (by simp [hpc, ExitPc.stage]))
      (by simp [ExitPc.stage])
  case case4 hpc =>
    have hended := hv.ended (by simp [hpc, ExitPc.stage])
    obtain ⟨value,hvalue⟩ := Option.isSome_iff_exists.mp hended
    refine ⟨fun _ => hended,fun _ => by simp [hvalue],?_⟩
    simp [hv.not_exited hpc (by decide), ExitPc.stage]
  case case5 hpc =>
    have hended := hv.ended (by simp [hpc, ExitPc.stage])
    have hstored := hv.stored (by simp [hpc, ExitPc.stage])
    exact ⟨fun _ => hended,fun _ => hstored,by simp [ExitPc.stage]⟩
  case case8 hpc =>
    refine hv.after (by simp [hpc, ExitPc.stage]) ?_ rfl rfl rfl
    split_ifs <;> simp [ExitPc.stage]
  all_goals exact hv.after (by simp [*, ExitPc.stage]) (by simp [ExitPc.stage]) rfl rfl rfl

lemma stored_step (hv : s.Stored) (h : s.step act = some s') : s'.Stored := by
  cases hown : act.own with
  | false => exact stored_congr (sameExit_step hown h) hv
  | true =>
    revert h
    fun_cases step s act <;> intro h
    case case2 hpc =>
      cases h
      exact hv.before hpc (by decide) rfl rfl (by simp [ExitPc.stage])
    case case4 hpc _ =>
      cases h
      exact hv.before hpc (by simp [ExitPc.stage]) rfl (hv.ended (by simp [hpc, ExitPc.stage]))
        (by simp [ExitPc.stage])
    case case6 hpc =>
      cases h
      exact hv.before hpc (by simp [ExitPc.stage]) rfl (hv.ended (by simp [hpc, ExitPc.stage]))
        (by simp [ExitPc.stage])
    case case8 => exact stored_exitStep hv h
    all_goals first
      | exact absurd hown Bool.false_ne_true
      | cases h

/-- What the joins have read. -/
structure Seen (s : ThreadState) : Prop where
  loading : ∀ t, s.caller t = .joinLoad → s.exited = true
  read : ∀ t value, (s.caller t).value = some value → s.exited = true ∧ value = s.exitValue

/-- A step of the thread itself leaves the callers, and the value once it is out. -/
structure Keeps (s s' : ThreadState) : Prop where
  caller : s'.caller = s.caller
  detached : s'.detached = s.detached
  detachReturned : s'.detachReturned = s.detachReturned
  exited : s.exited = true → s'.exited = true ∧ s'.exitValue = s.exitValue

lemma keeps_exitStep (hv : s.Stored) (h : s.exitStep = some s') : Keeps s s' := by
  revert h
  fun_cases exitStep s <;> intro h <;> cases h
  case case4 hpc =>
    have hflagged : s.exited = false := hv.not_exited hpc (by simp [ExitPc.stage])
    exact ⟨rfl,rfl,rfl,by simp [hflagged]⟩
  case case5 => exact ⟨rfl,rfl,rfl,fun _ => ⟨rfl,rfl⟩⟩
  all_goals exact ⟨rfl,rfl,rfl,fun hexited => ⟨hexited,rfl⟩⟩

lemma keeps_step (hv : s.Stored) (hown : act.own = true) (h : s.step act = some s') :
    Keeps s s' := by
  revert h
  fun_cases step s act <;> intro h
  case case8 => exact keeps_exitStep hv h
  all_goals first
    | exact absurd hown Bool.false_ne_true
    | cases h
  all_goals exact ⟨rfl,rfl,rfl,fun hexited => ⟨hexited,rfl⟩⟩

lemma seen_keeps (hk : Keeps s s') (hs : s.Seen) : s'.Seen := by
  constructor
  · intro t hpc
    rw [hk.caller] at hpc
    exact (hk.exited (hs.loading t hpc)).1
  · intro t value hread
    rw [hk.caller] at hread
    obtain ⟨hexited,rfl⟩ := hs.read t value hread
    obtain ⟨hexited',hvalue⟩ := hk.exited hexited
    exact ⟨hexited',hvalue.symm⟩

/-- A caller moves to where it may be by what it has seen. -/
lemma Seen.move {t : ℕ} {pc : CallerPc} (hs : s.Seen) (hexited : s'.exited = s.exited)
    (hvalue : s'.exitValue = s.exitValue) (hcaller : s'.caller = Function.update s.caller t pc)
    (hload : pc = .joinLoad → s.exited = true)
    (hread : ∀ value, pc.value = some value → s.exited = true ∧ value = s.exitValue) :
    s'.Seen := by
  constructor
  · rw [hexited, hcaller]
    exact (Function.forall_update_iff s.caller fun _ pc => pc = .joinLoad → s.exited = true).mpr
      ⟨hload,fun u _ => hs.loading u⟩
  · rw [hexited, hvalue, hcaller]
    exact (Function.forall_update_iff s.caller fun _ pc =>
      ∀ value, pc.value = some value → s.exited = true ∧ value = s.exitValue).mpr
      ⟨hread,fun u _ => hs.read u⟩

lemma seen_callerStep {t : ℕ} (hs : s.Seen) (h : s.callerStep t = some s') : s'.Seen := by
  revert h
  fun_cases callerStep s t <;> intro h <;> cases h
  case case1 | case2 | case5 =>
    refine hs.move rfl rfl rfl ?_ ?_
    all_goals split_ifs <;> simp_all [CallerPc.value]
  case case7 hpc =>
    refine hs.move rfl rfl rfl (by simp) fun value hvalue => ?_
    obtain rfl : s.exitValue = value := by simpa [CallerPc.value] using hvalue
    exact ⟨hs.loading t hpc,rfl⟩
  case case8 value hpc =>
    refine hs.move rfl rfl rfl (by split_ifs <;> simp) fun value' hvalue => ?_
    refine hs.read t value' ?_
    split_ifs at hvalue <;> simpa [hpc, CallerPc.value] using hvalue
  case case9 value hpc _ =>
    refine hs.move rfl rfl rfl (by simp) fun value' hvalue => ?_
    exact hs.read t value' (by simpa [hpc, CallerPc.value] using hvalue)
  case case11 =>
    refine hs.move rfl rfl rfl ?_ ?_
    all_goals split_ifs <;> simp [CallerPc.value]
  all_goals exact hs.move rfl rfl rfl (by simp) (by simp [CallerPc.value])

lemma seen_step (hv : s.Stored) (hs : s.Seen) (h : s.step act = some s') : s'.Seen := by
  cases hown : act.own with
  | true => exact seen_keeps (keeps_step hv hown h) hs
  | false =>
    cases act with
    | finish | collect | call | exit => cases hown
    | publish => cases h; exact ⟨hs.loading,hs.read⟩
    | join t | detach t =>
      simp only [step, Option.ite_none_right_eq_some] at h
      obtain ⟨-,h⟩ := h
      cases h
      exact hs.move rfl rfl rfl (by simp) (by simp [CallerPc.value])
    | caller t => exact seen_callerStep hs h

/-- A detached thread on its way out of the table. -/
structure Leaving (s : ThreadState) : Prop where
  marked : ∀ t, s.caller t = .detachHandle → s.detached = true
  returned : s.detachReturned = true → s.detached = true ∨ s.inTable = false
  removed : s.pc = .gone → s.detached = true → s.inTable = false

lemma inTable_exitStep (hout : s.inTable = false) (h : s.exitStep = some s') :
    s'.inTable = false := by
  revert h
  fun_cases exitStep s <;> intro h <;> cases h
  all_goals first | exact hout | rfl

lemma inTable_step (hout : s.inTable = false) (h : s.step act = some s') : s'.inTable = false := by
  cases hown : act.own with
  | false => rw [(sameExit_step hown h).inTable, hout]
  | true =>
    revert h
    fun_cases step s act <;> intro h
    case case8 => exact inTable_exitStep hout h
    all_goals first
      | exact absurd hown Bool.false_ne_true
      | cases h
    all_goals exact hout

/-- The thread goes after it found itself not detached, or left the table. -/
lemma gone_step (hown : act.own = true) (h : s.step act = some s') (hgone : s'.pc = .gone) :
    s.detached = false ∨ s'.inTable = false := by
  revert h
  fun_cases step s act <;> intro h
  case case8 =>
    revert h
    fun_cases exitStep s <;> intro h <;> cases h
    case case1 round didWork _ =>
      have hstage := stage_nextRound round didWork
      rw [show nextRound round didWork = .gone from hgone] at hstage
      exact absurd hstage (by decide)
    case case8 =>
      simp only at hgone
      split_ifs at hgone with hdetached
      exact .inl (by simpa using hdetached)
    case case9 => exact .inr rfl
    all_goals cases hgone
  all_goals first
    | exact absurd hown Bool.false_ne_true
    | cases h
  all_goals cases hgone

lemma leaving_own (hv : s.Stored) (hl : s.Leaving) (hown : act.own = true)
    (h : s.step act = some s') : s'.Leaving := by
  have hk := keeps_step hv hown h
  constructor
  · intro t hpc
    rw [hk.caller] at hpc
    rw [hk.detached]
    exact hl.marked t hpc
  · intro hreturned
    rw [hk.detachReturned] at hreturned
    rw [hk.detached]
    exact (hl.returned hreturned).imp_right fun hout => inTable_step hout h
  · intro hgone hdetached
    rw [hk.detached] at hdetached
    rcases gone_step hown h hgone with hnot | hout
    · rw [hdetached] at hnot
      cases hnot
    · exact hout

/-- A caller moves on without a mark. -/
lemma Leaving.move {t : ℕ} {pc : CallerPc} (hl : s.Leaving) (hs : SameExit s s')
    (hcaller : s'.caller = Function.update s.caller t pc) (hpc : pc ≠ .detachHandle)
    (hdetached : s'.detached = s.detached)
    (hreturned : s'.detachReturned = true → s.detached = true ∨ s.inTable = false) :
    s'.Leaving := by
  constructor
  · rw [hdetached, hcaller]
    exact (Function.forall_update_iff s.caller fun _ pc =>
      pc = .detachHandle → s.detached = true).mpr
      ⟨fun heq => absurd heq hpc,fun u _ => hl.marked u⟩
  · rw [hdetached, hs.inTable]
    exact hreturned
  · rw [hs.pc, hdetached, hs.inTable]
    exact hl.removed

lemma leaving_callerStep {t : ℕ} (hl : s.Leaving) (hok : s.Timely (.caller t))
    (h : s.callerStep t = some s') : s'.Leaving := by
  have hsame := sameExit_callerStep h
  revert h
  fun_cases callerStep s t <;> intro h <;> cases h
  case case11 =>
    refine hl.move hsame rfl (by split_ifs <;> simp) rfl fun hreturned => ?_
    rcases Bool.or_eq_true _ _ ▸ hreturned with hbefore | hout
    · exact hl.returned hbefore
    · exact .inr (by simpa using hout)
  case case12 hpc =>
    exact ⟨fun _ _ => rfl,fun _ => .inl rfl,fun hgone _ => hl.removed hgone (hok hpc hgone)⟩
  case case13 hpc =>
    exact hl.move hsame rfl (by simp) rfl fun _ => .inl (hl.marked t hpc)
  case case1 | case2 | case5 | case8 =>
    exact hl.move hsame rfl (by split_ifs <;> simp) rfl hl.returned
  all_goals exact hl.move hsame rfl (by simp) rfl hl.returned

lemma leaving_step (hv : s.Stored) (hl : s.Leaving) (hok : s.Timely act)
    (h : s.step act = some s') : s'.Leaving := by
  cases hown : act.own with
  | true => exact leaving_own hv hl hown h
  | false =>
    cases act with
    | finish | collect | call | exit => cases hown
    | publish => cases h; exact ⟨hl.marked,hl.returned,hl.removed⟩
    | join t | detach t =>
      simp only [step, Option.ite_none_right_eq_some] at h
      obtain ⟨-,h⟩ := h
      cases h
      exact hl.move (sameExit_goto _ _) rfl (by simp) rfl hl.returned
    | caller t => exact leaving_callerStep hl hok h

lemma reach_rounds {ok : ThreadState → ThreadAct → Prop} (hs : Reach step Initial ok s) :
    s.Rounds :=
  hs.invariant (by rintro s rfl; exact ⟨rfl,rfl⟩) fun _ _ _ hr _ h => rounds_step hr h

lemma reach_stored {ok : ThreadState → ThreadAct → Prop} (hs : Reach step Initial ok s) :
    s.Stored :=
  hs.invariant (by rintro s rfl; constructor <;> simp [start, ExitPc.stage])
    fun _ _ _ hv _ h => stored_step hv h

lemma reach_seen {ok : ThreadState → ThreadAct → Prop} (hs : Reach step Initial ok s) : s.Seen :=
  hs.invariant_of (fun _ => reach_stored)
    (by rintro s rfl; constructor <;> simp [start, CallerPc.value])
    fun _ _ _ hv hseen _ h => seen_step hv hseen h

lemma reach_leaving (hs : Reach step Initial Timely s) : s.Leaving :=
  hs.invariant_of (fun _ => reach_stored) (by rintro s rfl; constructor <;> simp [start])
    fun _ _ _ hv hl hok h => leaving_step hv hl hok h

lemma destructorsRan_of_exited (hr : s.Rounds) (hv : s.Stored) (hexited : s.exited = true) :
    s.DestructorsRan := by
  have hstage := hv.flagged.mp hexited
  cases hpc : s.pc <;> simp only [hpc, ExitPc.stage] at hstage
  case running | collecting | calling | locking | storing | marking => omega
  all_goals
    simp only [Rounds, hpc] at hr
    exact hr

/-- A join returns the value the thread exited with, after its destructors. -/
theorem joined_value {ok : ThreadState → ThreadAct → Prop} (hs : Reach step Initial ok s) {t value : ℕ}
    (hjoined : s.caller t = .joined value) : s.realExitValue = some value ∧ s.DestructorsRan := by
  have hv := reach_stored hs
  obtain ⟨hexited,rfl⟩ := (reach_seen hs).read t value (by rw [hjoined]; rfl)
  have hstage := hv.flagged.mp hexited
  exact ⟨hv.stored (by omega),destructorsRan_of_exited (reach_rounds hs) hv hexited⟩

/-- Joins return what the thread exited with, and no detached thread stays in the table, as long
as no detach marks a thread that is past its last look. -/
theorem timely_agrees (hs : Reach step Initial Timely s) : s.Agrees := by
  have hl := reach_leaving hs
  refine ⟨fun t value hjoined => joined_value hs hjoined,fun hgone hreturned => ?_⟩
  rcases hl.returned hreturned with hdetached | hout
  · exact hl.removed hgone hdetached
  · exact hout

/-- A thread with a destructor to run, detached before it ends, and a join that found it. -/
theorem timely_agrees_detached : ∃ s, Reach step Initial Timely s ∧ s.Agrees ∧ s.pc = .gone ∧
    s.inTable = false ∧ s.caller 1 = .joined 7 ∧ s.ran = [(0x400000,5)] := by
  have hrun : ((Transition.exec (Transition.guarded step Timely) start [.publish, .join 1, .caller 1,
      .detach 2, .caller 2, .caller 2, .caller 2, .finish 7 [5],
      .collect 1 fun _ => some 0x400000, .call [0], .exit, .collect 1 fun _ => some 0x400000,
      .exit, .exit, .exit, .exit, .exit, .exit, .exit, .exit,
      .caller 1, .caller 1, .caller 1]).map fun s => decide (s.pc = .gone ∧ s.inTable = false ∧
        s.caller 1 = .joined 7 ∧ s.ran = [(0x400000,5)])) = some true := by
    decide +kernel
  obtain ⟨s,hexec,hend⟩ := Option.map_eq_some_iff.mp hrun
  have hreach : Reach step Initial Timely s :=
    Reach.exec (.start rfl) hexec
  exact ⟨s,hreach,timely_agrees hreach,of_decide_eq_true hend⟩

/-- A thread detached after it has gone stays in the table. -/
theorem not_agrees_gone : ¬∀ s, Reach step Initial (fun _ _ => True) s → s.Agrees := by
  intro hall
  have hrun : ((Transition.exec (Transition.guarded step fun _ _ => True) start
      [.publish, .finish 7 [], .collect 0 fun _ => none, .exit, .exit, .exit, .exit, .exit, .exit,
        .exit, .detach 2, .caller 2, .caller 2, .caller 2]).map fun s => decide (s.pc = .gone ∧
        s.detachReturned = true ∧ s.inTable = true)) = some true := by
    decide +kernel
  obtain ⟨s,hexec,hend⟩ := Option.map_eq_some_iff.mp hrun
  obtain ⟨hgone,hreturned,hin⟩ := of_decide_eq_true hend
  have hreach : Reach step Initial (fun _ _ => True) s := Reach.exec (.start rfl) hexec
  rw [(hall s hreach).detached hgone hreturned] at hin
  cases hin

end ThreadState

end Unemups4.Kernel

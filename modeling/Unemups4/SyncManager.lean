import Unemups4.Transition

/-! The kernel's mutexes and condition variables. Threads take turns by critical sections: a
step awaits one internal lock and runs until it has released it or awaits the next. -/
namespace Unemups4.Kernel

abbrev Tid := ℕ

abbrev GuestAddr := ℕ

abbrev MutexId := ℕ

abbrev CondId := ℕ

inductive MutexType where
  | normal
  | errorCheck
  | recursive
  deriving DecidableEq, Repr

structure HostMutexState where
  owner : Option Tid
  locks : BitVec 32
  mtype : MutexType
  deriving DecidableEq, Repr

/-- The calls that lock or unlock a mutex. -/
inductive MutexCall where
  | lock
  | trylock
  | timedlock
  | unlock
  deriving DecidableEq, Repr

namespace HostMutexState

def new (mtype : MutexType) : HostMutexState := ⟨none,0,mtype⟩

variable (st : HostMutexState) (tid : Tid)

/-- A pass of the loop of `mutex_lock`: the code returned, none to wait for the holder. -/
def lockPass : HostMutexState × Option ℕ :=
  match st.owner with
  | none => ({ st with owner := some tid, locks := 1 },some 0)
  | some owner =>
      if owner = tid then
        match st.mtype with
        | .errorCheck => (st,some 11)
        | .recursive | .normal => ({ st with locks := st.locks+1 },some 0)
      else (st,none)

/-- A wait that timed out ends the call even if the mutex is free by then; the deadline is
looked at again only where the mutex is held by another. -/
def timedlockPass (expired late : Bool) : HostMutexState × Option ℕ :=
  if expired then (st,some 60)
  else if (st.lockPass tid).2 = none ∧ late then (st,some 60)
  else st.lockPass tid

def trylockPass : HostMutexState × Option ℕ :=
  match st.owner with
  | none => ({ st with owner := some tid, locks := 1 },some 0)
  | some owner =>
      if owner = tid ∧ st.mtype = .recursive then ({ st with locks := st.locks+1 },some 0)
      else (st,some 16)

def unlockPass : HostMutexState × Option ℕ :=
  match st.owner with
  | none => (st,some 1)
  | some owner =>
      if owner ≠ tid then (st,some 1)
      else
        ({ st with
            locks := st.locks-1
            owner := if st.locks-1 = 0 then none else some owner },some 0)

/-- What a call does once the state is locked. -/
def pass (call : MutexCall) (expired late : Bool) : HostMutexState × Option ℕ :=
  match call with
  | .lock => st.lockPass tid
  | .trylock => st.trylockPass tid
  | .timedlock => st.timedlockPass tid expired late
  | .unlock => st.unlockPass tid

/-- `mutex_init` on a known address: a mutex that is held is left alone. -/
def reset (mtype : MutexType) : HostMutexState × ℕ :=
  if st.owner.isSome ∨ 0 < st.locks.toNat then (st,16) else (new mtype,0)

/-- A condition wait gives the mutex up whatever its count. -/
def released : HostMutexState := { st with owner := none, locks := 0 }

end HostMutexState

/-- The internal locks. -/
inductive SyncLock where
  | mutexes
  | state (m : MutexId)
  | condvars
  | waitLock (c : CondId)
  | reportedStuck
  deriving DecidableEq, Repr

/-- A condition wait past its checks. Beside the count it saved stands the count the thread
had when it called. -/
structure Waiter where
  cond : CondId
  addr : GuestAddr
  mutex : MutexId
  timed : Bool
  saved : BitVec 32
  called : ℕ
  deriving DecidableEq, Repr

/-- Where a thread is in its call. -/
inductive Pc where
  | done (code : ℕ)
  | find (call : MutexCall) (addr : GuestAddr)
  | create (addr : GuestAddr)
  | enter (call : MutexCall) (addr : GuestAddr) (m : MutexId) (expired : Bool)
  | report (addr : GuestAddr) (m : MutexId)
  | parked (call : MutexCall) (addr : GuestAddr) (m : MutexId)
  | init (addr : GuestAddr) (mtype : MutexType)
  | reset (addr : GuestAddr) (m : MutexId) (mtype : MutexType)
  | destroy (addr : GuestAddr)
  | findCond (cond addr : GuestAddr) (timed : Bool) (called : ℕ)
  | findWait (c : CondId) (addr : GuestAddr) (timed : Bool) (called : ℕ)
  | enterWait (c : CondId) (addr : GuestAddr) (m : MutexId) (timed : Bool) (called : ℕ)
  | gate (w : Waiter)
  | released (w : Waiter)
  | asleep (w : Waiter) (code : ℕ)
  | relock (w : Waiter) (code : ℕ)
  | relockParked (w : Waiter) (code : ℕ)
  | findSignal (cond : GuestAddr) (all : Bool)
  | notify (c : CondId) (all : Bool)
  | initCond (cond : GuestAddr)
  | destroyCond (cond : GuestAddr)
  deriving DecidableEq, Repr

namespace Pc

/-- The internal lock a thread keeps from one step to the next. -/
def holds : Pc → Option SyncLock
  | report _ m => some (.state m)
  | reset _ _ _ => some .mutexes
  | gate w => some (.state w.mutex)
  | released w => some (.waitLock w.cond)
  | notify _ _ => some .condvars
  | _ => none

/-- The internal lock a thread needs for its next step. -/
def awaits : Pc → Option SyncLock
  | find _ _ | create _ | init _ _ | destroy _ | findWait _ _ _ _ => some .mutexes
  | enter call _ m _ => if call = .trylock then none else some (.state m)
  | report _ _ => some .reportedStuck
  | reset _ m _ => some (.state m)
  | findCond _ _ _ _ | findSignal _ _ | initCond _ | destroyCond _ => some .condvars
  | enterWait _ _ m _ _ => some (.state m)
  | gate w => some (.waitLock w.cond)
  | asleep w _ => some (.waitLock w.cond)
  | relock w _ => some (.state w.mutex)
  | notify c _ => some (.waitLock c)
  | done _ | parked _ _ _ | released _ | relockParked _ _ => none

end Pc

inductive SyncCall where
  | mutexInit (addr : GuestAddr) (mtype : MutexType)
  | mutexDestroy (addr : GuestAddr)
  | mutex (call : MutexCall) (addr : GuestAddr)
  | condInit (cond : GuestAddr)
  | condDestroy (cond : GuestAddr)
  | condWait (cond addr : GuestAddr) (timed : Bool)
  | condSignal (cond : GuestAddr) (all : Bool)
  deriving DecidableEq, Repr

/-- A thread starts a call, goes on with it, or is woken from a host condition. What the clock
says and whom a signal wakes is open. -/
inductive Act where
  | call (call : SyncCall)
  | go (late : Bool) (woken : Tid)
  | wake (timedOut : Bool)
  deriving DecidableEq, Repr

/-- The maps, the host objects and the threads. Of the host conditions only the one of a guest
condition keeps its blocked threads; from the condition of a mutex a thread may be woken at
any time. `held` counts each thread's acquisitions less its releases, and `sleeping` the
threads that have given up their mutex in a wait and were not woken since. -/
structure SyncManager where
  mutexes : GuestAddr → Option MutexId
  objects : MutexId → HostMutexState
  nextMutex : MutexId
  condvars : GuestAddr → Option CondId
  nextCond : CondId
  blocked : CondId → Finset Tid
  holders : SyncLock → Finset Tid
  pc : Tid → Pc
  held : Tid → GuestAddr → ℕ
  sleeping : Tid → Option CondId

namespace SyncManager

variable (s : SyncManager) (t : Tid)

/-- The count of a mutex the thread owns. -/
def count (addr : GuestAddr) : ℕ :=
  match s.mutexes addr with
  | none => 0
  | some m => if (s.objects m).owner = some t then (s.objects m).locks.toNat else 0

@[simps -fullyApplied]
def goto (pc : Pc) : SyncManager := { s with pc := Function.update s.pc t pc }

@[simps -fullyApplied]
def acquire (lock : SyncLock) : SyncManager :=
  { s with holders := Function.update s.holders lock (insert t (s.holders lock)) }

@[simps -fullyApplied]
def release (lock : SyncLock) : SyncManager :=
  { s with holders := Function.update s.holders lock ((s.holders lock).erase t) }

@[simps -fullyApplied]
def setObject (m : MutexId) (st : HostMutexState) : SyncManager :=
  { s with objects := Function.update s.objects m st }

@[simps -fullyApplied]
def setHeld (addr : GuestAddr) (n : ℕ) : SyncManager :=
  { s with held := Function.update s.held t (Function.update (s.held t) addr n) }

@[simps -fullyApplied]
def setBlocked (c : CondId) (threads : Finset Tid) : SyncManager :=
  { s with blocked := Function.update s.blocked c threads }

@[simps -fullyApplied]
def sleep (c : CondId) : SyncManager :=
  { s with sleeping := Function.update s.sleeping t (some c) }

/-- Threads of the blocked are woken. -/
@[simps -fullyApplied]
def rouse (c : CondId) (threads : Finset Tid) : SyncManager :=
  { s with
    blocked := Function.update s.blocked c (s.blocked c \ threads)
    sleeping := fun u => if u ∈ threads then none else s.sleeping u }

@[simps -fullyApplied]
def insertMutex (addr : GuestAddr) (mtype : MutexType) : SyncManager :=
  { s with
    mutexes := Function.update s.mutexes addr (some s.nextMutex)
    objects := Function.update s.objects s.nextMutex (.new mtype)
    nextMutex := s.nextMutex+1 }

@[simps -fullyApplied]
def insertCond (cond : GuestAddr) : SyncManager :=
  { s with
    condvars := Function.update s.condvars cond (some s.nextCond)
    nextCond := s.nextCond+1 }

/-- Where a call starts. -/
def entry : SyncCall → Pc
  | .mutexInit addr mtype => .init addr mtype
  | .mutexDestroy addr => .destroy addr
  | .mutex call addr => .find call addr
  | .condInit cond => .initCond cond
  | .condDestroy cond => .destroyCond cond
  | .condWait cond addr timed => .findCond cond addr timed (s.count t addr)
  | .condSignal cond all => .findSignal cond all

/-- A successful call counts in the balance of the thread. -/
def balance (call : MutexCall) (code held : ℕ) : ℕ :=
  if code ≠ 0 then held
  else match call with
    | .unlock => held-1
    | _ => held+1

/-- The end of a pass: the state is unlocked, and the call returns or waits for the holder. -/
def pass (call : MutexCall) (addr : GuestAddr) (m : MutexId) (expired late : Bool) : SyncManager :=
  let r := (s.objects m).pass t call expired late
  match r.2 with
  | some code =>
      ((s.setObject m r.1).setHeld t addr (balance call code (s.held t addr))).goto t (.done code)
  | none => (s.setObject m r.1).goto t (.parked call addr m)

@[simps -fullyApplied]
def removeMutex (addr : GuestAddr) : SyncManager :=
  { s with mutexes := Function.update s.mutexes addr none }

@[simps -fullyApplied]
def removeCond (cond : GuestAddr) : SyncManager :=
  { s with condvars := Function.update s.condvars cond none }

/-- The step of a thread that awaits no lock another holds. -/
def next (s : SyncManager) (t : Tid) (act : Act) : Option SyncManager :=
  match s.pc t, act with
  | .done _, .call call => some (s.goto t (s.entry t call))
  | .find call addr, .go _ _ =>
      if s.holders .mutexes ≠ ∅ then none
      else match s.mutexes addr with
        | some m => some (s.goto t (.enter call addr m false))
        | none => some (s.goto t (if call = .lock then .create addr else .done 22))
  | .create addr, .go _ _ =>
      if s.holders .mutexes ≠ ∅ then none
      else match s.mutexes addr with
        | some m => some (s.goto t (.enter .lock addr m false))
        | none =>
            some ((s.insertMutex addr .normal).goto t (.enter .lock addr s.nextMutex false))
  | .enter call addr m expired, .go late _ =>
      -- `try_lock` also fails against a critical section that is just passing
      if call = .trylock ∧ (late ∨ s.holders (.state m) ≠ ∅) then some (s.goto t (.done 16))
      else if s.holders (.state m) ≠ ∅ then none
      else if call = .lock ∧ expired ∧ (s.objects m).owner ≠ none ∧ (s.objects m).owner ≠ some t then
        some ((s.acquire t (.state m)).goto t (.report addr m))
      else some (s.pass t call addr m expired late)
  | .report addr m, .go late _ =>
      if s.holders .reportedStuck ≠ ∅ then none
      else some ((s.release t (.state m)).pass t .lock addr m false late)
  | .parked call addr m, .wake timedOut => some (s.goto t (.enter call addr m timedOut))
  | .init addr mtype, .go _ _ =>
      if s.holders .mutexes ≠ ∅ then none
      else match s.mutexes addr with
        | some m => some ((s.acquire t .mutexes).goto t (.reset addr m mtype))
        | none => some ((s.insertMutex addr mtype).goto t (.done 0))
  | .reset _ m mtype, .go _ _ =>
      if s.holders (.state m) ≠ ∅ then none
      else
        some (((s.setObject m ((s.objects m).reset mtype).1).release t .mutexes).goto t
          (.done ((s.objects m).reset mtype).2))
  | .destroy addr, .go _ _ =>
      if s.holders .mutexes ≠ ∅ then none
      else match s.mutexes addr with
        | some _ => some ((s.removeMutex addr).goto t (.done 0))
        | none => some (s.goto t (.done 22))
  | .findCond cond addr timed called, .go _ _ =>
      match s.condvars cond with
      | some c => some (s.goto t (.findWait c addr timed called))
      | none => some (s.goto t (.done 22))
  | .findWait c addr timed called, .go _ _ =>
      if s.holders .mutexes ≠ ∅ then none
      else match s.mutexes addr with
        | some m => some (s.goto t (.enterWait c addr m timed called))
        | none => some (s.goto t (.done 22))
  | .enterWait c addr m timed called, .go _ _ =>
      if s.holders (.state m) ≠ ∅ then none
      else if (s.objects m).owner ≠ some t then some (s.goto t (.done 1))
      else
        some ((s.acquire t (.state m)).goto t
          (.gate ⟨c,addr,m,timed,(s.objects m).locks,called⟩))
  | .gate w, .go _ _ =>
      -- the guest mutex is given up under the gate a signal has to pass
      if s.holders (.waitLock w.cond) ≠ ∅ then none
      else
        some (((((s.setObject w.mutex (s.objects w.mutex).released).release t (.state w.mutex)).sleep t
          w.cond).acquire t (.waitLock w.cond)).goto t (.released w))
  | .released w, .go _ _ =>
      some (((s.setBlocked w.cond (insert t (s.blocked w.cond))).release t (.waitLock w.cond)).goto t
        (.asleep w 0))
  | .asleep w _, .wake timedOut =>
      if t ∈ s.blocked w.cond ∧ (timedOut → w.timed) then
        some ((s.rouse w.cond {t}).goto t (.asleep w (if timedOut then 60 else 0)))
      else none
  | .asleep w code, .go _ _ =>
      if t ∈ s.blocked w.cond ∨ s.holders (.waitLock w.cond) ≠ ∅ then none
      else some (s.goto t (.relock w code))
  | .relock w code, .go _ _ =>
      if s.holders (.state w.mutex) ≠ ∅ then none
      else if (s.objects w.mutex).owner ≠ none then some (s.goto t (.relockParked w code))
      else
        some ((s.setObject w.mutex
          { s.objects w.mutex with owner := some t, locks := w.saved }).goto t (.done code))
  | .relockParked w code, .wake _ => some (s.goto t (.relock w code))
  | .findSignal cond all, .go _ _ =>
      match s.condvars cond with
      | some c => some ((s.acquire t .condvars).goto t (.notify c all))
      | none => some (s.goto t (.done 0))
  | .notify c all, .go _ woken =>
      if s.holders (.waitLock c) ≠ ∅ then none
      else if all then some (((s.release t .condvars).rouse c (s.blocked c)).goto t (.done 0))
      else if s.blocked c = ∅ then some ((s.release t .condvars).goto t (.done 0))
      else if woken ∈ s.blocked c then
        some (((s.release t .condvars).rouse c {woken}).goto t (.done 0))
      else none
  | .initCond cond, .go _ _ =>
      if s.holders .condvars ≠ ∅ then none
      else match s.condvars cond with
        | some _ => some (s.goto t (.done 16))
        | none => some ((s.insertCond cond).goto t (.done 0))
  | .destroyCond cond, .go _ _ =>
      if s.holders .condvars ≠ ∅ then none
      else match s.condvars cond with
        | some _ => some ((s.removeCond cond).goto t (.done 0))
        | none => some (s.goto t (.done 22))
  | _, _ => none

def step (s : SyncManager) (l : Tid × Act) : Option SyncManager := s.next l.1 l.2

/-- No mutex, no condition and no call yet. -/
def start : SyncManager where
  mutexes _ := none
  objects _ := .new .normal
  nextMutex := 0
  condvars _ := none
  nextCond := 0
  blocked _ := ∅
  holders _ := ∅
  pc _ := .done 0
  held _ _ := 0
  sleeping _ := none

end SyncManager

end Unemups4.Kernel

import Unemups4.SyncLocks

/-! Mutexes and conditions that no call has initialised. The runs of the code are compared with
those in which a call initialises what it is about to use, through the runs of a table in which
every address has its object from the start, and is its own name. -/
namespace Unemups4.Kernel.StaticInit

open Transition (Reach)

/-- The calls that may come first on an object. -/
def Operation : Act → Prop
  | .call (.mutex _ _) | .call (.condWait _ _ _) | .call (.condSignal _ _) => True
  | .call _ => False
  | _ => True

instance (act : Act) : Decidable (Operation act) := by
  unfold Operation
  split <;> infer_instance

def withMutex (s : SyncManager) (addr : GuestAddr) : SyncManager :=
  if s.mutexes addr = none then s.insertMutex addr .normal else s

def withCond (s : SyncManager) (cond : GuestAddr) : SyncManager :=
  if s.condvars cond = none then s.insertCond cond else s

/-- What a call uses is initialised with the default attributes. -/
def initialise (s : SyncManager) : SyncCall → SyncManager
  | .mutex _ addr => withMutex s addr
  | .condWait cond addr _ => withMutex (withCond s cond) addr
  | .condSignal cond _ => withCond s cond
  | _ => s

/-- The step of a thread whose calls initialise first. -/
def nextInit (s : SyncManager) (t : Tid) (act : Act) : Option SyncManager :=
  match act with
  | .call call => (initialise s call).next t act
  | _ => s.next t act

/-- What the guest sees. -/
inductive Event where
  | call (t : Tid) (call : SyncCall)
  | returned (t : Tid) (code : ℕ)
  deriving DecidableEq, Repr

/-- The objects and threads, and what the guest has seen of them, the latest first. -/
structure Traced where
  sync : SyncManager
  history : List Event

/-- What is seen of a step: the call, or the code of one that comes back. -/
def events (t : Tid) (act : Act) (pc : Pc) : List Event :=
  match act, pc with
  | .call call, _ => [.call t call]
  | _, .done code => [.returned t code]
  | _, _ => []

def traced (next : SyncManager → Tid → Act → Option SyncManager) (s : Traced) (l : Tid × Act) :
    Option Traced :=
  if Operation l.2 then
    (next s.sync l.1 l.2).map fun sync => ⟨sync,events l.1 l.2 (sync.pc l.1) ++ s.history⟩
  else none

/-- Some objects are initialised, some of the mutexes again, before the first of the calls. -/
inductive Prepared : SyncManager → Prop
  | start : Prepared .start
  | mutex {s : SyncManager} {addr : GuestAddr} (mtype : MutexType) : Prepared s →
      s.mutexes addr = none → Prepared (s.insertMutex addr mtype)
  | again {s : SyncManager} {addr : GuestAddr} {m : MutexId} (mtype : MutexType) : Prepared s →
      s.mutexes addr = some m → Prepared (s.setObject m (.new mtype))
  | cond {s : SyncManager} {cond : GuestAddr} : Prepared s → s.condvars cond = none →
      Prepared (s.insertCond cond)

/-- The mutex at an address: one that is not there yet is as new. -/
def mutexAt (s : SyncManager) (addr : GuestAddr) : HostMutexState :=
  match s.mutexes addr with
  | some m => s.objects m
  | none => .new .normal

/-- The threads that wait on a condition. -/
def waitersAt (s : SyncManager) (cond : GuestAddr) : Finset Tid :=
  match s.condvars cond with
  | some c => s.blocked c
  | none => ∅

/-- The same was seen and every object is in the same state. -/
structure Agree (s e : Traced) : Prop where
  history : s.history = e.history
  mutexes : mutexAt s.sync = mutexAt e.sync
  conds : waitersAt s.sync = waitersAt e.sync

/-- A call finds the objects that it looks up. -/
def Found (s : SyncManager) : Pc → Prop
  | .find _ addr | .findWait _ addr _ _ => s.mutexes addr ≠ none
  | .findCond cond _ _ _ | .findSignal cond _ => s.condvars cond ≠ none
  | _ => True

instance (s : SyncManager) (pc : Pc) : Decidable (Found s pc) := by
  unfold Found
  split <;> infer_instance

/-- A call finds them, but for a lock and a signal. -/
def Known (s : Traced) (l : Tid × Act) : Prop :=
  match s.sync.pc l.1 with
  | .find .lock _ | .findSignal _ _ => True
  | pc => Found s.sync pc

instance (s : Traced) (l : Tid × Act) : Decidable (Known s l) := by
  unfold Known
  split <;> infer_instance

/-- Values under the names that a table gives out, and under their keys where every key has one:
what was not given out yet has the default value. -/
structure Table {α : Type*} (names : ℕ → Option ℕ) (next : ℕ) (default : α) (value all : ℕ → α) :
    Prop where
  below : ∀ k i, names k = some i → i < next
  inj : ∀ k k' i, names k = some i → names k' = some i → k = k'
  fresh : ∀ i, next ≤ i → value i = default
  present : ∀ k i, names k = some i → all k = value i
  absent : ∀ k, names k = none → all k = default

namespace Table

variable {α : Type*} {names : ℕ → Option ℕ} {next : ℕ} {default : α} {value all : ℕ → α} {k i : ℕ}

lemma set (h : Table names next default value all) (hk : names k = some i) (v : α) :
    Table names next default (Function.update value i v) (Function.update all k v) where
  below := h.below
  inj := h.inj
  fresh j hj := by
    have hne : j ≠ i := by
      have hi := h.below k i hk
      omega
    rw [Function.update_of_ne hne, h.fresh j hj]
  present k' i' hk' := by
    by_cases hkk : k' = k
    · subst hkk
      obtain rfl : i' = i := Option.some.inj (hk'.symm.trans hk)
      simp
    · have hne : i' ≠ i := by
        rintro rfl
        exact hkk (h.inj k' k i' hk' hk)
      rw [Function.update_of_ne hkk, Function.update_of_ne hne, h.present k' i' hk']
  absent k' hk' := by
    have hne : k' ≠ k := by
      rintro rfl
      rw [hk] at hk'
      cases hk'
    rw [Function.update_of_ne hne, h.absent k' hk']

lemma insert (h : Table names next default value all) (hk : names k = none) (v : α) :
    Table (Function.update names k (some next)) (next+1) default (Function.update value next v)
      (Function.update all k v) where
  below k' i' hk' := by
    by_cases hkk : k' = k
    · subst hkk
      obtain rfl : next = i' := by simpa using hk'
      exact Nat.lt_succ_self _
    · rw [Function.update_of_ne hkk] at hk'
      exact (h.below k' i' hk').trans (Nat.lt_succ_self _)
  inj k₁ k₂ i' h₁ h₂ := by
    by_cases hk₁ : k₁ = k <;> by_cases hk₂ : k₂ = k
    · exact hk₁.trans hk₂.symm
    · subst hk₁
      rw [Function.update_of_ne hk₂] at h₂
      obtain rfl : next = i' := by simpa using h₁
      exact absurd (h.below k₂ next h₂) (lt_irrefl _)
    · subst hk₂
      rw [Function.update_of_ne hk₁] at h₁
      obtain rfl : next = i' := by simpa using h₂
      exact absurd (h.below k₁ next h₁) (lt_irrefl _)
    · rw [Function.update_of_ne hk₁] at h₁
      rw [Function.update_of_ne hk₂] at h₂
      exact h.inj k₁ k₂ i' h₁ h₂
  fresh j hj := by
    rw [Function.update_of_ne (by omega), h.fresh j (by omega)]
  present k' i' hk' := by
    by_cases hkk : k' = k
    · subst hkk
      obtain rfl : next = i' := by simpa using hk'
      simp
    · rw [Function.update_of_ne hkk] at hk'
      have hi := h.below k' i' hk'
      rw [Function.update_of_ne hkk, Function.update_of_ne hi.ne, h.present k' i' hk']
  absent k' hk' := by
    by_cases hkk : k' = k
    · subst hkk
      simp at hk'
    · rw [Function.update_of_ne hkk] at hk' ⊢
      exact h.absent k' hk'

/-- With the default value for the new name nothing changes but the names. -/
lemma insert_default (h : Table names next default value all) (hk : names k = none) :
    Table (Function.update names k (some next)) (next+1) default value all := by
  have hinsert := h.insert hk default
  rwa [← h.fresh next le_rfl, Function.update_eq_self, h.fresh next le_rfl, ← h.absent k hk,
    Function.update_eq_self, h.absent k hk] at hinsert

end Table

/-- A waiter under the addresses of its condition and its mutex. -/
def renamed (w : Waiter) (cond : GuestAddr) : Waiter := { w with cond := cond, mutex := w.addr }

/-- Where threads stand in a table, and in the one of all objects. A lock that has found no
object has not looked yet there. -/
inductive Same (mutexes : GuestAddr → Option MutexId) (condvars : GuestAddr → Option CondId) :
    Pc → Pc → Prop
  | done (code : ℕ) : Same mutexes condvars (.done code) (.done code)
  | find (call : MutexCall) (addr : GuestAddr) : Same mutexes condvars (.find call addr) (.find call addr)
  | create (addr : GuestAddr) : Same mutexes condvars (.create addr) (.find .lock addr)
  | enter {call : MutexCall} {addr : GuestAddr} {m : MutexId} {expired : Bool} :
      mutexes addr = some m →
      Same mutexes condvars (.enter call addr m expired) (.enter call addr addr expired)
  | report {addr : GuestAddr} {m : MutexId} : mutexes addr = some m →
      Same mutexes condvars (.report addr m) (.report addr addr)
  | parked {call : MutexCall} {addr : GuestAddr} {m : MutexId} : mutexes addr = some m →
      Same mutexes condvars (.parked call addr m) (.parked call addr addr)
  | findCond (cond addr : GuestAddr) (timed : Bool) (called : ℕ) :
      Same mutexes condvars (.findCond cond addr timed called) (.findCond cond addr timed called)
  | findWait {c : CondId} {cond addr : GuestAddr} {timed : Bool} {called : ℕ} :
      condvars cond = some c → Same mutexes condvars (.findWait c addr timed called)
        (.findWait cond addr timed called)
  | enterWait {c : CondId} {m : MutexId} {cond addr : GuestAddr} {timed : Bool} {called : ℕ} :
      condvars cond = some c → mutexes addr = some m →
      Same mutexes condvars (.enterWait c addr m timed called) (.enterWait cond addr addr timed called)
  | gate {w : Waiter} {cond : GuestAddr} : condvars cond = some w.cond →
      mutexes w.addr = some w.mutex → Same mutexes condvars (.gate w) (.gate (renamed w cond))
  | released {w : Waiter} {cond : GuestAddr} : condvars cond = some w.cond →
      mutexes w.addr = some w.mutex → Same mutexes condvars (.released w) (.released (renamed w cond))
  | asleep {w : Waiter} {cond : GuestAddr} {code : ℕ} : condvars cond = some w.cond →
      mutexes w.addr = some w.mutex →
      Same mutexes condvars (.asleep w code) (.asleep (renamed w cond) code)
  | relock {w : Waiter} {cond : GuestAddr} {code : ℕ} : condvars cond = some w.cond →
      mutexes w.addr = some w.mutex →
      Same mutexes condvars (.relock w code) (.relock (renamed w cond) code)
  | relockParked {w : Waiter} {cond : GuestAddr} {code : ℕ} : condvars cond = some w.cond →
      mutexes w.addr = some w.mutex →
      Same mutexes condvars (.relockParked w code) (.relockParked (renamed w cond) code)
  | findSignal (cond : GuestAddr) (all : Bool) :
      Same mutexes condvars (.findSignal cond all) (.findSignal cond all)
  | notify {c : CondId} {cond : GuestAddr} {all : Bool} : condvars cond = some c →
      Same mutexes condvars (.notify c all) (.notify cond all)

/-- A table and the one of all objects are alike but for the names. -/
structure Alike (s a : SyncManager) : Prop where
  named : a.mutexes = some
  condNamed : a.condvars = some
  mutexes : Table s.mutexes s.nextMutex (.new .normal) s.objects a.objects
  conds : Table s.condvars s.nextCond ∅ s.blocked a.blocked
  pcs : ∀ t, Same s.mutexes s.condvars (s.pc t) (a.pc t)

lemma Same.mono {mutexes mutexes' : GuestAddr → Option MutexId}
    {condvars condvars' : GuestAddr → Option CondId} {pc pc' : Pc} (h : Same mutexes condvars pc pc')
    (hm : ∀ addr m, mutexes addr = some m → mutexes' addr = some m)
    (hc : ∀ cond c, condvars cond = some c → condvars' cond = some c) :
    Same mutexes' condvars' pc pc' := by
  cases h <;> constructor <;> solve_by_elim

namespace Alike

variable {s a : SyncManager} {t : Tid}

lemma goto (h : Alike s a) {pc pc' : Pc} (hpc : Same s.mutexes s.condvars pc pc') :
    Alike (s.goto t pc) (a.goto t pc') where
  named := h.named
  condNamed := h.condNamed
  mutexes := h.mutexes
  conds := h.conds
  pcs u := by
    by_cases hu : u = t
    · subst hu
      simpa using hpc
    · simpa [hu] using h.pcs u

lemma acquire (h : Alike s a) (lock lock' : SyncLock) : Alike (s.acquire t lock) (a.acquire t lock') :=
  ⟨h.named,h.condNamed,h.mutexes,h.conds,h.pcs⟩

lemma release (h : Alike s a) (lock lock' : SyncLock) : Alike (s.release t lock) (a.release t lock') :=
  ⟨h.named,h.condNamed,h.mutexes,h.conds,h.pcs⟩

lemma sleep (h : Alike s a) (c c' : CondId) : Alike (s.sleep t c) (a.sleep t c') :=
  ⟨h.named,h.condNamed,h.mutexes,h.conds,h.pcs⟩

lemma setHeld (h : Alike s a) (addr : GuestAddr) (n n' : ℕ) :
    Alike (s.setHeld t addr n) (a.setHeld t addr n') :=
  ⟨h.named,h.condNamed,h.mutexes,h.conds,h.pcs⟩

lemma setObject (h : Alike s a) {addr : GuestAddr} {m : MutexId} (hm : s.mutexes addr = some m)
    (st : HostMutexState) : Alike (s.setObject m st) (a.setObject addr st) :=
  ⟨h.named,h.condNamed,h.mutexes.set hm st,h.conds,h.pcs⟩

lemma setBlocked (h : Alike s a) {cond : GuestAddr} {c : CondId} (hc : s.condvars cond = some c)
    (threads : Finset Tid) : Alike (s.setBlocked c threads) (a.setBlocked cond threads) :=
  ⟨h.named,h.condNamed,h.mutexes,h.conds.set hc threads,h.pcs⟩

lemma rouse (h : Alike s a) {cond : GuestAddr} {c : CondId} (hc : s.condvars cond = some c)
    (threads : Finset Tid) : Alike (s.rouse c threads) (a.rouse cond threads) := by
  have hblocked : a.blocked cond = s.blocked c := h.conds.present cond c hc
  refine ⟨h.named,h.condNamed,h.mutexes,?_,h.pcs⟩
  simpa [hblocked] using h.conds.set hc (s.blocked c \ threads)

lemma insertMutex (h : Alike s a) {addr : GuestAddr} (hnone : s.mutexes addr = none)
    (mtype : MutexType) : Alike (s.insertMutex addr mtype) (a.setObject addr (.new mtype)) where
  named := h.named
  condNamed := h.condNamed
  mutexes := h.mutexes.insert hnone (.new mtype)
  conds := h.conds
  pcs u := by
    refine (h.pcs u).mono (fun addr' m hm => ?_) fun _ _ h => h
    have hne : addr' ≠ addr := by
      rintro rfl
      rw [hnone] at hm
      cases hm
    simpa [hne] using hm

/-- A mutex initialised with the default attributes is as the table of all objects has it. -/
lemma insertDefault (h : Alike s a) {addr : GuestAddr} (hnone : s.mutexes addr = none) :
    Alike (s.insertMutex addr .normal) a := by
  have hinsert := h.insertMutex hnone .normal
  have hself : a.setObject addr (.new .normal) = a := by
    rw [SyncManager.setObject, ← h.mutexes.absent addr hnone, Function.update_eq_self]
  rwa [hself] at hinsert

lemma insertCond (h : Alike s a) {cond : GuestAddr} (hnone : s.condvars cond = none) :
    Alike (s.insertCond cond) a where
  named := h.named
  condNamed := h.condNamed
  mutexes := h.mutexes
  conds := h.conds.insert_default hnone
  pcs u := by
    refine (h.pcs u).mono (fun _ _ h => h) fun cond' c hc => ?_
    have hne : cond' ≠ cond := by
      rintro rfl
      rw [hnone] at hc
      cases hc
    simpa [hne] using hc

/-- Both tables count alike. -/
lemma count (h : Alike s a) (addr : GuestAddr) : s.count t addr = a.count t addr := by
  cases hm : s.mutexes addr with
  | none => simp [SyncManager.count,hm,h.named,h.mutexes.absent addr hm,HostMutexState.new]
  | some m => simp [SyncManager.count,hm,h.named,h.mutexes.present addr m hm]

lemma pass (h : Alike s a) {addr : GuestAddr} {m : MutexId} (hm : s.mutexes addr = some m)
    (call : MutexCall) (expired late : Bool) :
    Alike (s.pass t call addr m expired late) (a.pass t call addr addr expired late) := by
  have hobject : a.objects addr = s.objects m := h.mutexes.present addr m hm
  have hset := h.setObject hm ((s.objects m).pass t call expired late).1
  cases hr : ((s.objects m).pass t call expired late).2 with
  | none => simpa only [SyncManager.pass,hobject,hr] using hset.goto (.parked hm)
  | some code =>
    simpa only [SyncManager.pass,hobject,hr] using (hset.setHeld addr _ _).goto (.done code)

lemma mutexAt_eq (h : Alike s a) : mutexAt s = a.objects := by
  funext addr
  cases hm : s.mutexes addr with
  | none => simp [mutexAt,hm,h.mutexes.absent addr hm]
  | some m => simp [mutexAt,hm,h.mutexes.present addr m hm]

lemma waitersAt_eq (h : Alike s a) : waitersAt s = a.blocked := by
  funext cond
  cases hc : s.condvars cond with
  | none => simp [waitersAt,hc,h.conds.absent cond hc]
  | some c => simp [waitersAt,hc,h.conds.present cond c hc]

end Alike

lemma rouse_empty (s : SyncManager) (c : CondId) : s.rouse c ∅ = s := by
  simp [SyncManager.rouse]

/-- Nor do they differ in who holds which lock. -/
structure Sim (s a : SyncManager) : Prop where
  locked : s.Locked
  lockedAll : a.Locked
  alike : Alike s a

namespace Sim

variable {s a : SyncManager} {t : Tid} {act : Act} {lock lock' : SyncLock}

lemma holders_eq (h : Sim s a) (hiff : ∀ pc pc', Same s.mutexes s.condvars pc pc' →
    (pc.holds = some lock ↔ pc'.holds = some lock')) : s.holders lock = a.holders lock' := by
  ext u
  rw [h.locked.holder, h.lockedAll.holder]
  exact hiff _ _ (h.alike.pcs u)

lemma holders_mutexes (h : Sim s a) : s.holders .mutexes = a.holders .mutexes :=
  h.holders_eq fun _ _ hpc => by cases hpc <;> simp [Pc.holds]

lemma holders_stuck (h : Sim s a) : s.holders .reportedStuck = a.holders .reportedStuck :=
  h.holders_eq fun _ _ hpc => by cases hpc <;> simp [Pc.holds]

lemma holders_state (h : Sim s a) {addr : GuestAddr} {m : MutexId} (hm : s.mutexes addr = some m) :
    s.holders (.state m) = a.holders (.state addr) := by
  have hiff (addr' : GuestAddr) (m' : MutexId) (hm' : s.mutexes addr' = some m') :
      m' = m ↔ addr' = addr := by
    constructor
    · rintro rfl
      exact h.alike.mutexes.inj addr' addr m' hm' hm
    · rintro rfl
      exact Option.some.inj (hm'.symm.trans hm)
  refine h.holders_eq fun pc pc' hpc => ?_
  cases hpc with
  | report hm' => simpa [Pc.holds] using hiff _ _ hm'
  | gate _ hm' => simpa [Pc.holds,renamed] using hiff _ _ hm'
  | _ => simp [Pc.holds]

lemma holders_wait (h : Sim s a) {cond : GuestAddr} {c : CondId} (hc : s.condvars cond = some c) :
    s.holders (.waitLock c) = a.holders (.waitLock cond) := by
  have hiff (cond' : GuestAddr) (c' : CondId) (hc' : s.condvars cond' = some c') :
      c' = c ↔ cond' = cond := by
    constructor
    · rintro rfl
      exact h.alike.conds.inj cond' cond c' hc' hc
    · rintro rfl
      exact Option.some.inj (hc'.symm.trans hc)
  refine h.holders_eq fun pc pc' hpc => ?_
  cases hpc with
  | released hc' _ => simpa [Pc.holds,renamed] using hiff _ _ hc'
  | _ => simp [Pc.holds]

section Steps

variable {call : MutexCall} {addr cond : GuestAddr} {m : MutexId} {c : CondId} {expired timed : Bool}
  {called code : ℕ} {w : Waiter} (late : Bool) (woken : Tid)

lemma find_alike (h : Sim s a) (hs : s.pc t = .find call addr) (ha : a.pc t = .find call addr)
    (hm : s.mutexes addr = some m) :
    Option.Rel Alike (s.next t (.go late woken)) (a.next t (.go late woken)) := by
  simp only [SyncManager.next,hs,ha,h.holders_mutexes,h.alike.named,hm]
  split_ifs
  · exact .none
  · exact .some (h.alike.goto (.enter hm))

lemma create_alike (h : Sim s a) (hs : s.pc t = .create addr) (ha : a.pc t = .find .lock addr) :
    Option.Rel Alike (s.next t (.go late woken)) (a.next t (.go late woken)) := by
  simp only [SyncManager.next,hs,ha,h.holders_mutexes,h.alike.named]
  split_ifs
  · exact .none
  · cases hm : s.mutexes addr with
    | none => exact .some ((h.alike.insertDefault hm).goto (.enter (by simp)))
    | some m => exact .some (h.alike.goto (.enter hm))

lemma enter_alike (h : Sim s a) (hs : s.pc t = .enter call addr m expired)
    (ha : a.pc t = .enter call addr addr expired) (hm : s.mutexes addr = some m) :
    Option.Rel Alike (s.next t (.go late woken)) (a.next t (.go late woken)) := by
  have hobject : a.objects addr = s.objects m := h.alike.mutexes.present addr m hm
  simp only [SyncManager.next,hs,ha,h.holders_state hm,hobject]
  split_ifs
  · exact .some (h.alike.goto (.done 16))
  · exact .none
  · exact .some ((h.alike.acquire _ _).goto (.report hm))
  · exact .some (h.alike.pass hm call expired late)

lemma report_alike (h : Sim s a) (hs : s.pc t = .report addr m) (ha : a.pc t = .report addr addr)
    (hm : s.mutexes addr = some m) :
    Option.Rel Alike (s.next t (.go late woken)) (a.next t (.go late woken)) := by
  simp only [SyncManager.next,hs,ha,h.holders_stuck]
  split_ifs
  · exact .none
  · exact .some ((h.alike.release _ _).pass hm .lock false late)

lemma findWait_alike (h : Sim s a) (hs : s.pc t = .findWait c addr timed called)
    (ha : a.pc t = .findWait cond addr timed called) (hc : s.condvars cond = some c)
    (hm : s.mutexes addr = some m) :
    Option.Rel Alike (s.next t (.go late woken)) (a.next t (.go late woken)) := by
  simp only [SyncManager.next,hs,ha,h.holders_mutexes,h.alike.named,hm]
  split_ifs
  · exact .none
  · exact .some (h.alike.goto (.enterWait hc hm))

lemma enterWait_alike (h : Sim s a) (hs : s.pc t = .enterWait c addr m timed called)
    (ha : a.pc t = .enterWait cond addr addr timed called) (hc : s.condvars cond = some c)
    (hm : s.mutexes addr = some m) :
    Option.Rel Alike (s.next t (.go late woken)) (a.next t (.go late woken)) := by
  have hobject : a.objects addr = s.objects m := h.alike.mutexes.present addr m hm
  simp only [SyncManager.next,hs,ha,h.holders_state hm,hobject]
  split_ifs
  · exact .none
  · exact .some (h.alike.goto (.done 1))
  · exact .some ((h.alike.acquire _ _).goto (.gate hc hm))

lemma gate_alike (h : Sim s a) (hs : s.pc t = .gate w) (ha : a.pc t = .gate (renamed w cond))
    (hc : s.condvars cond = some w.cond) (hm : s.mutexes w.addr = some w.mutex) :
    Option.Rel Alike (s.next t (.go late woken)) (a.next t (.go late woken)) := by
  have hobject : a.objects w.addr = s.objects w.mutex := h.alike.mutexes.present _ _ hm
  simp only [SyncManager.next,hs,ha,renamed,h.holders_wait hc,hobject]
  split_ifs
  · exact .none
  · have hset := h.alike.setObject hm (s.objects w.mutex).released
    exact .some ((((hset.release _ _).sleep _ _).acquire _ _).goto (.released hc hm))

lemma released_alike (h : Sim s a) (hs : s.pc t = .released w)
    (ha : a.pc t = .released (renamed w cond)) (hc : s.condvars cond = some w.cond)
    (hm : s.mutexes w.addr = some w.mutex) :
    Option.Rel Alike (s.next t (.go late woken)) (a.next t (.go late woken)) := by
  have hblocked : a.blocked cond = s.blocked w.cond := h.alike.conds.present _ _ hc
  simp only [SyncManager.next,hs,ha,renamed,hblocked]
  have hset := h.alike.setBlocked hc (insert t (s.blocked w.cond))
  exact .some ((hset.release _ _).goto (.asleep hc hm))

lemma asleep_alike (h : Sim s a) (hs : s.pc t = .asleep w code)
    (ha : a.pc t = .asleep (renamed w cond) code) (hc : s.condvars cond = some w.cond)
    (hm : s.mutexes w.addr = some w.mutex) :
    Option.Rel Alike (s.next t (.go late woken)) (a.next t (.go late woken)) := by
  have hblocked : a.blocked cond = s.blocked w.cond := h.alike.conds.present _ _ hc
  simp only [SyncManager.next,hs,ha,renamed,hblocked,h.holders_wait hc]
  split_ifs
  · exact .none
  · exact .some (h.alike.goto (.relock hc hm))

lemma relock_alike (h : Sim s a) (hs : s.pc t = .relock w code)
    (ha : a.pc t = .relock (renamed w cond) code) (hc : s.condvars cond = some w.cond)
    (hm : s.mutexes w.addr = some w.mutex) :
    Option.Rel Alike (s.next t (.go late woken)) (a.next t (.go late woken)) := by
  have hobject : a.objects w.addr = s.objects w.mutex := h.alike.mutexes.present _ _ hm
  simp only [SyncManager.next,hs,ha,renamed,h.holders_state hm,hobject]
  split_ifs
  · exact .none
  · exact .some (h.alike.goto (.relockParked hc hm))
  · exact .some ((h.alike.setObject hm _).goto (.done code))

lemma notify_alike {all : Bool} (h : Sim s a) (hs : s.pc t = .notify c all)
    (ha : a.pc t = .notify cond all) (hc : s.condvars cond = some c) :
    Option.Rel Alike (s.next t (.go late woken)) (a.next t (.go late woken)) := by
  have hblocked : a.blocked cond = s.blocked c := h.alike.conds.present _ _ hc
  have hleft : Alike (s.release t .condvars) (a.release t .condvars) := h.alike.release _ _
  simp only [SyncManager.next,hs,ha,h.holders_wait hc,hblocked]
  split_ifs
  · exact .none
  · exact .some ((hleft.rouse hc _).goto (.done 0))
  · exact .some (hleft.goto (.done 0))
  · exact .some ((hleft.rouse hc {woken}).goto (.done 0))
  · exact .none

/-- By where the thread stands. -/
lemma go_alike (h : Sim s a) (hfound : Found s (s.pc t)) :
    Option.Rel Alike (s.next t (.go late woken)) (a.next t (.go late woken)) := by
  have hpc := h.alike.pcs t
  generalize hs : s.pc t = pc at hpc hfound
  generalize ha : a.pc t = pc' at hpc
  cases hpc with
  | find call addr =>
    obtain ⟨m,hm⟩ := Option.ne_none_iff_exists'.mp hfound
    exact h.find_alike late woken hs ha hm
  | create addr => exact h.create_alike late woken hs ha
  | enter hm => exact h.enter_alike late woken hs ha hm
  | report hm => exact h.report_alike late woken hs ha hm
  | findCond cond addr timed called =>
    obtain ⟨c,hc⟩ := Option.ne_none_iff_exists'.mp hfound
    simp only [SyncManager.next,hs,ha,h.alike.condNamed,hc]
    exact .some (h.alike.goto (.findWait hc))
  | findWait hc =>
    obtain ⟨m,hm⟩ := Option.ne_none_iff_exists'.mp hfound
    exact h.findWait_alike late woken hs ha hc hm
  | enterWait hc hm => exact h.enterWait_alike late woken hs ha hc hm
  | gate hc hm => exact h.gate_alike late woken hs ha hc hm
  | released hc hm => exact h.released_alike late woken hs ha hc hm
  | asleep hc hm => exact h.asleep_alike late woken hs ha hc hm
  | relock hc hm => exact h.relock_alike late woken hs ha hc hm
  | findSignal cond all =>
    obtain ⟨c,hc⟩ := Option.ne_none_iff_exists'.mp hfound
    simp only [SyncManager.next,hs,ha,h.alike.condNamed,hc]
    exact .some ((h.alike.acquire _ _).goto (.notify hc))
  | notify hc => exact h.notify_alike late woken hs ha hc
  | done _ | parked _ | relockParked _ _ => simpa only [SyncManager.next,hs,ha] using .none

end Steps

/-- Only a thread outside of the calls makes one. -/
lemma call_alike (h : Sim s a) {call : SyncCall} (hop : Operation (.call call)) :
    Option.Rel Alike (s.next t (.call call)) (a.next t (.call call)) := by
  have hpc := h.alike.pcs t
  generalize hs : s.pc t = pc at hpc
  generalize ha : a.pc t = pc' at hpc
  cases hpc with
  | done code =>
    simp only [SyncManager.next,hs,ha]
    refine .some (h.alike.goto ?_)
    cases call with
    | mutex call addr => exact .find call addr
    | condWait cond addr timed =>
      simp only [SyncManager.entry,h.alike.count addr]
      exact .findCond cond addr timed _
    | condSignal cond all => exact .findSignal cond all
    | _ => exact hop.elim
  | _ => simpa only [SyncManager.next,hs,ha] using .none

lemma wake_alike (h : Sim s a) (timedOut : Bool) :
    Option.Rel Alike (s.next t (.wake timedOut)) (a.next t (.wake timedOut)) := by
  have hpc := h.alike.pcs t
  generalize hs : s.pc t = pc at hpc
  generalize ha : a.pc t = pc' at hpc
  cases hpc with
  | parked hm =>
    simp only [SyncManager.next,hs,ha]
    exact .some (h.alike.goto (.enter hm))
  | @asleep w cond code hc hm =>
    have hblocked : a.blocked cond = s.blocked w.cond := h.alike.conds.present _ _ hc
    simp only [SyncManager.next,hs,ha,renamed,hblocked]
    split_ifs
    · exact .some ((h.alike.rouse hc {t}).goto (.asleep hc hm))
    · exact .some ((h.alike.rouse hc {t}).goto (.asleep hc hm))
    · exact .none
  | relockParked hc hm =>
    simp only [SyncManager.next,hs,ha]
    exact .some (h.alike.goto (.relock hc hm))
  | _ => simpa only [SyncManager.next,hs,ha] using .none

/-- A step from alike states is possible in both or in neither, and leads to alike ones, where the
call finds what it looks up. -/
lemma next_alike (h : Sim s a) (hop : Operation act) (hfound : Found s (s.pc t)) :
    Option.Rel Alike (s.next t act) (a.next t act) := by
  cases act with
  | call call => exact h.call_alike hop
  | wake timedOut => exact h.wake_alike timedOut
  | go late woken => exact h.go_alike late woken hfound

/-- What one does the other does, where the call finds what it looks up. -/
lemma next (h : Sim s a) (hop : Operation act) (hfound : Found s (s.pc t)) {s' : SyncManager}
    (hs : s.next t act = some s') : ∃ a', a.next t act = some a' ∧ Sim s' a' := by
  have hrel := h.next_alike hop hfound
  rw [hs] at hrel
  generalize ha : a.next t act = o at hrel
  cases hrel with
  | some halike => exact ⟨_,rfl,SyncManager.locked_next h.locked hs,
      SyncManager.locked_next h.lockedAll ha,halike⟩

lemma next_of_all (h : Sim s a) (hop : Operation act) (hfound : Found s (s.pc t)) {a' : SyncManager}
    (ha : a.next t act = some a') : ∃ s', s.next t act = some s' ∧ Sim s' a' := by
  have hrel := h.next_alike hop hfound
  rw [ha] at hrel
  generalize hs : s.next t act = o at hrel
  cases hrel with
  | some halike => exact ⟨_,rfl,SyncManager.locked_next h.locked hs,
      SyncManager.locked_next h.lockedAll ha,halike⟩

/-- A lock that finds no object is still looking in the table of all. -/
lemma create (h : Sim s a) {addr : GuestAddr} (hs : s.pc t = .find .lock addr) :
    Sim (s.goto t (.create addr)) a := by
  have ha : a.pc t = .find .lock addr := by
    have hpc := h.alike.pcs t
    rw [hs] at hpc
    generalize a.pc t = pc at hpc
    cases hpc
    rfl
  have hself : a.goto t (.find .lock addr) = a := by
    rw [SyncManager.goto, ← ha, Function.update_eq_self]
  have halike : Alike (s.goto t (.create addr)) (a.goto t (.find .lock addr)) :=
    h.alike.goto (.create addr)
  exact ⟨h.locked.stay (by rw [hs]; rfl),h.lockedAll,hself ▸ halike⟩

/-- A signal that finds no condition does nothing, in two steps, in the table of all. -/
lemma signal (h : Sim s a) {cond : GuestAddr} {all : Bool} (hs : s.pc t = .findSignal cond all)
    (hnone : s.condvars cond = none) (late : Bool) (woken : Tid) : ∃ a₁ a₂,
      a.next t (.go late woken) = some a₁ ∧ a₁.next t (.go late woken) = some a₂ ∧
        a₁.pc t = .notify cond all ∧ a₂.pc t = .done 0 ∧ Sim (s.goto t (.done 0)) a₂ := by
  have ha : a.pc t = .findSignal cond all := by
    have hpc := h.alike.pcs t
    rw [hs] at hpc
    generalize a.pc t = pc at hpc
    cases hpc
    rfl
  have hblocked : a.blocked cond = ∅ := h.alike.conds.absent cond hnone
  have hfree : a.holders (.waitLock cond) = ∅ := by
    refine Finset.eq_empty_of_forall_notMem fun u hu => ?_
    rw [h.lockedAll.holder] at hu
    have hpc := h.alike.pcs u
    generalize s.pc u = pc at hpc
    generalize a.pc u = pc' at hpc hu
    cases hpc <;> simp [Pc.holds,renamed] at hu
    case released hc _ =>
      subst hu
      rw [hnone] at hc
      cases hc
  have hlocked : (s.goto t (.done 0)).Locked := h.locked.stay (by rw [hs]; rfl)
  have hlook : a.next t (.go late woken) =
      some ((a.acquire t .condvars).goto t (.notify cond all)) := by
    simp [SyncManager.next,ha,h.alike.condNamed]
  have hlockedAll := SyncManager.locked_next h.lockedAll hlook
  have hnotify : ((a.acquire t .condvars).goto t (.notify cond all)).next t (.go late woken) =
      some ((((a.acquire t .condvars).goto t (.notify cond all)).release t .condvars).goto t
        (.done 0)) := by
    cases all <;> simp [SyncManager.next,hfree,hblocked,rouse_empty]
  refine ⟨_,_,hlook,hnotify,by simp,by simp,hlocked,SyncManager.locked_next hlockedAll hnotify,?_⟩
  have hdone := h.alike.goto (t := t) (.done 0)
  exact ⟨hdone.named,hdone.condNamed,hdone.mutexes,hdone.conds,by simpa using hdone.pcs⟩

/-- What a call initialises is in the table of all objects already. -/
lemma withMutex (h : Sim s a) (addr : GuestAddr) : Sim (withMutex s addr) a := by
  unfold StaticInit.withMutex
  split_ifs with hnone
  · exact ⟨h.locked,h.lockedAll,h.alike.insertDefault hnone⟩
  · exact h

lemma withCond (h : Sim s a) (cond : GuestAddr) : Sim (withCond s cond) a := by
  unfold StaticInit.withCond
  split_ifs with hnone
  · exact ⟨h.locked,h.lockedAll,h.alike.insertCond hnone⟩
  · exact h

lemma initialise (h : Sim s a) (call : SyncCall) : Sim (initialise s call) a := by
  cases call with
  | mutex call addr => exact h.withMutex addr
  | condWait cond addr timed => exact (h.withCond cond).withMutex addr
  | condSignal cond all => exact h.withCond cond
  | _ => exact h

end Sim

lemma Prepared.sim {s : SyncManager} (h : Prepared s) : ∃ a, Sim s a ∧ ∀ t, s.pc t = .done 0 := by
  induction h with
  | start =>
    have hlocked (a : SyncManager) (hh : a.holders = fun _ => ∅) (hpc : a.pc = fun _ => .done 0) :
        a.Locked := ⟨by simp [hh,hpc,Pc.holds],by simp [hh]⟩
    refine ⟨{ SyncManager.start with mutexes := some, condvars := some },
      ⟨hlocked _ rfl rfl,hlocked _ rfl rfl,rfl,rfl,?_,?_,fun _ => .done 0⟩,fun _ => rfl⟩
    · exact ⟨by simp [SyncManager.start],by simp [SyncManager.start],fun _ _ => rfl,
        by simp [SyncManager.start],fun _ _ => rfl⟩
    · exact ⟨by simp [SyncManager.start],by simp [SyncManager.start],fun _ _ => rfl,
        by simp [SyncManager.start],fun _ _ => rfl⟩
  | @mutex s addr mtype _ hnone ih =>
    obtain ⟨a,ha,hpc⟩ := ih
    have hsim : Sim (s.insertMutex addr mtype) (a.setObject addr (.new mtype)) :=
      ⟨ha.locked,ha.lockedAll,ha.alike.insertMutex hnone mtype⟩
    exact ⟨_,hsim,hpc⟩
  | @again s addr m mtype _ hm ih =>
    obtain ⟨a,ha,hpc⟩ := ih
    have hsim : Sim (s.setObject m (.new mtype)) (a.setObject addr (.new mtype)) :=
      ⟨ha.locked,ha.lockedAll,ha.alike.setObject hm (.new mtype)⟩
    exact ⟨_,hsim,hpc⟩
  | cond _ hnone ih =>
    obtain ⟨a,ha,hpc⟩ := ih
    exact ⟨a,⟨ha.locked,ha.lockedAll,ha.alike.insertCond hnone⟩,hpc⟩

/-- Where a thread stands in a run whose calls initialise first: its objects are there, and no code
says that one was not. -/
def Ready (s : SyncManager) : Pc → Prop
  | .done code | .asleep _ code | .relock _ code | .relockParked _ code => code ≠ 22
  | .find _ addr | .findWait _ addr _ _ => s.mutexes addr ≠ none
  | .findCond cond addr _ _ => s.condvars cond ≠ none ∧ s.mutexes addr ≠ none
  | .findSignal cond _ => s.condvars cond ≠ none
  | .init _ _ | .reset _ _ _ | .destroy _ | .initCond _ | .destroyCond _ => False
  | _ => True

lemma Ready.found {s : SyncManager} {pc : Pc} (h : Ready s pc) : Found s pc := by
  cases pc <;> first | exact h | exact h.1 | trivial

/-- No object goes away. -/
structure Grown (s s' : SyncManager) : Prop where
  mutexes : ∀ addr, s.mutexes addr ≠ none → s'.mutexes addr ≠ none
  conds : ∀ cond, s.condvars cond ≠ none → s'.condvars cond ≠ none

lemma Ready.grown {s s' : SyncManager} {pc : Pc} (h : Ready s pc) (hg : Grown s s') :
    Ready s' pc := by
  cases pc with
  | find | findWait => exact hg.mutexes _ h
  | findCond => exact ⟨hg.conds _ h.1,hg.mutexes _ h.2⟩
  | findSignal => exact hg.conds _ h
  | _ => exact h

section Ready

variable {s s' : SyncManager} {t : Tid} {act : Act}

lemma Grown.trans {s'' : SyncManager} (h : Grown s s') (h' : Grown s' s'') : Grown s s'' :=
  ⟨fun addr hm => h'.mutexes addr (h.mutexes addr hm),fun cond hc => h'.conds cond (h.conds cond hc)⟩

lemma grown_withMutex (s : SyncManager) (addr : GuestAddr) :
    Grown s (withMutex s addr) ∧ (withMutex s addr).mutexes addr ≠ none := by
  unfold withMutex
  split_ifs with hnone
  · refine ⟨⟨fun addr' hm => ?_,fun _ hc => hc⟩,by simp⟩
    by_cases ha : addr' = addr
    · simp [ha]
    · simpa [ha] using hm
  · exact ⟨⟨fun _ hm => hm,fun _ hc => hc⟩,hnone⟩

lemma grown_withCond (s : SyncManager) (cond : GuestAddr) :
    Grown s (withCond s cond) ∧ (withCond s cond).condvars cond ≠ none := by
  unfold withCond
  split_ifs with hnone
  · refine ⟨⟨fun _ hm => hm,fun cond' hc => ?_⟩,by simp⟩
    by_cases hcond : cond' = cond
    · simp [hcond]
    · simpa [hcond] using hc
  · exact ⟨⟨fun _ hm => hm,fun _ hc => hc⟩,hnone⟩

/-- A call finds what it has initialised. -/
lemma grown_initialise {call : SyncCall} (hop : Operation (.call call)) :
    Grown s (initialise s call) ∧
      Ready (initialise s call) ((initialise s call).entry t call) := by
  cases call with
  | mutex call addr => exact grown_withMutex s addr
  | condSignal cond all => exact grown_withCond s cond
  | condWait cond addr timed =>
    obtain ⟨hcond,hc⟩ := grown_withCond s cond
    obtain ⟨hmutex,hm⟩ := grown_withMutex (withCond s cond) addr
    exact ⟨hcond.trans hmutex,hmutex.conds cond hc,hm⟩
  | _ => exact hop.elim

lemma pass_condvars (call : MutexCall) (addr : GuestAddr) (m : MutexId) (expired late : Bool) :
    (s.pass t call addr m expired late).condvars = s.condvars := by
  cases hr : ((s.objects m).pass t call expired late).2 <;> simp [SyncManager.pass, hr]

lemma grown_next (hr : Ready s (s.pc t)) (h : s.next t act = some s') : Grown s s' := by
  revert h
  fun_cases SyncManager.next s t act <;> intro h <;> cases h
  case case11 | case13 => exact ⟨by simp,by simp [pass_condvars]⟩
  case case7 =>
    refine ⟨fun addr' hm => ?_,fun _ hc => hc⟩
    simp only [SyncManager.goto_mutexes,SyncManager.insertMutex_mutexes,Function.update_apply]
    split_ifs
    · simp
    · exact hm
  all_goals
    rename s.pc t = _ => hpc
    rw [hpc] at hr
    first
    | exact hr.elim
    | exact ⟨fun _ hm => hm,fun _ hc => hc⟩

lemma pass_code {st : HostMutexState} {call : MutexCall} {expired late : Bool} :
    (st.pass t call expired late).2 ≠ some 22 := by
  have hlock : (st.lockPass t).2 ≠ some 22 := by
    unfold HostMutexState.lockPass
    cases st.owner with
    | none => simp
    | some owner => cases st.mtype <;> simp <;> split_ifs <;> simp
  cases call with
  | lock => exact hlock
  | trylock =>
    simp only [HostMutexState.pass,HostMutexState.trylockPass]
    split
    · simp
    · split_ifs <;> simp
  | timedlock =>
    simp only [HostMutexState.pass,HostMutexState.timedlockPass]
    split_ifs
    · simp
    · simp
    · exact hlock
  | unlock =>
    simp only [HostMutexState.pass,HostMutexState.unlockPass]
    split
    · simp
    · split_ifs <;> simp

lemma ready_pass (call : MutexCall) (addr : GuestAddr) (m : MutexId) (expired late : Bool) :
    Ready s' ((s.pass t call addr m expired late).pc t) := by
  cases hr : ((s.objects m).pass t call expired late).2 with
  | none => simp [SyncManager.pass,hr,Ready]
  | some code =>
    have hcode : code ≠ 22 := by
      rintro rfl
      exact pass_code hr
    simpa [SyncManager.pass,hr,Ready] using hcode

lemma ready_next (hr : Ready s (s.pc t)) (hcall : ∀ call, act = .call call → Ready s (s.entry t call))
    (h : s.next t act = some s') : Ready s' (s'.pc t) := by
  revert h
  fun_cases SyncManager.next s t act <;> intro h <;> cases h
  case case1 call _ =>
    simp only [SyncManager.goto_pc,Function.update_self]
    exact (hcall call rfl).grown ⟨fun _ hm => hm,fun _ hc => hc⟩
  case case11 | case13 => exact ready_pass ..
  case case34 timedOut hpc _ =>
    rw [hpc] at hr
    cases timedOut <;> simp [Ready]
  all_goals
    rename s.pc t = _ => hpc
    rw [hpc] at hr
    simp_all [Ready]

lemma ready_all (hr : ∀ u, Ready s (s.pc u)) (hcall : ∀ call, act = .call call → Ready s (s.entry t call))
    (h : s.next t act = some s') (u : Tid) : Ready s' (s'.pc u) := by
  by_cases hu : u = t
  · subst hu
    exact ready_next (hr u) hcall h
  · rw [SyncManager.next_pc_other h hu]
    exact (hr u).grown (grown_next (hr t) h)

lemma initialise_pc (s : SyncManager) (call : SyncCall) : (initialise s call).pc = s.pc := by
  have hm (s : SyncManager) (addr : GuestAddr) : (withMutex s addr).pc = s.pc := by
    unfold withMutex
    split_ifs <;> rfl
  have hc (s : SyncManager) (cond : GuestAddr) : (withCond s cond).pc = s.pc := by
    unfold withCond
    split_ifs <;> rfl
  cases call with
  | mutex call addr => exact hm s addr
  | condWait cond addr timed => exact (hm _ addr).trans (hc s cond)
  | condSignal cond all => exact hc s cond
  | _ => rfl

/-- With calls that initialise every step keeps the threads ready. -/
lemma ready_nextInit (hr : ∀ u, Ready s (s.pc u)) (hop : Operation act)
    (h : nextInit s t act = some s') (u : Tid) : Ready s' (s'.pc u) := by
  cases act with
  | call call =>
    obtain ⟨hgrown,hcall⟩ := grown_initialise (s := s) (t := t) hop
    refine ready_all (fun v => ?_) ?_ h u
    · rw [initialise_pc]
      exact (hr v).grown hgrown
    · rintro _ ⟨⟩
      exact hcall
  | _ => exact ready_all hr (by simp) h u

/-- What the table of all objects does a table does whose calls initialise. -/
lemma Sim.nextInit {a a' : SyncManager} (h : Sim s a) (hr : ∀ u, Ready s (s.pc u))
    (hop : Operation act) (ha : a.next t act = some a') :
    ∃ s', nextInit s t act = some s' ∧ Sim s' a' := by
  cases act with
  | call call =>
    refine (h.initialise call).next_of_all hop ?_ ha
    rw [initialise_pc]
    exact ((hr t).grown (grown_initialise (t := t) hop).1).found
  | _ => exact h.next_of_all hop (hr t).found ha

end Ready

lemma done_of_returned {t u : Tid} {act : Act} {pc : Pc} {code : ℕ}
    (h : .returned t code ∈ events u act pc) : pc = .done code := by
  revert h
  fun_cases events u act pc <;> simp_all

/-- What is seen does not depend on the names. -/
lemma Same.events {mutexes : GuestAddr → Option MutexId} {condvars : GuestAddr → Option CondId}
    {pc pc' : Pc} (h : Same mutexes condvars pc pc') (t : Tid) (act : Act) :
    events t act pc = events t act pc' := by
  cases act with
  | call call => rfl
  | _ => cases h <;> rfl

/-- A run in which calls initialise, beside the table of all objects. -/
structure Initialised (s₀ : SyncManager) (e : Traced) (a : SyncManager) : Prop where
  reach : Reach (traced nextInit) (· = ⟨s₀,[]⟩) (fun _ _ => True) e
  sim : Sim e.sync a
  ready : ∀ u, Ready e.sync (e.sync.pc u)

lemma Initialised.step {s₀ : SyncManager} {e : Traced} {a a' : SyncManager} {t : Tid} {act : Act}
    (h : Initialised s₀ e a) (hop : Operation act) (ha : a.next t act = some a') :
    ∃ e', Initialised s₀ e' a' ∧ e'.history = events t act (a'.pc t) ++ e.history := by
  obtain ⟨sync,hnext,hsim⟩ := h.sim.nextInit h.ready hop ha
  have hevents := (hsim.alike.pcs t).events t act
  have htraced : traced nextInit e (t,act) =
      some ⟨sync,events t act (sync.pc t) ++ e.history⟩ := by simp [traced,hop,hnext]
  exact ⟨_,⟨h.reach.step trivial htraced,hsim,ready_nextInit h.ready hop hnext⟩,by rw [hevents]⟩

/-- A run, and the one that goes with it in which calls initialise. -/
structure Matched (s₀ : SyncManager) (s e : Traced) (a : SyncManager) : Prop where
  init : Initialised s₀ e a
  sim : Sim s.sync a
  history : s.history = e.history

namespace Matched

variable {s₀ : SyncManager} {s s' e : Traced} {a : SyncManager} {t : Tid} {act : Act}

lemma agree (h : Matched s₀ s e a) : Agree s e where
  history := h.history
  mutexes := h.sim.alike.mutexAt_eq.trans h.init.sim.alike.mutexAt_eq.symm
  conds := h.sim.alike.waitersAt_eq.trans h.init.sim.alike.waitersAt_eq.symm

lemma step (h : Matched s₀ s e a) (hknown : Known s (t,act))
    (hs : traced SyncManager.next s (t,act) = some s') : ∃ e' a', Matched s₀ s' e' a' := by
  simp only [traced,Option.ite_none_right_eq_some] at hs
  obtain ⟨hop,hs⟩ := hs
  obtain ⟨sync,hnext,rfl⟩ := Option.map_eq_some_iff.mp hs
  by_cases hfound : Found s.sync (s.sync.pc t)
  · obtain ⟨a',ha,hsim⟩ := h.sim.next hop hfound hnext
    obtain ⟨e',hinit,hhistory⟩ := h.init.step hop ha
    refine ⟨e',a',hinit,hsim,?_⟩
    rw [hhistory,h.history,(hsim.alike.pcs t).events t act]
  · unfold Known at hknown
    split at hknown
    case h_1 addr hpc =>
      have hnone : s.sync.mutexes addr = none := by simpa [Found,hpc] using hfound
      cases act with
      | go late woken =>
        simp only [SyncManager.next,hpc,hnone,if_true] at hnext
        split_ifs at hnext
        obtain rfl := Option.some.inj hnext
        exact ⟨e,a,h.init,h.sim.create hpc,by simpa [events] using h.history⟩
      | _ => simp [SyncManager.next,hpc] at hnext
    case h_2 cond all hpc =>
      have hnone : s.sync.condvars cond = none := by simpa [Found,hpc] using hfound
      cases act with
      | go late woken =>
        simp only [SyncManager.next,hpc,hnone] at hnext
        obtain rfl := Option.some.inj hnext
        obtain ⟨a₁,a₂,hlook,hnotify,hpc₁,hpc₂,hsim⟩ := h.sim.signal hpc hnone late woken
        obtain ⟨e₁,hinit₁,hhistory₁⟩ := h.init.step hop hlook
        obtain ⟨e₂,hinit₂,hhistory₂⟩ := hinit₁.step hop hnotify
        refine ⟨e₂,a₂,hinit₂,hsim,?_⟩
        rw [hhistory₂,hhistory₁,hpc₁,hpc₂,h.history]
        simp [events]
      | _ => simp [SyncManager.next,hpc] at hnext
    case h_3 => exact absurd hknown hfound

end Matched

/-- In a run in which no call but a lock and a signal comes first on an object, all that is seen, and
every object, is as in a run in which calls initialise what they use. -/
theorem agree_initialised {s₀ : SyncManager} (hprepared : Prepared s₀) {s : Traced}
    (hs : Reach (traced SyncManager.next) (· = ⟨s₀,[]⟩) Known s) :
    ∃ e, Reach (traced nextInit) (· = ⟨s₀,[]⟩) (fun _ _ => True) e ∧ Agree s e := by
  have hmatched : ∃ e a, Matched s₀ s e a := by
    induction hs with
    | start h =>
      obtain ⟨a,hsim,hpc⟩ := hprepared.sim
      subst h
      exact ⟨⟨s₀,[]⟩,a,⟨.start rfl,hsim,fun u => by simp [hpc,Ready]⟩,hsim,rfl⟩
    | step _ hknown hstep ih =>
      obtain ⟨e,a,h⟩ := ih
      exact h.step hknown hstep
  obtain ⟨e,a,h⟩ := hmatched
  exact ⟨e,h.init.reach,h.agree⟩

/-- No call that initialises says that an object is not there. -/
lemma initialised_code {s₀ : SyncManager} (hprepared : Prepared s₀) {e : Traced}
    (he : Reach (traced nextInit) (· = ⟨s₀,[]⟩) (fun _ _ => True) e) (t : Tid) :
    .returned t 22 ∉ e.history := by
  have hinv : (∀ u, Ready e.sync (e.sync.pc u)) ∧ .returned t 22 ∉ e.history := by
    induction he with
    | start h =>
      obtain ⟨a,-,hpc⟩ := hprepared.sim
      subst h
      exact ⟨fun u => by simp [hpc,Ready],by simp⟩
    | @step s s' l _ _ hstep ih =>
      simp only [traced,Option.ite_none_right_eq_some] at hstep
      obtain ⟨hop,hstep⟩ := hstep
      obtain ⟨sync,hnext,rfl⟩ := Option.map_eq_some_iff.mp hstep
      have hready := ready_nextInit ih.1 hop hnext
      refine ⟨hready,?_⟩
      rw [List.mem_append,not_or]
      refine ⟨fun hevents => ?_,ih.2⟩
      have hcode := hready l.1
      rw [done_of_returned hevents] at hcode
      exact hcode rfl
  exact hinv.2

theorem agree_initialised_lock : ∃ s e : Traced,
    s.history = [.returned 1 0,.call 1 (.condSignal 16 true),.returned 0 0,
      .call 0 (.mutex .lock 8)] ∧
      Reach (traced nextInit) (· = ⟨.start,[]⟩) (fun _ _ => True) e ∧ Agree s e := by
  have hrun : ((Transition.exec (Transition.guarded (traced SyncManager.next) Known) ⟨.start,[]⟩
      [(0,.call (.mutex .lock 8)),(0,.go false 0),(0,.go false 0),(0,.go false 0),
        (1,.call (.condSignal 16 true)),(1,.go false 0)]).map Traced.history) =
      some [.returned 1 0,.call 1 (.condSignal 16 true),.returned 0 0,
        .call 0 (.mutex .lock 8)] := by decide
  obtain ⟨s,hexec,hhistory⟩ := Option.map_eq_some_iff.mp hrun
  obtain ⟨e,he,hagree⟩ := agree_initialised .start (.exec (.start rfl) hexec)
  exact ⟨s,e,hhistory,he,hagree⟩

/-- An attempt at a lock that comes first is turned down. -/
theorem not_agree_initialised : ¬∀ (s₀ : SyncManager) (s : Traced), Prepared s₀ →
    Reach (traced SyncManager.next) (· = ⟨s₀,[]⟩) (fun _ _ => True) s →
      ∃ e, Reach (traced nextInit) (· = ⟨s₀,[]⟩) (fun _ _ => True) e ∧ Agree s e := by
  intro hall
  have hrun : ((Transition.exec (Transition.guarded (traced SyncManager.next) fun _ _ => True)
      ⟨.start,[]⟩ [(0,.call (.mutex .trylock 8)),(0,.go false 0)]).map Traced.history) =
      some [.returned 0 22,.call 0 (.mutex .trylock 8)] := by decide
  obtain ⟨s,hexec,hhistory⟩ := Option.map_eq_some_iff.mp hrun
  obtain ⟨e,he,hagree⟩ := hall .start s .start (.exec (.start rfl) hexec)
  have hcode := initialised_code .start he 0
  rw [← hagree.history,hhistory] at hcode
  exact hcode (by simp)

end Unemups4.Kernel.StaticInit

import Unemups4.Transition

/-! The counting semaphores of the guest. The two registries hand out shared objects; a call
looks its object up in one critical section and works on the count in others, so that calls on
one semaphore interleave, also with a first use that creates it and with a timeout. -/
namespace Unemups4.Libs
open Transition

/-- The address of a POSIX semaphore or the handle of an SCE one, in registries of their own. -/
inductive SemName where
  | posix (sem : ℕ)
  | sce (id : ℕ)
  deriving DecidableEq, Repr

/-- A semaphore object, with the name and the count it was made with. -/
structure HostSem where
  name : SemName
  initial : ℤ
  count : ℤ
  deriving DecidableEq, Repr

def HostSem.new (name : SemName) (initial : ℤ) : HostSem := ⟨name,initial,initial⟩

/-- A sum of 64-bit signed words. -/
def wrapSigned (x : ℤ) : ℤ := x.bmod (2^64)

/-- What a call does with its object. -/
inductive SemOp where
  | wait (need : ℤ) (timed : Bool)
  | tryWait (need : ℤ)
  | signal (n : ℤ)
  deriving DecidableEq, Repr

/-- The calls of the guest, with the checks made on their other arguments: whether a deadline
could be read, an out-pointer written, a timeout read. -/
inductive SemCall where
  | semInit (sem : ℕ) (value : BitVec 32)
  | semWait (sem : ℕ)
  | semTrywait (sem : ℕ)
  | semTimedwait (sem : ℕ) (errno : Option ℕ)
  | semPost (sem : ℕ)
  | semDestroy (sem : ℕ)
  | createSema (init : BitVec 32) (out : Bool)
  | waitSema (id : ℕ) (need : BitVec 32) (timed : Bool)
  | signalSema (id : ℕ) (count : BitVec 32)
  | deleteSema (id : ℕ)
  deriving DecidableEq, Repr

/-- Where a thread stands: between calls, between the two halves of a creation, about to lock
the count of its object, or in a wait on its condition. -/
inductive SemPc where
  | idle
  | creating (id : ℕ) (init : ℤ)
  | ready (name : SemName) (obj : ℕ) (op : SemOp)
  | asleep (name : SemName) (obj : ℕ) (need : ℤ) (timed : Bool)
  deriving DecidableEq, Repr

/-- What a run has brought about. A wait that took its permits has returned. -/
inductive SemEvent where
  | took (t : ℕ) (name : SemName) (obj : ℕ) (n : ℤ)
  | signalled (t : ℕ) (name : SemName) (obj : ℕ) (n : ℤ)
  | failed (t : ℕ) (name : SemName) (code : ℕ)
  | defined (name : SemName)
  | dropped (name : SemName)
  deriving DecidableEq, Repr

/-- The objects in the order they were made, the registries, and the threads. -/
structure Sems where
  sems : List HostSem
  names : SemName → Option ℕ
  nextId : ℕ
  pc : ℕ → SemPc
  log : List SemEvent

def eagain : ℕ := 35

def esrch : ℕ := 0x80020003

/-- What a timeout returns, as an errno or as a code. -/
def timeoutCode : SemName → ℕ
  | .posix _ => 60
  | .sce _ => 0x8002003c

namespace Sems

variable (s : Sems)

def start : Sems := ⟨[],fun _ => none,1,fun _ => .idle,[]⟩

def goto (t : ℕ) (pc : SemPc) : Sems := { s with pc := Function.update s.pc t pc }

def record (e : SemEvent) : Sems := { s with log := e :: s.log }

def fail (t : ℕ) (name : SemName) (code : ℕ) : Sems := (s.goto t .idle).record (.failed t name code)

/-- A new object in place of any other of the name. -/
def define (name : SemName) (initial : ℤ) : Sems :=
  { s with
    sems := s.sems ++ [.new name initial]
    names := Function.update s.names name (some s.sems.length) }

def drop (name : SemName) : Sems :=
  { s with names := Function.update s.names name none }.record (.dropped name)

/-- Fetch the object of a name; a POSIX semaphore is made on first use, in the same critical
section. -/
def lookup (t : ℕ) (name : SemName) (op : SemOp) : Sems :=
  match s.names name with
  | some obj => s.goto t (.ready name obj op)
  | none =>
      match name with
      | .posix _ => (s.define name 0).goto t (.ready name s.sems.length op)
      | .sce _ => s.fail t name esrch

def call (t : ℕ) : SemCall → Sems
  | .semInit sem value => (s.define (.posix sem) value.toNat).record (.defined (.posix sem))
  | .semWait sem => s.lookup t (.posix sem) (.wait 1 false)
  | .semTrywait sem => s.lookup t (.posix sem) (.tryWait 1)
  | .semTimedwait sem none => s.lookup t (.posix sem) (.wait 1 true)
  | .semTimedwait sem (some errno) => s.fail t (.posix sem) errno
  | .semPost sem => s.lookup t (.posix sem) (.signal 1)
  | .semDestroy sem => s.drop (.posix sem)
  | .createSema init out =>
      if out then
        { s with nextId := (s.nextId+1) % 2^32 }.goto t (.creating s.nextId (max init.toInt 0))
      else s
  | .waitSema id need timed => s.lookup t (.sce id) (.wait (max need.toInt 1) timed)
  | .signalSema id count => s.lookup t (.sce id) (.signal (max count.toInt 1))
  | .deleteSema id => s.drop (.sce id)

/-- The count of an object after its lock is left. -/
def setCount (obj : ℕ) (h : HostSem) (count : ℤ) : Sems :=
  { s with sems := s.sems.set obj { h with count := wrapSigned count } }

/-- The permits are taken and the call returns. -/
def take (t : ℕ) (name : SemName) (obj : ℕ) (h : HostSem) (need : ℤ) : Sems :=
  ((s.setCount obj h (h.count-need)).goto t .idle).record (.took t name obj need)

/-- One pass of the loop of a wait, `late` when it finds its deadline passed. -/
def pass (t : ℕ) (name : SemName) (obj : ℕ) (h : HostSem) (need : ℤ) (timed late : Bool) : Sems :=
  if need ≤ h.count then s.take t name obj h need
  else if timed && late then s.fail t name (timeoutCode name)
  else s.goto t (.asleep name obj need timed)

/-- The first critical section on the count. -/
def enter (t : ℕ) (name : SemName) (obj : ℕ) (h : HostSem) (late : Bool) : SemOp → Sems
  | .wait need timed => s.pass t name obj h need timed late
  | .tryWait need =>
      if need ≤ h.count then s.take t name obj h need else s.fail t name eagain
  | .signal n =>
      ((s.setCount obj h (h.count+n)).goto t .idle).record (.signalled t name obj n)

/-- A wait comes back from the condition, notified, by its timeout or for no reason; the permits
are its own also when they came as the timeout fired. -/
def wake (t : ℕ) (name : SemName) (obj : ℕ) (h : HostSem) (need : ℤ) (timed timedOut late : Bool) :
    Sems :=
  if timed && timedOut && decide (h.count < need) then s.fail t name (timeoutCode name)
  else s.pass t name obj h need timed late

end Sems

/-- A critical section of a thread, with what it finds of the time. -/
inductive SemAct where
  | call (t : ℕ) (c : SemCall)
  | insert (t : ℕ)
  | enter (t : ℕ) (late : Bool)
  | wake (t : ℕ) (timedOut late : Bool)
  deriving DecidableEq, Repr

namespace Sems

def next (s : Sems) : SemAct → Option Sems
  | .call t c => if s.pc t = .idle then some (s.call t c) else none
  | .insert t =>
      match s.pc t with
      | .creating id init =>
          some (((s.define (.sce id) init).goto t .idle).record (.defined (.sce id)))
      | _ => none
  | .enter t late =>
      match s.pc t with
      | .ready name obj op => (s.sems[obj]?).map fun h => s.enter t name obj h late op
      | _ => none
  | .wake t timedOut late =>
      match s.pc t with
      | .asleep name obj need timed =>
          (s.sems[obj]?).map fun h => s.wake t name obj h need timed timedOut late
      | _ => none

end Sems

/-- The signal that a thread is about to give keeps the count within the signed words. -/
def SemPc.Fits (sems : List HostSem) : SemPc → Prop
  | ready _ obj (.signal n) => ∀ h ∈ sems[obj]?, h.count+n < 2^63
  | _ => True

instance (sems : List HostSem) : DecidablePred (SemPc.Fits sems)
  | .ready _ obj (.signal n) => inferInstanceAs (Decidable (∀ h ∈ sems[obj]?, h.count+n < 2^63))
  | .ready _ _ (.wait _ _) | .ready _ _ (.tryWait _) => .isTrue trivial
  | .idle | .creating _ _ | .asleep _ _ _ _ => .isTrue trivial

def Sems.SignalFits (s : Sems) : SemAct → Prop
  | .enter t _ => (s.pc t).Fits s.sems
  | _ => True

instance (s : Sems) : DecidablePred s.SignalFits
  | .enter t _ => inferInstanceAs (Decidable ((s.pc t).Fits s.sems))
  | .call _ _ | .insert _ | .wake _ _ _ => .isTrue trivial

/-- The permits that the events of the log moved, by an amount for each. -/
def permits (amount : SemEvent → ℤ) (log : List SemEvent) : ℤ := (log.map amount).sum

def SemEvent.takenFrom (obj : ℕ) : SemEvent → ℤ
  | .took _ _ o n => if o = obj then n else 0
  | _ => 0

def SemEvent.signalledTo (obj : ℕ) : SemEvent → ℤ
  | .signalled _ _ o n => if o = obj then n else 0
  | _ => 0

def SemEvent.takenVia (name : SemName) : SemEvent → ℤ
  | .took _ a _ n => if a = name then n else 0
  | _ => 0

def SemEvent.signalledVia (name : SemName) : SemEvent → ℤ
  | .signalled _ a _ n => if a = name then n else 0
  | _ => 0

@[simp] lemma permits_nil (amount : SemEvent → ℤ) : permits amount [] = 0 := rfl

@[simp] lemma permits_cons (amount : SemEvent → ℤ) (e : SemEvent) (log : List SemEvent) :
    permits amount (e :: log) = amount e+permits amount log := List.sum_cons

lemma wrapSigned_of_fits {x : ℤ} (h0 : 0 ≤ x) (h : x < 2^63) : wrapSigned x = x :=
  Int.bmod_eq_of_le_mul_two (by norm_num; omega) (by norm_num; omega)

namespace SemOp

/-- The amounts of a call are no debts. -/
def Sound : SemOp → Prop
  | wait need _ | tryWait need => 0 ≤ need
  | signal n => 0 ≤ n

end SemOp

namespace SemPc

/-- The object that a thread is at work on, and the name it was fetched by. -/
def target : SemPc → Option (SemName × ℕ)
  | ready name obj _ | asleep name obj _ _ => some (name,obj)
  | _ => none

def Sound : SemPc → Prop
  | creating _ init => 0 ≤ init ∧ init < 2^63
  | ready _ _ op => op.Sound
  | asleep _ _ need _ => 0 ≤ need
  | idle => True

lemma sound_idle : SemPc.idle.Sound := trivial

end SemPc

namespace Sems

/-- What a critical section does. -/
inductive Effect (s : Sems) : Sems → Prop
  /-- The thread moves on, or fails. -/
  | move {t nextId : ℕ} {pc : SemPc} {log : List SemEvent} (hsound : pc.Sound)
      (htarget : ∀ a o, pc.target = some (a,o) → s.names a = some o ∨ (s.pc t).target = some (a,o))
      (hlog : log = s.log ∨ ∃ u a code, log = .failed u a code :: s.log) :
      Effect s ⟨s.sems,s.names,nextId,Function.update s.pc t pc,log⟩
  /-- A first use makes the object. -/
  | first {t : ℕ} {name : SemName} {op : SemOp} (hop : op.Sound) (hname : s.names name = none) :
      Effect s ((s.define name 0).goto t (.ready name s.sems.length op))
  | define {pc : ℕ → SemPc} {name : SemName} {initial : ℤ} (h0 : 0 ≤ initial) (h : initial < 2^63)
      (hpc : ∀ t, pc t = s.pc t ∨ pc t = .idle) :
      Effect s (({ s with pc := pc }.define name initial).record (.defined name))
  | drop {name : SemName} : Effect s (s.drop name)
  | take {t : ℕ} {name : SemName} {obj : ℕ} {h : HostSem} {need : ℤ}
      (htarget : (s.pc t).target = some (name,obj)) (hobj : s.sems[obj]? = some h) (h0 : 0 ≤ need)
      (hneed : need ≤ h.count) : Effect s (s.take t name obj h need)
  | signal {t : ℕ} {name : SemName} {obj : ℕ} {h : HostSem} {n : ℤ}
      (htarget : (s.pc t).target = some (name,obj)) (hobj : s.sems[obj]? = some h) (h0 : 0 ≤ n)
      (hfits : h.count+n < 2^63) :
      Effect s (((s.setCount obj h (h.count+n)).goto t .idle).record (.signalled t name obj n))

variable {s s' : Sems} {t : ℕ}

lemma effect_fail {name : SemName} {code : ℕ} : Effect s (s.fail t name code) :=
  .move trivial (fun _ _ h => by cases h) (.inr ⟨t,name,code,rfl⟩)

lemma effect_self (hsound : (s.pc t).Sound) : Effect s s := by
  have h : Effect s ⟨s.sems,s.names,s.nextId,Function.update s.pc t (s.pc t),s.log⟩ :=
    .move hsound (fun _ _ h => .inr h) (.inl rfl)
  rwa [Function.update_eq_self] at h

lemma effect_lookup {name : SemName} {op : SemOp} (hop : op.Sound) :
    Effect s (s.lookup t name op) := by
  unfold lookup
  cases hname : s.names name with
  | some obj =>
    refine .move hop (fun a o h => ?_) (.inl rfl)
    obtain ⟨rfl,rfl⟩ : name = a ∧ obj = o := by simpa [SemPc.target] using h
    exact .inl hname
  | none =>
    cases name with
    | posix sem => exact .first hop hname
    | sce id => exact effect_fail

lemma effect_call (hidle : s.pc t = .idle) (c : SemCall) : Effect s (s.call t c) := by
  have hone : (0 : ℤ) ≤ 1 := by decide
  cases c with
  | semInit sem value =>
    have hlt := value.isLt
    exact .define (by omega) (by omega) fun u => .inl rfl
  | semWait sem => exact effect_lookup hone
  | semTrywait sem => exact effect_lookup hone
  | semTimedwait sem errno =>
    cases errno with
    | none => exact effect_lookup hone
    | some errno => exact effect_fail
  | semPost sem => exact effect_lookup hone
  | semDestroy sem => exact .drop
  | createSema init out =>
    have hlt : init.toInt < 2^63 := by have := init.toInt_lt; omega
    simp only [call]
    split_ifs
    · exact .move ⟨le_max_right _ _,max_lt hlt (by decide)⟩ (fun _ _ h => by cases h) (.inl rfl)
    · exact effect_self (t := t) (hidle ▸ trivial)
  | waitSema id need timed => exact effect_lookup (hone.trans (le_max_right _ _))
  | signalSema id count => exact effect_lookup (hone.trans (le_max_right _ _))
  | deleteSema id => exact .drop

lemma effect_pass {name : SemName} {obj : ℕ} {h : HostSem} {need : ℤ} {timed late : Bool}
    (htarget : (s.pc t).target = some (name,obj)) (hobj : s.sems[obj]? = some h) (h0 : 0 ≤ need) :
    Effect s (s.pass t name obj h need timed late) := by
  unfold pass
  split_ifs with hneed
  · exact .take htarget hobj h0 hneed
  · exact effect_fail
  · refine .move h0 (fun a o hat => ?_) (.inl rfl)
    exact .inr (htarget.trans hat)

/-- The effect of a step of a sound thread whose signal fits. -/
lemma next_effect {act : SemAct} (hpc : ∀ t, (s.pc t).Sound) (hfits : s.SignalFits act)
    (h : s.next act = some s') : Effect s s' := by
  cases act with
  | call t c =>
    simp only [next] at h
    split_ifs at h with hidle
    obtain rfl := Option.some.inj h
    exact effect_call hidle c
  | insert t =>
    have hsound := hpc t
    simp only [next] at h
    cases hat : s.pc t with
    | creating id init =>
      rw [hat] at h hsound
      obtain rfl := Option.some.inj h
      have hmove : ∀ u, Function.update s.pc t .idle u = s.pc u ∨
          Function.update s.pc t .idle u = .idle := by
        intro u
        by_cases hu : u = t
        · exact .inr (by rw [hu, Function.update_self])
        · exact .inl (Function.update_of_ne hu _ _)
      exact .define hsound.1 hsound.2 hmove
    | _ => simp [hat] at h
  | enter t late =>
    have hsound := hpc t
    simp only [next] at h
    cases hat : s.pc t with
    | ready name obj op =>
      rw [hat] at h hsound
      obtain ⟨sem,hobj,rfl⟩ := Option.map_eq_some_iff.mp h
      have htarget : (s.pc t).target = some (name,obj) := by rw [hat]; rfl
      cases op with
      | wait need timed => exact effect_pass htarget hobj hsound
      | tryWait need =>
        simp only [enter]
        split_ifs with hneed
        · exact .take htarget hobj hsound hneed
        · exact effect_fail
      | signal n =>
        have hfits : (s.pc t).Fits s.sems := hfits
        rw [hat] at hfits
        exact .signal htarget hobj hsound (hfits sem hobj)
    | _ => simp [hat] at h
  | wake t timedOut late =>
    have hsound := hpc t
    simp only [next] at h
    cases hat : s.pc t with
    | asleep name obj need timed =>
      rw [hat] at h hsound
      obtain ⟨sem,hobj,rfl⟩ := Option.map_eq_some_iff.mp h
      have htarget : (s.pc t).target = some (name,obj) := by rw [hat]; rfl
      simp only [wake]
      split_ifs
      · exact effect_fail
      · exact effect_pass htarget hobj hsound
    | _ => simp [hat] at h

end Sems

/-- The object that an event moved permits of, and the name it was fetched by. -/
def SemEvent.moves : SemEvent → Option (SemName × ℕ)
  | .took _ a o _ | .signalled _ a o _ => some (a,o)
  | _ => none

lemma takenFrom_eq_zero {e : SemEvent} {o : ℕ} (h : ∀ a, e.moves ≠ some (a,o)) :
    e.takenFrom o = 0 := by
  cases e with
  | took t a o' n => exact if_neg fun ho => h a (by rw [SemEvent.moves, ho])
  | _ => rfl

lemma signalledTo_eq_zero {e : SemEvent} {o : ℕ} (h : ∀ a, e.moves ≠ some (a,o)) :
    e.signalledTo o = 0 := by
  cases e with
  | signalled t a o' n => exact if_neg fun ho => h a (by rw [SemEvent.moves, ho])
  | _ => rfl

lemma permits_congr {f g : SemEvent → ℤ} {log : List SemEvent} (h : ∀ e ∈ log, f e = g e) :
    permits f log = permits g log := by
  rw [permits, permits, List.map_congr_left h]

lemma permits_eq_zero {f : SemEvent → ℤ} {log : List SemEvent} (h : ∀ e ∈ log, f e = 0) :
    permits f log = 0 := by
  induction log with
  | nil => rfl
  | cons e log ih =>
    rw [permits_cons, h e List.mem_cons_self, ih fun e' he' => h e' (List.mem_cons_of_mem _ he')]
    rfl

namespace Sems

def HasName (s : Sems) (a : SemName) (o : ℕ) : Prop := ∃ h, s.sems[o]? = some h ∧ h.name = a

/-- A thread, a registry or an event knows an object by a name. -/
def Mentions (s : Sems) (a : SemName) (o : ℕ) : Prop :=
  (∃ t, (s.pc t).target = some (a,o)) ∨ s.names a = some o ∨ ∃ e ∈ s.log, e.moves = some (a,o)

/-- No object of the name was made but by a first use, and none was dropped. -/
def OnlyUsed (s : Sems) (a : SemName) : Prop := ∀ e ∈ s.log, e ≠ .defined a ∧ e ≠ .dropped a

/-- The permits of every object are accounted for; an object goes by its one name, and of a name
that was only used there is one object, made with no permits. -/
structure Conserved (s : Sems) : Prop where
  count : ∀ o h, s.sems[o]? = some h → 0 ≤ h.count ∧ h.count < 2^63 ∧
    h.initial+permits (SemEvent.signalledTo o) s.log =
      permits (SemEvent.takenFrom o) s.log+h.count
  pcs : ∀ t, (s.pc t).Sound
  named : ∀ a o, s.Mentions a o → s.HasName a o
  lone : ∀ a, s.OnlyUsed a → ∀ o h, s.sems[o]? = some h → h.name = a →
    s.names a = some o ∧ h.initial = 0

section Tables

variable {s s' : Sems} {a : SemName} {o : ℕ}

lemma getElem?_define {name : SemName} {initial : ℤ} {h : HostSem}
    (ho : (s.define name initial).sems[o]? = some h) :
    s.sems[o]? = some h ∨ o = s.sems.length ∧ h = .new name initial := by
  simp only [define] at ho
  rcases lt_or_ge o s.sems.length with hlt | hge
  · rw [List.getElem?_append_left hlt] at ho
    exact .inl ho
  · rw [List.getElem?_append_right hge] at ho
    obtain ⟨hlt,rfl⟩ := List.getElem?_eq_some_iff.mp ho
    rw [List.length_singleton] at hlt
    exact .inr ⟨by omega,by simp⟩

lemma HasName.define {name : SemName} {initial : ℤ} (h : s.HasName a o) :
    (s.define name initial).HasName a o := by
  obtain ⟨sem,ho,rfl⟩ := h
  have hlt := (List.getElem?_eq_some_iff.mp ho).1
  exact ⟨sem,by rw [Sems.define, List.getElem?_append_left hlt, ho],rfl⟩

lemma hasName_define (name : SemName) (initial : ℤ) :
    (s.define name initial).HasName name s.sems.length :=
  ⟨.new name initial,by simp [Sems.define],rfl⟩

lemma getElem?_setCount {obj : ℕ} {sem h : HostSem} {count : ℤ} (hobj : s.sems[obj]? = some sem)
    (ho : (s.setCount obj sem count).sems[o]? = some h) :
    o = obj ∧ h = { sem with count := wrapSigned count } ∨ o ≠ obj ∧ s.sems[o]? = some h := by
  have hlt := (List.getElem?_eq_some_iff.mp hobj).1
  by_cases heq : o = obj
  · subst heq
    rw [setCount, List.getElem?_set_self hlt] at ho
    exact .inl ⟨rfl,(Option.some.inj ho).symm⟩
  · rw [setCount, List.getElem?_set_ne (Ne.symm heq)] at ho
    exact .inr ⟨heq,ho⟩

lemma HasName.setCount {obj : ℕ} {sem : HostSem} {count : ℤ} (hobj : s.sems[obj]? = some sem)
    (h : s.HasName a o) : (s.setCount obj sem count).HasName a o := by
  obtain ⟨sem',ho,rfl⟩ := h
  have hlt := (List.getElem?_eq_some_iff.mp hobj).1
  by_cases heq : obj = o
  · subst heq
    obtain rfl := Option.some.inj (hobj.symm.trans ho)
    exact ⟨_,List.getElem?_set_self hlt,rfl⟩
  · exact ⟨sem',by rw [Sems.setCount, List.getElem?_set_ne heq, ho],rfl⟩

/-- No object loses its name. -/
lemma Effect.hasName (h : Effect s s') (ha : s.HasName a o) : s'.HasName a o := by
  cases h with
  | move => exact ha
  | first => exact ha.define
  | define => exact HasName.define (s := { s with pc := _ }) ha
  | drop => exact ha
  | take _ hobj => exact ha.setCount hobj
  | signal _ hobj => exact ha.setCount hobj

/-- A thread that moves knows nothing that was not known. -/
lemma target_goto {t u : ℕ} {pc : SemPc} (hpc : ∀ a o, pc.target = some (a,o) → s.Mentions a o)
    (h : (Function.update s.pc t pc u).target = some (a,o)) : s.Mentions a o := by
  by_cases hu : u = t
  · rw [hu, Function.update_self] at h
    exact hpc a o h
  · rw [Function.update_of_ne hu] at h
    exact .inl ⟨u,h⟩

lemma names_define {name : SemName} {initial : ℤ} (h : (s.define name initial).names a = some o) :
    s.names a = some o ∨ (s.define name initial).HasName a o := by
  by_cases ha : a = name
  · subst ha
    simp only [define, Function.update_self] at h
    obtain rfl := Option.some.inj h
    exact .inr (hasName_define a initial)
  · simp only [define, Function.update_of_ne ha] at h
    exact .inl h

lemma log_cons {e : SemEvent} (he : ∀ a o, e.moves = some (a,o) → s.Mentions a o)
    (h : ∃ e' ∈ e :: s.log, e'.moves = some (a,o)) : s.Mentions a o := by
  obtain ⟨e',hmem,hmoves⟩ := h
  rcases List.mem_cons.mp hmem with rfl | hmem
  · exact he a o hmoves
  · exact .inr (.inr ⟨e',hmem,hmoves⟩)

/-- What is known after a step was known before, or is the object just made. -/
lemma Effect.mentions (h : Effect s s') (ha : s'.Mentions a o) :
    s.Mentions a o ∨ s'.HasName a o := by
  have hidle : ∀ a o, SemPc.idle.target = some (a,o) → s.Mentions a o := fun _ _ h => by cases h
  cases h with
  | @move t nextId pc log hsound htarget hlog =>
    refine .inl ?_
    rcases ha with ⟨u,hu⟩ | hnames | hevent
    · refine target_goto (fun a o h => ?_) hu
      rcases htarget a o h with h | h
      · exact .inr (.inl h)
      · exact .inl ⟨t,h⟩
    · exact .inr (.inl hnames)
    · rcases hlog with rfl | ⟨u,b,code,rfl⟩
      · exact .inr (.inr hevent)
      · exact log_cons (fun _ _ h => by cases h) hevent
  | @first t name op hop hname =>
    rcases ha with ⟨u,hu⟩ | hnames | hevent
    · by_cases hut : u = t
      · simp only [hut, goto, Function.update_self] at hu
        obtain ⟨rfl,rfl⟩ : name = a ∧ s.sems.length = o := by simpa [SemPc.target] using hu
        exact .inr (hasName_define name 0)
      · simp only [goto, Function.update_of_ne hut] at hu
        exact .inl (.inl ⟨u,hu⟩)
    · exact (names_define hnames).imp_left fun h => .inr (.inl h)
    · exact .inl (.inr (.inr hevent))
  | @define pc name initial h0 h hpc =>
    rcases ha with ⟨u,hu⟩ | hnames | hevent
    · rcases hpc u with heq | heq
      · exact .inl (.inl ⟨u,heq ▸ hu⟩)
      · exact .inl (hidle a o (heq ▸ hu))
    · exact (names_define (s := { s with pc := pc }) hnames).imp_left fun h => .inr (.inl h)
    · exact .inl (log_cons (fun _ _ h => by cases h) hevent)
  | @drop name =>
    refine .inl ?_
    rcases ha with ht | hnames | hevent
    · exact .inl ht
    · refine .inr (.inl ?_)
      by_cases ha : a = name
      · simp [Sems.drop, record, ha] at hnames
      · simpa [Sems.drop, record, ha] using hnames
    · exact log_cons (fun _ _ h => by cases h) hevent
  | @take t name obj sem need htarget =>
    refine .inl ?_
    rcases ha with ⟨u,hu⟩ | hnames | hevent
    · exact target_goto hidle hu
    · exact .inr (.inl hnames)
    · refine log_cons (fun a o h => ?_) hevent
      exact .inl ⟨t,htarget.trans h⟩
  | @signal t name obj sem n htarget =>
    refine .inl ?_
    rcases ha with ⟨u,hu⟩ | hnames | hevent
    · exact target_goto hidle hu
    · exact .inr (.inl hnames)
    · refine log_cons (fun a o h => ?_) hevent
      exact .inl ⟨t,htarget.trans h⟩

/-- The objects whose permits a step moved are named by its event. -/
lemma Effect.sems (h : Effect s s') {h' : HostSem} (ho : s.sems[o]? = some h') :
    s'.sems[o]? = some h' ∨ ∃ t a n,
      s'.log = .took t a o n :: s.log ∨ s'.log = .signalled t a o n :: s.log := by
  have hlt := (List.getElem?_eq_some_iff.mp ho).1
  cases h with
  | move => exact .inl ho
  | first => exact .inl (by simp [goto, Sems.define, List.getElem?_append_left hlt, ho])
  | define => exact .inl (by simp [record, Sems.define, List.getElem?_append_left hlt, ho])
  | drop => exact .inl ho
  | @take t name obj sem need _ hobj =>
    by_cases heq : obj = o
    · subst heq
      exact .inr ⟨t,name,need,.inl rfl⟩
    · exact .inl (by simp [Sems.take, record, goto, setCount, List.getElem?_set_ne heq, ho])
  | @signal t name obj sem n _ hobj =>
    by_cases heq : obj = o
    · subst heq
      exact .inr ⟨t,name,n,.inr rfl⟩
    · exact .inl (by simp [record, goto, setCount, List.getElem?_set_ne heq, ho])

end Tables

namespace Conserved

variable {s s' : Sems} {act : SemAct}

lemma start : Conserved .start where
  count o h ho := by cases ho
  pcs t := trivial
  named a o h := by
    rcases h with ⟨t,ht⟩ | hnames | ⟨e,he,-⟩
    · cases ht
    · cases hnames
    · cases he
  lone a _ o h ho := by cases ho

/-- No permits were moved of an object that is not there. -/
lemma permits_absent (h : Conserved s) {o : ℕ} (ho : s.sems[o]? = none) :
    permits (SemEvent.signalledTo o) s.log = 0 ∧ permits (SemEvent.takenFrom o) s.log = 0 := by
  have habsent : ∀ e ∈ s.log, ∀ a, e.moves ≠ some (a,o) := by
    intro e he a hmoves
    obtain ⟨sem,hsem,-⟩ := h.named a o (.inr (.inr ⟨e,he,hmoves⟩))
    simp [ho] at hsem
  exact ⟨permits_eq_zero fun e he => signalledTo_eq_zero (habsent e he),
    permits_eq_zero fun e he => takenFrom_eq_zero (habsent e he)⟩

/-- A new object holds the permits that it was made with. -/
lemma count_define (h : Conserved s) {name : SemName} {initial : ℤ} (h0 : 0 ≤ initial)
    (hlt : initial < 2^63) {o : ℕ} {sem : HostSem}
    (ho : (s.define name initial).sems[o]? = some sem) : 0 ≤ sem.count ∧ sem.count < 2^63 ∧
      sem.initial+permits (SemEvent.signalledTo o) s.log =
        permits (SemEvent.takenFrom o) s.log+sem.count := by
  rcases getElem?_define ho with ho | ⟨rfl,rfl⟩
  · exact h.count o sem ho
  · obtain ⟨hsignalled,htaken⟩ := h.permits_absent (o := s.sems.length) (by simp)
    rw [hsignalled, htaken]
    exact ⟨h0,hlt,by simp [HostSem.new]⟩

lemma count_step (h : Conserved s) (heffect : Effect s s') (o : ℕ) (sem : HostSem)
    (ho : s'.sems[o]? = some sem) : 0 ≤ sem.count ∧ sem.count < 2^63 ∧
      sem.initial+permits (SemEvent.signalledTo o) s'.log =
        permits (SemEvent.takenFrom o) s'.log+sem.count := by
  cases heffect with
  | move hsound htarget hlog =>
    have hcount := h.count o sem ho
    rcases hlog with rfl | ⟨u,b,code,rfl⟩
    · exact hcount
    · simpa [SemEvent.signalledTo, SemEvent.takenFrom] using hcount
  | first => exact h.count_define le_rfl (by decide) ho
  | @define pc name initial h0 hlt =>
    have ho' : (s.define name initial).sems[o]? = some sem := ho
    have hcount := h.count_define h0 hlt ho'
    simpa [record, Sems.define, SemEvent.signalledTo, SemEvent.takenFrom] using hcount
  | drop =>
    have hcount := h.count o sem ho
    simpa [Sems.drop, record, SemEvent.signalledTo, SemEvent.takenFrom] using hcount
  | @take t name obj sem' need htarget hobj h0 hneed =>
    have hlog : (s.take t name obj sem' need).log = .took t name obj need :: s.log := rfl
    obtain ⟨hpos,hlt,hsum⟩ := h.count obj sem' hobj
    rcases getElem?_setCount hobj ho with ⟨rfl,rfl⟩ | ⟨hne,ho⟩
    · have hwrap : wrapSigned (sem'.count-need) = sem'.count-need :=
        wrapSigned_of_fits (by omega) (by omega)
      simp only [hlog, hwrap, permits_cons, SemEvent.signalledTo, SemEvent.takenFrom, if_true]
      omega
    · simpa [hlog, SemEvent.signalledTo, SemEvent.takenFrom, Ne.symm hne] using h.count o sem ho
  | @signal t name obj sem' n htarget hobj h0 hfits =>
    have hlog : (((s.setCount obj sem' (sem'.count+n)).goto t .idle).record
        (.signalled t name obj n)).log = .signalled t name obj n :: s.log := rfl
    obtain ⟨hpos,hlt,hsum⟩ := h.count obj sem' hobj
    rcases getElem?_setCount hobj ho with ⟨rfl,rfl⟩ | ⟨hne,ho⟩
    · have hwrap : wrapSigned (sem'.count+n) = sem'.count+n :=
        wrapSigned_of_fits (by omega) hfits
      simp only [hlog, hwrap, permits_cons, SemEvent.signalledTo, SemEvent.takenFrom, if_true]
      omega
    · simpa [hlog, SemEvent.signalledTo, SemEvent.takenFrom, Ne.symm hne] using h.count o sem ho

lemma pcs_goto (h : Conserved s) {t : ℕ} {pc : SemPc} (hpc : pc.Sound) (u : ℕ) :
    (Function.update s.pc t pc u).Sound := by
  by_cases hu : u = t
  · rw [hu, Function.update_self]
    exact hpc
  · rw [Function.update_of_ne hu]
    exact h.pcs u

lemma pcs_step (h : Conserved s) (heffect : Effect s s') (u : ℕ) : (s'.pc u).Sound := by
  cases heffect with
  | move hsound => exact h.pcs_goto hsound u
  | @first t name op hop =>
    exact h.pcs_goto (show SemPc.Sound (.ready name s.sems.length op) from hop) u
  | @define pc _ _ _ _ hpc =>
    show (pc u).Sound
    rcases hpc u with heq | heq
    · exact heq ▸ h.pcs u
    · exact heq ▸ SemPc.sound_idle
  | drop => exact h.pcs u
  | take => exact h.pcs_goto SemPc.sound_idle u
  | signal => exact h.pcs_goto SemPc.sound_idle u

/-- Fewer events, fewer definitions. -/
lemma onlyUsed_of_cons {a : SemName} {e : SemEvent} (h : s'.OnlyUsed a)
    (hlog : s'.log = e :: s.log) : s.OnlyUsed a := fun e' he' =>
  h e' (hlog ▸ List.mem_cons_of_mem _ he')

/-- The lone object of a name that is only used stays the one. -/
lemma lone_step (h : Conserved s) (heffect : Effect s s') (a : SemName) (hused : s'.OnlyUsed a)
    (o : ℕ) (sem : HostSem) (ho : s'.sems[o]? = some sem) (hname : sem.name = a) :
    s'.names a = some o ∧ sem.initial = 0 := by
  cases heffect with
  | move hsound htarget hlog =>
    refine h.lone a ?_ o sem ho hname
    rcases hlog with rfl | ⟨u,b,code,rfl⟩
    · exact hused
    · exact onlyUsed_of_cons hused rfl
  | @first t name op hop hnone =>
    rcases getElem?_define ho with ho | ⟨rfl,rfl⟩
    · obtain ⟨hold,hinitial⟩ := h.lone a hused o sem ho hname
      have hne : a ≠ name := by
        rintro rfl
        simp [hnone] at hold
      exact ⟨by simpa [goto, Sems.define, hne] using hold,hinitial⟩
    · obtain rfl : name = a := hname
      exact ⟨by simp [goto, Sems.define],rfl⟩
  | @define pc name initial =>
    have hne : a ≠ name := by
      rintro rfl
      exact (hused _ List.mem_cons_self).1 rfl
    rcases getElem?_define (s := { s with pc := pc }) ho with ho | ⟨-,rfl⟩
    · obtain ⟨hold,hinitial⟩ := h.lone a (onlyUsed_of_cons hused rfl) o sem ho hname
      exact ⟨by simpa [record, Sems.define, hne] using hold,hinitial⟩
    · exact absurd hname.symm hne
  | @drop name =>
    have hne : a ≠ name := by
      rintro rfl
      exact (hused _ List.mem_cons_self).2 rfl
    obtain ⟨hold,hinitial⟩ := h.lone a (onlyUsed_of_cons hused rfl) o sem ho hname
    exact ⟨by simpa [Sems.drop, record, hne] using hold,hinitial⟩
  | @take t name obj sem' need htarget hobj =>
    have hused' := onlyUsed_of_cons hused rfl
    rcases getElem?_setCount hobj ho with ⟨rfl,rfl⟩ | ⟨-,ho⟩
    · exact h.lone a hused' o sem' hobj hname
    · exact h.lone a hused' o sem ho hname
  | @signal t name obj sem' n htarget hobj =>
    have hused' := onlyUsed_of_cons hused rfl
    rcases getElem?_setCount hobj ho with ⟨rfl,rfl⟩ | ⟨-,ho⟩
    · exact h.lone a hused' o sem' hobj hname
    · exact h.lone a hused' o sem ho hname

lemma step (h : Conserved s) (hfits : s.SignalFits act) (hnext : s.next act = some s') :
    Conserved s' := by
  have heffect := next_effect h.pcs hfits hnext
  refine ⟨h.count_step heffect,h.pcs_step heffect,fun a o ha => ?_,h.lone_step heffect⟩
  rcases heffect.mentions ha with hold | hnew
  · exact heffect.hasName (h.named a o hold)
  · exact hnew

/-- Of a name that is only used, the events via the name are those of its object. -/
lemma moves_iff (h : Conserved s) {a : SemName} (hused : s.OnlyUsed a) {o : ℕ}
    (hname : s.names a = some o) {e : SemEvent} (he : e ∈ s.log) {b : SemName} {o' : ℕ}
    (hmoves : e.moves = some (b,o')) : b = a ↔ o' = o := by
  obtain ⟨sem,hsem,hb⟩ := h.named b o' (.inr (.inr ⟨e,he,hmoves⟩))
  obtain ⟨sem',hsem',ha⟩ := h.named a o (.inr (.inl hname))
  constructor
  · rintro rfl
    have := (h.lone b hused o' sem hsem hb).1
    exact Option.some.inj (this.symm.trans hname)
  · rintro rfl
    rw [← hb, ← ha, Option.some.inj (hsem.symm.trans hsem')]

end Conserved

/-- The count of the semaphore that a name stands for, zero before its first use. -/
def countAt (s : Sems) (a : SemName) : ℤ := ((s.names a).bind (s.sems[·]?)).elim 0 HostSem.count

lemma Conserved.countAt {s : Sems} (h : Conserved s) {a : SemName} (hused : s.OnlyUsed a) :
    permits (SemEvent.signalledVia a) s.log =
      permits (SemEvent.takenVia a) s.log+s.countAt a := by
  cases hname : s.names a with
  | some o =>
    obtain ⟨sem,hsem,ha⟩ := h.named a o (.inr (.inl hname))
    have hcount := (h.count o sem hsem).2.2
    have hinitial := (h.lone a hused o sem hsem ha).2
    have hsignalled : permits (SemEvent.signalledVia a) s.log =
        permits (SemEvent.signalledTo o) s.log := by
      refine permits_congr fun e he => ?_
      cases e with
      | signalled t b o' n =>
        simp only [SemEvent.signalledVia, SemEvent.signalledTo, h.moves_iff hused hname he rfl]
      | _ => rfl
    have htaken : permits (SemEvent.takenVia a) s.log = permits (SemEvent.takenFrom o) s.log := by
      refine permits_congr fun e he => ?_
      cases e with
      | took t b o' n =>
        simp only [SemEvent.takenVia, SemEvent.takenFrom, h.moves_iff hused hname he rfl]
      | _ => rfl
    have hat : s.countAt a = sem.count := by simp [Sems.countAt, hname, hsem]
    rw [hsignalled, htaken, hat]
    omega
  | none =>
    have hnone : ∀ e ∈ s.log, ∀ o, e.moves ≠ some (a,o) := by
      intro e he o hmoves
      obtain ⟨sem,hsem,ha⟩ := h.named a o (.inr (.inr ⟨e,he,hmoves⟩))
      have hold := (h.lone a hused o sem hsem ha).1
      simp [hname] at hold
    have hsignalled : permits (SemEvent.signalledVia a) s.log = 0 := by
      refine permits_eq_zero fun e he => ?_
      cases e with
      | signalled t b o n => exact if_neg fun hb => hnone _ he o (by rw [SemEvent.moves, hb])
      | _ => rfl
    have htaken : permits (SemEvent.takenVia a) s.log = 0 := by
      refine permits_eq_zero fun e he => ?_
      cases e with
      | took t b o n => exact if_neg fun hb => hnone _ he o (by rw [SemEvent.moves, hb])
      | _ => rfl
    rw [hsignalled, htaken]
    simp [Sems.countAt, hname]

end Sems

open Sems in
/-- In every run whose signals fit the words, no count is negative and each object's permits are
conserved, whoever uses it; so are those of an address that is only used, whichever thread was
first; and only a wait that returns with its permits, or a signal, changes a count. -/
theorem permits_conserved {s : Sems} (hs : Reach next (· = .start) SignalFits s) :
    (∀ o h, s.sems[o]? = some h → 0 ≤ h.count ∧
      h.initial+permits (SemEvent.signalledTo o) s.log =
        permits (SemEvent.takenFrom o) s.log+h.count) ∧
      (∀ a, s.OnlyUsed a → permits (SemEvent.signalledVia a) s.log =
        permits (SemEvent.takenVia a) s.log+s.countAt a) ∧
      ∀ act s', s.SignalFits act → s.next act = some s' → ∀ o h, s.sems[o]? = some h →
        s'.sems[o]? = some h ∨ ∃ t a n,
          s'.log = .took t a o n :: s.log ∨ s'.log = .signalled t a o n :: s.log := by
  have h : Conserved s := hs.invariant
    (fun s (hstart : s = .start) => hstart ▸ Conserved.start)
    fun s act s' hs hfits hnext => hs.step hfits hnext
  refine ⟨fun o sem ho => ?_,fun a hused => h.countAt hused,fun act s' hfits hnext o sem ho => ?_⟩
  · obtain ⟨hpos,-,hsum⟩ := h.count o sem ho
    exact ⟨hpos,hsum⟩
  · exact (next_effect h.pcs hfits hnext).sems ho

/-- A wait on a new address sleeps, and takes the permit that is posted there. -/
def racingPost : Option Sems :=
  exec (guarded Sems.next Sems.SignalFits) .start
    [.call 1 (.semPost 7),.call 2 (.semWait 7),.enter 2 false,.enter 1 false,.wake 2 false false]

theorem permits_conserved_race : ∃ s, racingPost = some s ∧
    permits (SemEvent.signalledVia (.posix 7)) s.log =
      permits (SemEvent.takenVia (.posix 7)) s.log+s.countAt (.posix 7) := by
  have hlog : racingPost.map Sems.log =
      some [.took 2 (.posix 7) 0 1,.signalled 1 (.posix 7) 0 1] := rfl
  obtain ⟨s,hs,hlog⟩ := Option.map_eq_some_iff.mp hlog
  have hused : s.OnlyUsed (.posix 7) := by simp [Sems.OnlyUsed, hlog]
  exact ⟨s,hs,(permits_conserved (.exec (.start rfl) hs)).2.1 _ hused⟩

section Overflow
open Sems

abbrev Runs : Sems → Prop := Reach next (· = .start) fun _ _ => True

/-- A semaphore of one thread, with the handle 1. -/
structure Alone (s : Sems) (count : ℤ) : Prop where
  runs : Runs s
  names : s.names (.sce 1) = some 0
  sems : s.sems = [⟨.sce 1,2^31-1,count⟩]
  pc : s.pc 0 = .idle

variable {s : Sems} {count : ℤ}

lemma alone_create : ∃ s, Alone s (2^31-1) := by
  have hcall : Runs (start.call 0 (.createSema 0x7fffffff true)) :=
    .step (l := .call 0 _) (.start rfl) trivial rfl
  exact ⟨_,.step (l := .insert 0) hcall trivial rfl,rfl,rfl,rfl⟩

lemma Alone.signal (h : Alone s count) : ∃ s', Alone s' (wrapSigned (count+(2^31-1))) := by
  have hcall : s.next (.call 0 (.signalSema 1 0x7fffffff)) =
      some (s.goto 0 (.ready (.sce 1) 0 (.signal (2^31-1)))) := by
    simp [next, h.pc, call, lookup, h.names]
  have henter : (s.goto 0 (.ready (.sce 1) 0 (.signal (2^31-1)))).next (.enter 0 false) =
      some ((s.goto 0 (.ready (.sce 1) 0 (.signal (2^31-1)))).enter 0 (.sce 1) 0
        ⟨.sce 1,2^31-1,count⟩ false (.signal (2^31-1))) := by
    simp [next, goto, h.sems]
  refine ⟨_,.step (.step h.runs trivial hcall) trivial henter,h.names,?_,?_⟩
  · simp [enter, setCount, goto, record, h.sems]
  · simp [enter, setCount, goto, record]

lemma Alone.signals (h : Alone s count) (h0 : 0 ≤ count) (k : ℕ)
    (hk : count+k*(2^31-1) < 2^63) : ∃ s', Alone s' (count+k*(2^31-1)) := by
  induction k with
  | zero => exact ⟨s,by simpa using h⟩
  | succ k ih =>
    push_cast at hk
    obtain ⟨s',hs'⟩ := ih (by omega)
    obtain ⟨s'',hs''⟩ := hs'.signal
    have hsum : count+((k+1 : ℕ) : ℤ)*(2^31-1) = count+k*(2^31-1)+(2^31-1) := by
      push_cast
      ring
    rw [wrapSigned_of_fits (by omega) (by omega)] at hs''
    exact ⟨s'',hsum ▸ hs''⟩

/-- Signals of the largest amount make the count negative after four thousand millions. -/
theorem permits_not_conserved : ¬∀ s, Runs s → ∀ o h, s.sems[o]? = some h → 0 ≤ h.count ∧
    h.initial+permits (SemEvent.signalledTo o) s.log =
      permits (SemEvent.takenFrom o) s.log+h.count := by
  intro hall
  obtain ⟨s,hs⟩ := alone_create
  obtain ⟨s',hs'⟩ := hs.signals (by norm_num) (2^32+1) (by norm_num)
  obtain ⟨s'',hs''⟩ := hs'.signal
  have hpos := (hall s'' hs''.runs 0 _ (by rw [hs''.sems]; rfl)).1
  norm_num [wrapSigned, Int.bmod] at hpos

end Overflow

end Unemups4.Libs

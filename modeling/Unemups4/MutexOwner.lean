import Unemups4.SyncLocks

/-! Who owns a mutex, and how often. While no mutex is destroyed in use and no count runs over,
the count of a mutex is the balance of its owner, and every other thread has none. -/
namespace Unemups4.Kernel

namespace HostMutexState

variable (st : HostMutexState) (t : Tid)

/-- A mutex is owned exactly while it is counted. -/
def Sound : Prop := st.owner = none ↔ st.locks = 0

def countOf : ℕ := if st.owner = some t then st.locks.toNat else 0

/-- A relock that succeeds at the full count. -/
def Overflows (call : MutexCall) (expired late : Bool) : Prop :=
  st.owner = some t ∧ call ≠ .unlock ∧ (st.pass t call expired late).2 = some 0 ∧
    st.locks = BitVec.allOnes 32

variable {st t}

lemma countOf_of_ne (h : st.owner ≠ some t) : st.countOf t = 0 := if_neg h

lemma countOf_of_eq (h : st.owner = some t) : st.countOf t = st.locks.toNat := if_pos h

lemma Sound.locks_ne (h : st.Sound) (ho : st.owner = some t) : st.locks ≠ 0 := by
  intro hzero
  rw [h.mpr hzero] at ho
  cases ho

/-- What a pass does: nothing, one lock more for a free mutex or its owner, or one less. -/
lemma pass_cases (call : MutexCall) (expired late : Bool) :
    (st.pass t call expired late).1 = st ∧ (st.pass t call expired late).2 ≠ some 0 ∨
    call ≠ .unlock ∧ (st.pass t call expired late).2 = some 0 ∧ (st.owner = none ∧
        (st.pass t call expired late).1 = { st with owner := some t, locks := 1 } ∨
      st.owner = some t ∧ (st.pass t call expired late).1 = { st with locks := st.locks+1 }) ∨
    call = .unlock ∧ (st.pass t call expired late).2 = some 0 ∧ st.owner = some t ∧
      (st.pass t call expired late).1 =
        { st with owner := if st.locks-1 = 0 then none else some t, locks := st.locks-1 } := by
  have hlock : st.owner = none ∧ st.lockPass t = ({ st with owner := some t, locks := 1 },some 0) ∨
      st.owner = some t ∧ st.lockPass t = ({ st with locks := st.locks+1 },some 0) ∨
      (st.lockPass t).1 = st ∧ (st.lockPass t).2 ≠ some 0 := by
    unfold lockPass
    cases howner : st.owner with
    | none => simp
    | some owner =>
      by_cases hself : owner = t
      · subst hself
        cases hmtype : st.mtype <;> simp
      · simp [hself]
  cases call with
  | lock =>
    rcases hlock with ⟨ho,hp⟩ | ⟨ho,hp⟩ | hp
    · exact .inr (.inl ⟨by decide,by rw [pass, hp],.inl ⟨ho,by rw [pass, hp]⟩⟩)
    · exact .inr (.inl ⟨by decide,by rw [pass, hp],.inr ⟨ho,by rw [pass, hp]⟩⟩)
    · exact .inl hp
  | trylock =>
    unfold pass trylockPass
    cases howner : st.owner with
    | none => simp
    | some owner =>
      by_cases hself : owner = t ∧ st.mtype = .recursive
      · simp [hself]
      · simp [hself]
  | timedlock =>
    have htimed : st.timedlockPass t expired late = (st,some 60) ∨
        st.timedlockPass t expired late = st.lockPass t := by
      unfold timedlockPass
      split_ifs
      · exact .inl rfl
      · exact .inl rfl
      · exact .inr rfl
    rcases htimed with htimed | htimed
    · exact .inl ⟨by rw [pass, htimed],by rw [pass, htimed]; simp⟩
    · rcases hlock with ⟨ho,hp⟩ | ⟨ho,hp⟩ | hp
      · exact .inr (.inl ⟨by decide,by rw [pass, htimed, hp],.inl ⟨ho,by rw [pass, htimed, hp]⟩⟩)
      · exact .inr (.inl ⟨by decide,by rw [pass, htimed, hp],.inr ⟨ho,by rw [pass, htimed, hp]⟩⟩)
      · exact .inl (by rwa [pass, htimed])
  | unlock =>
    unfold pass unlockPass
    cases howner : st.owner with
    | none => simp
    | some owner =>
      by_cases hself : owner = t
      · simp [hself]
      · simp [hself]

section Pass

variable {call : MutexCall} {expired late : Bool}

lemma succ_toNat {locks : BitVec 32} (h : locks ≠ BitVec.allOnes 32) :
    (locks+1).toNat = locks.toNat+1 := by
  have hne : locks.toNat ≠ (BitVec.allOnes 32).toNat := fun heq => h (BitVec.toNat_inj.mp heq)
  have hlt := locks.isLt
  simp only [BitVec.toNat_allOnes] at hne
  have hone : (1 : BitVec 32).toNat = 1 := rfl
  rw [BitVec.toNat_add, hone]
  omega

lemma pred_toNat {locks : BitVec 32} (h : locks ≠ 0) : (locks-1).toNat = locks.toNat-1 := by
  have hne : locks.toNat ≠ 0 := fun heq => h (BitVec.toNat_inj.mp heq)
  have hlt := locks.isLt
  have hone : (1 : BitVec 32).toNat = 1 := rfl
  rw [BitVec.toNat_sub, hone]
  omega

lemma reset_cases (st : HostMutexState) (mtype : MutexType) : (st.reset mtype).1 = st ∨
    st.owner = none ∧ (st.reset mtype).1 = new mtype := by
  unfold reset
  split_ifs with hheld
  · exact .inl rfl
  · push Not at hheld
    exact .inr ⟨by simpa using hheld.1,rfl⟩

lemma pass_sound (hs : st.Sound) (hf : ¬st.Overflows t call expired late) :
    (st.pass t call expired late).1.Sound := by
  rcases st.pass_cases (t := t) call expired late with
    ⟨hst,-⟩ | ⟨hcall,hcode,⟨ho,hst⟩ | ⟨ho,hst⟩⟩ | ⟨-,-,ho,hst⟩
  · rwa [hst]
  · rw [hst]
    simp [Sound]
  · have hnext := succ_toNat fun hfull => hf ⟨ho,hcall,hcode,hfull⟩
    rw [hst, Sound, ho]
    refine ⟨fun h => (by cases h),fun hzero => ?_⟩
    rw [show st.locks+1 = 0 from hzero] at hnext
    cases hnext
  · rw [hst, Sound]
    simp

lemma pass_other {u : Tid} (hu : u ≠ t) :
    (st.pass t call expired late).1.countOf u = st.countOf u := by
  have hne : some t ≠ some u := fun h => hu (Option.some.inj h).symm
  rcases st.pass_cases (t := t) call expired late with
    ⟨hst,-⟩ | ⟨-,-,⟨ho,hst⟩ | ⟨ho,hst⟩⟩ | ⟨-,-,ho,hst⟩
  · rw [hst]
  · rw [hst, countOf_of_ne hne, countOf_of_ne (by rw [ho]; simp)]
  · rw [hst, countOf_of_ne (by rwa [ho]), countOf_of_ne (by rwa [ho])]
  · rw [hst, countOf_of_ne (by dsimp only; split_ifs <;> simp [hne]), countOf_of_ne (by rwa [ho])]

lemma pass_self (hs : st.Sound) (hf : ¬st.Overflows t call expired late) :
    (st.pass t call expired late).1.countOf t = match (st.pass t call expired late).2 with
      | some code => SyncManager.balance call code (st.countOf t)
      | none => st.countOf t := by
  rcases st.pass_cases (t := t) call expired late with
    ⟨hst,hcode⟩ | ⟨hcall,hcode,⟨ho,hst⟩ | ⟨ho,hst⟩⟩ | ⟨hcall,hcode,ho,hst⟩
  · rw [hst]
    split
    · next code hsome =>
      have hne : code ≠ 0 := fun h => hcode (by rw [hsome, h])
      exact (if_pos hne).symm
    · rfl
  · rw [hst, hcode, countOf_of_eq rfl, countOf_of_ne (by rw [ho]; simp)]
    cases call <;> first | rfl | exact absurd rfl hcall
  · have hnext := succ_toNat fun hfull => hf ⟨ho,hcall,hcode,hfull⟩
    rw [hst, hcode, countOf, if_pos ho, countOf_of_eq ho]
    cases call <;> first | exact hnext | exact absurd rfl hcall
  · subst hcall
    have hprev := pred_toNat (hs.locks_ne ho)
    rw [hst, hcode, countOf_of_eq ho, countOf]
    change _ = st.locks.toNat-1
    by_cases hzero : st.locks-1 = 0
    · rw [if_pos hzero, if_neg (by simp), ← hprev, hzero]
      rfl
    · rw [if_neg hzero, if_pos rfl, hprev]

end Pass

end HostMutexState

namespace Pc

/-- The mutex a call has looked up, with the address it found it under. -/
def names : Pc → Option (GuestAddr × MutexId)
  | enter _ addr m _ | report addr m | parked _ addr m | reset addr m _ | enterWait _ addr m _ _ =>
      some (addr,m)
  | gate w | released w | asleep w _ | relock w _ | relockParked w _ => some (w.addr,w.mutex)
  | _ => none

/-- A wait that has given its mutex up. -/
def waiting : Pc → Option Waiter
  | released w | asleep w _ | relock w _ | relockParked w _ => some w
  | _ => none

/-- The count of its mutex a waiter had when it called. -/
def called : Pc → Option (GuestAddr × ℕ)
  | findCond _ addr _ n | findWait _ addr _ n | enterWait _ addr _ _ n => some (addr,n)
  | gate w | released w | asleep w _ | relock w _ | relockParked w _ => some (w.addr,w.called)
  | _ => none

lemma names_of_waiting {pc : Pc} {w : Waiter} (h : pc.waiting = some w) :
    pc.names = some (w.addr,w.mutex) := by
  cases pc <;> simp only [waiting, reduceCtorEq, Option.some.injEq] at h <;> subst h <;> rfl

end Pc

/-- The count of each mutex in the map is the balance of its owner, but for a wait that has
given the mutex up and saved its count. -/
structure OwnerTable (mutexes : GuestAddr → Option MutexId) (nextMutex : MutexId)
    (objects : MutexId → HostMutexState) (held : Tid → GuestAddr → ℕ) (pc : Tid → Pc) : Prop where
  fresh : ∀ addr m, mutexes addr = some m → m < nextMutex
  inj : ∀ addr addr' m, mutexes addr = some m → mutexes addr' = some m → addr = addr'
  named : ∀ t addr m, (pc t).names = some (addr,m) → mutexes addr = some m
  sound : ∀ addr m, mutexes addr = some m → (objects m).Sound
  absent : ∀ addr, mutexes addr = none → ∀ t, held t addr = 0
  balance : ∀ addr m t, mutexes addr = some m → (∀ w, (pc t).waiting = some w → w.addr ≠ addr) →
    held t addr = (objects m).countOf t
  waits : ∀ t w, (pc t).waiting = some w →
    held t w.addr = w.saved.toNat ∧ w.saved ≠ 0 ∧ (objects w.mutex).owner ≠ some t
  gates : ∀ t w, pc t = .gate w →
    (objects w.mutex).owner = some t ∧ (objects w.mutex).locks = w.saved
  calls : ∀ t addr n, (pc t).called = some (addr,n) → held t addr = n

namespace OwnerTable

variable {mutexes : GuestAddr → Option MutexId} {nextMutex : MutexId}
  {objects : MutexId → HostMutexState} {held : Tid → GuestAddr → ℕ} {pc : Tid → Pc} {t : Tid}
  {pc' : Pc} {addr : GuestAddr} {m : MutexId} {st : HostMutexState}

/-- A step that leaves the mutexes alone. -/
lemma move (h : OwnerTable mutexes nextMutex objects held pc)
    (hnames : ∀ addr m, pc'.names = some (addr,m) →
      (pc t).names = some (addr,m) ∨ mutexes addr = some m)
    (hwaiting : pc'.waiting = (pc t).waiting)
    (hgate : ∀ w, pc' = .gate w →
      (objects w.mutex).owner = some t ∧ (objects w.mutex).locks = w.saved)
    (hcalled : ∀ addr n, pc'.called = some (addr,n) →
      (pc t).called = some (addr,n) ∨ held t addr = n) :
    OwnerTable mutexes nextMutex objects held (Function.update pc t pc') := by
  have hwait (u : Tid) : (Function.update pc t pc' u).waiting = (pc u).waiting := by
    by_cases hu : u = t
    · subst hu
      rw [Function.update_self, hwaiting]
    · rw [Function.update_of_ne hu]
  refine ⟨h.fresh,h.inj,?_,h.sound,h.absent,?_,?_,?_,?_⟩
  · intro u addr m hn
    by_cases hu : u = t
    · rw [hu, Function.update_self] at hn
      exact (hnames addr m hn).elim (h.named t addr m) id
    · rw [Function.update_of_ne hu] at hn
      exact h.named u addr m hn
  · intro addr m u hm hw
    rw [hwait u] at hw
    exact h.balance addr m u hm hw
  · intro u w hw
    rw [hwait u] at hw
    exact h.waits u w hw
  · intro u w hg
    by_cases hu : u = t
    · subst hu
      rw [Function.update_self] at hg
      exact hgate w hg
    · rw [Function.update_of_ne hu] at hg
      exact h.gates u w hg
  · intro u addr n hc
    by_cases hu : u = t
    · subst hu
      rw [Function.update_self] at hc
      exact (hcalled addr n hc).elim (h.calls u addr n) id
    · rw [Function.update_of_ne hu] at hc
      exact h.calls u addr n hc

/-- A mutex that enters the map is free. -/
lemma insert (h : OwnerTable mutexes nextMutex objects held pc) (habsent : mutexes addr = none)
    (mtype : MutexType) : OwnerTable (Function.update mutexes addr (some nextMutex)) (nextMutex+1)
      (Function.update objects nextMutex (.new mtype)) held pc := by
  have hold {addr' : GuestAddr} {m : MutexId} (hm : mutexes addr' = some m) :
      addr' ≠ addr ∧ m ≠ nextMutex := by
    refine ⟨fun heq => ?_,(h.fresh addr' m hm).ne⟩
    rw [heq, habsent] at hm
    cases hm
  have hnew {addr' : GuestAddr} {m : MutexId}
      (hm : Function.update mutexes addr (some nextMutex) addr' = some m) :
      addr' = addr ∧ m = nextMutex ∨ mutexes addr' = some m := by
    by_cases heq : addr' = addr
    · subst heq
      rw [Function.update_self] at hm
      exact .inl ⟨rfl,(Option.some.inj hm).symm⟩
    · rw [Function.update_of_ne heq] at hm
      exact .inr hm
  refine ⟨?_,?_,?_,?_,?_,?_,?_,?_,h.calls⟩
  · intro addr' m hm
    rcases hnew hm with ⟨-,rfl⟩ | hm
    · exact Nat.lt_succ_self _
    · exact (h.fresh addr' m hm).trans (Nat.lt_succ_self _)
  · intro addr' addr'' m hm hm'
    rcases hnew hm with ⟨ha,hfresh⟩ | hmem <;> rcases hnew hm' with ⟨ha',hfresh'⟩ | hmem'
    · rw [ha, ha']
    · exact absurd hfresh (hold hmem').2
    · exact absurd hfresh' (hold hmem).2
    · exact h.inj addr' addr'' m hmem hmem'
  · intro t addr' m hn
    have hm := h.named t addr' m hn
    rwa [Function.update_of_ne (hold hm).1]
  · intro addr' m hm
    rcases hnew hm with ⟨-,rfl⟩ | hm
    · rw [Function.update_self]
      simp [HostMutexState.Sound, HostMutexState.new]
    · rw [Function.update_of_ne (hold hm).2]
      exact h.sound addr' m hm
  · intro addr' hm
    refine h.absent addr' ?_
    by_contra hne
    obtain ⟨m,hm'⟩ := Option.ne_none_iff_exists'.mp hne
    rw [Function.update_of_ne (hold hm').1] at hm
    exact hne hm
  · intro addr' m t hm hw
    rcases hnew hm with ⟨rfl,rfl⟩ | hm
    · rw [Function.update_self, h.absent addr' habsent t,
        HostMutexState.countOf_of_ne (by simp [HostMutexState.new])]
    · rw [Function.update_of_ne (hold hm).2]
      exact h.balance addr' m t hm hw
  · intro t w hw
    have hm := h.named t _ _ (Pc.names_of_waiting hw)
    rw [Function.update_of_ne (hold hm).2]
    exact h.waits t w hw
  · intro t w hg
    have hm := h.named t w.addr w.mutex (by rw [hg]; rfl)
    rw [Function.update_of_ne (hold hm).2]
    exact h.gates t w hg

/-- A free mutex that no call has looked up leaves the map. -/
lemma remove (h : OwnerTable mutexes nextMutex objects held pc) (hm : mutexes addr = some m)
    (hfree : (objects m).owner = none) (hunused : ∀ t addr', (pc t).names ≠ some (addr',m)) :
    OwnerTable (Function.update mutexes addr none) nextMutex objects held pc := by
  have hold {addr' : GuestAddr} {m' : MutexId}
      (hm' : Function.update mutexes addr none addr' = some m') :
      addr' ≠ addr ∧ mutexes addr' = some m' := by
    by_cases heq : addr' = addr
    · subst heq
      rw [Function.update_self] at hm'
      cases hm'
    · rw [Function.update_of_ne heq] at hm'
      exact ⟨heq,hm'⟩
  have hwait (t : Tid) (w : Waiter) (hw : (pc t).waiting = some w) : w.addr ≠ addr := by
    intro heq
    have hm' := h.named t _ _ (Pc.names_of_waiting hw)
    rw [heq, hm] at hm'
    refine hunused t w.addr ?_
    rw [Pc.names_of_waiting hw, Option.some.inj hm']
  refine ⟨fun addr' m' hm' => h.fresh addr' m' (hold hm').2,
    fun _ _ m' hm' hm'' => h.inj _ _ m' (hold hm').2 (hold hm'').2,?_,
    fun addr' m' hm' => h.sound addr' m' (hold hm').2,?_,
    fun addr' m' t hm' => h.balance addr' m' t (hold hm').2,h.waits,h.gates,h.calls⟩
  · intro t addr' m' hn
    have hm' := h.named t addr' m' hn
    have hne : addr' ≠ addr := by
      rintro rfl
      rw [hm] at hm'
      exact hunused t addr' (by rw [hn, Option.some.inj hm'])
    rwa [Function.update_of_ne hne]
  · intro addr' hm' t
    by_cases heq : addr' = addr
    · rw [heq, h.balance addr m t hm (hwait t), HostMutexState.countOf_of_ne (by rw [hfree]; simp)]
    · rw [Function.update_of_ne heq] at hm'
      exact h.absent addr' hm' t

section Touch

variable {n : ℕ}

/-- The mutex of another address stays. -/
lemma touch_other (h : OwnerTable mutexes nextMutex objects held pc) (hm : mutexes addr = some m)
    {addr' : GuestAddr} {m' : MutexId} (hne : addr' ≠ addr) (hm' : mutexes addr' = some m') :
    Function.update objects m st m' = objects m' := by
  refine Function.update_of_ne (fun heq => hne ?_) ..
  rw [heq] at hm'
  exact h.inj addr' addr m hm' hm

/-- So do the balances of other threads and addresses. -/
lemma update_held {u : Tid} {addr' : GuestAddr} (hne : u ≠ t ∨ addr' ≠ addr) :
    Function.update held t (Function.update (held t) addr n) u addr' = held u addr' := by
  by_cases hu : u = t
  · subst hu
    rw [Function.update_self, Function.update_of_ne (hne.resolve_left (not_not_intro rfl))]
  · rw [Function.update_of_ne hu]

lemma update_held_self :
    Function.update held t (Function.update (held t) addr n) t addr = n := by
  rw [Function.update_self, Function.update_self]

lemma touch_balance (h : OwnerTable mutexes nextMutex objects held pc)
    (hnames : (pc t).names = some (addr,m))
    (hother : ∀ u ≠ t, st.countOf u = (objects m).countOf u)
    (hnames' : ∀ addr' m', pc'.names = some (addr',m') → addr' = addr ∧ m' = m)
    (hbalance : pc'.waiting = none → n = st.countOf t) {addr' : GuestAddr} {m' : MutexId} {u : Tid}
    (hm' : mutexes addr' = some m')
    (hw : ∀ w, (Function.update pc t pc' u).waiting = some w → w.addr ≠ addr') :
    Function.update held t (Function.update (held t) addr n) u addr' =
      (Function.update objects m st m').countOf u := by
  have hm := h.named t addr m hnames
  by_cases ha : addr' = addr
  · subst ha
    obtain rfl : m = m' := Option.some.inj (hm.symm.trans hm')
    rw [Function.update_self]
    by_cases hu : u = t
    · subst hu
      rw [update_held_self]
      rw [Function.update_self] at hw
      refine hbalance (Option.eq_none_iff_forall_ne_some.mpr fun w hw' => ?_)
      exact hw w hw' (hnames' _ _ (Pc.names_of_waiting hw')).1
    · rw [update_held (.inl hu), hother u hu]
      rw [Function.update_of_ne hu] at hw
      exact h.balance addr' m u hm hw
  · rw [update_held (.inr ha), h.touch_other hm ha hm']
    refine h.balance addr' m' u hm' fun w hw' heq => ?_
    by_cases hu : u = t
    · subst hu
      have hn := Pc.names_of_waiting hw'
      rw [hnames, Option.some.injEq, Prod.mk.injEq] at hn
      exact ha (heq ▸ hn.1.symm)
    · exact hw w (by rwa [Function.update_of_ne hu]) heq

/-- Another thread that waits has no count before, so none after. -/
lemma touch_waits (h : OwnerTable mutexes nextMutex objects held pc) (hsound : st.Sound)
    (hother : ∀ u ≠ t, st.countOf u = (objects m).countOf u)
    (hnames' : ∀ addr' m', pc'.names = some (addr',m') → addr' = addr ∧ m' = m)
    (hwaits : ∀ w, pc'.waiting = some w → n = w.saved.toNat ∧ w.saved ≠ 0 ∧ st.owner ≠ some t)
    {u : Tid} {w : Waiter} (hw : (Function.update pc t pc' u).waiting = some w) :
    Function.update held t (Function.update (held t) addr n) u w.addr = w.saved.toNat ∧
      w.saved ≠ 0 ∧ (Function.update objects m st w.mutex).owner ≠ some u := by
  by_cases hu : u = t
  · subst hu
    rw [Function.update_self] at hw
    obtain ⟨ha,hwm⟩ := hnames' _ _ (Pc.names_of_waiting hw)
    rw [ha, hwm, update_held_self, Function.update_self]
    exact hwaits w hw
  · rw [Function.update_of_ne hu] at hw
    obtain ⟨hbal,hsaved,ho⟩ := h.waits u w hw
    rw [update_held (.inl hu)]
    refine ⟨hbal,hsaved,?_⟩
    by_cases hwm : w.mutex = m
    · rw [hwm, Function.update_self]
      intro ho'
      have hcount := hother u hu
      rw [HostMutexState.countOf_of_eq ho', HostMutexState.countOf_of_ne (hwm ▸ ho)] at hcount
      exact hsound.locks_ne ho' (BitVec.toNat_inj.mp hcount)
    · rwa [Function.update_of_ne hwm]

/-- A step on a mutex whose state is locked: no other thread's count changes, and the balance
of the thread is its own count or the one its wait saved. -/
lemma touch (h : OwnerTable mutexes nextMutex objects held pc)
    (hnames : (pc t).names = some (addr,m)) (hsound : st.Sound)
    (hother : ∀ u ≠ t, st.countOf u = (objects m).countOf u)
    (halone : ∀ u ≠ t, ∀ w, pc u = .gate w → w.mutex ≠ m)
    (hnames' : ∀ addr' m', pc'.names = some (addr',m') → addr' = addr ∧ m' = m)
    (hgate : ∀ w, pc' ≠ .gate w)
    (hbalance : pc'.waiting = none → n = st.countOf t)
    (hwaits : ∀ w, pc'.waiting = some w → n = w.saved.toNat ∧ w.saved ≠ 0 ∧ st.owner ≠ some t)
    (hcalled : ∀ addr' n', pc'.called = some (addr',n') → addr = addr' ∧ n = n') :
    OwnerTable mutexes nextMutex (Function.update objects m st)
      (Function.update held t (Function.update (held t) addr n)) (Function.update pc t pc') := by
  have hm := h.named t addr m hnames
  refine ⟨h.fresh,h.inj,?_,?_,?_,fun _ _ _ => h.touch_balance hnames hother hnames' hbalance,
    fun _ _ => h.touch_waits hsound hother hnames' hwaits,?_,?_⟩
  · intro u addr' m' hn
    by_cases hu : u = t
    · rw [hu, Function.update_self] at hn
      obtain ⟨rfl,rfl⟩ := hnames' addr' m' hn
      exact hm
    · rw [Function.update_of_ne hu] at hn
      exact h.named u addr' m' hn
  · intro addr' m' hm'
    by_cases ha : addr' = addr
    · obtain rfl : m = m' := Option.some.inj (hm.symm.trans (ha ▸ hm'))
      rwa [Function.update_self]
    · rw [h.touch_other hm ha hm']
      exact h.sound addr' m' hm'
  · intro addr' hm' u
    have hne : addr' ≠ addr := by
      rintro rfl
      rw [hm] at hm'
      cases hm'
    rw [update_held (.inr hne)]
    exact h.absent addr' hm' u
  · intro u w hg
    by_cases hu : u = t
    · subst hu
      rw [Function.update_self] at hg
      exact absurd hg (hgate w)
    · rw [Function.update_of_ne hu] at hg
      rw [Function.update_of_ne (halone u hu w hg)]
      exact h.gates u w hg
  · intro u addr' n' hc
    by_cases hu : u = t
    · subst hu
      rw [Function.update_self] at hc
      obtain ⟨rfl,hn⟩ := hcalled addr' n' hc
      rw [update_held_self, hn]
    · rw [Function.update_of_ne hu] at hc
      rw [update_held (.inl hu)]
      exact h.calls u addr' n' hc

end Touch

/-- The same where the balance stays. -/
lemma touch_held (h : OwnerTable mutexes nextMutex objects held pc)
    (hnames : (pc t).names = some (addr,m)) (hsound : st.Sound)
    (hother : ∀ u ≠ t, st.countOf u = (objects m).countOf u)
    (halone : ∀ u ≠ t, ∀ w, pc u = .gate w → w.mutex ≠ m)
    (hnames' : ∀ addr' m', pc'.names = some (addr',m') → addr' = addr ∧ m' = m)
    (hgate : ∀ w, pc' ≠ .gate w)
    (hbalance : pc'.waiting = none → held t addr = st.countOf t)
    (hwaits : ∀ w, pc'.waiting = some w →
      held t addr = w.saved.toNat ∧ w.saved ≠ 0 ∧ st.owner ≠ some t)
    (hcalled : ∀ addr' n', pc'.called = some (addr',n') → addr = addr' ∧ held t addr = n') :
    OwnerTable mutexes nextMutex (Function.update objects m st) held (Function.update pc t pc') := by
  have htouch := h.touch hnames hsound hother halone hnames' hgate hbalance hwaits hcalled
  rwa [Function.update_eq_self, Function.update_eq_self] at htouch

end OwnerTable

namespace SyncManager

variable {s s' : SyncManager} {t u : Tid} {act : Act}

def Owned (s : SyncManager) : Prop := OwnerTable s.mutexes s.nextMutex s.objects s.held s.pc

/-- A mutex that is destroyed is owned by none, and no call under way has looked it up. -/
def Unused (s : SyncManager) (l : Tid × Act) : Prop :=
  match s.pc l.1 with
  | .destroy addr => ∀ m, s.mutexes addr = some m →
      (s.objects m).owner = none ∧ ∀ u addr', (s.pc u).names ≠ some (addr',m)
  | _ => True

/-- No relock succeeds at the full count. -/
def Counted (s : SyncManager) (l : Tid × Act) : Prop :=
  match s.pc l.1, l.2 with
  | .enter call _ m expired, .go late _ => ¬(s.objects m).Overflows l.1 call expired late
  | .report _ m, .go late _ => ¬(s.objects m).Overflows l.1 .lock false late
  | _, _ => True

lemma alone_of_free (hl : Locked s) {m : MutexId} (hfree : s.holders (.state m) = ∅) :
    ∀ u ≠ t, ∀ w, s.pc u = .gate w → w.mutex ≠ m := by
  rintro u - w hpc rfl
  have hmem : u ∈ s.holders (.state w.mutex) := (hl.holder _ u).mpr (by rw [hpc]; rfl)
  rw [hfree] at hmem
  exact absurd hmem (Finset.notMem_empty u)

lemma alone_of_held (hl : Locked s) {m : MutexId} (hheld : t ∈ s.holders (.state m)) :
    ∀ u ≠ t, ∀ w, s.pc u = .gate w → w.mutex ≠ m := by
  rintro u hu w hpc rfl
  have hmem : u ∈ s.holders (.state w.mutex) := (hl.holder _ u).mpr (by rw [hpc]; rfl)
  exact hu (hl.alone _ (by simp) u hmem t hheld)

lemma Owned.count_eq (ho : Owned s) {addr : GuestAddr} (hw : (s.pc t).waiting = none) :
    s.held t addr = s.count t addr := by
  unfold count
  cases hm : s.mutexes addr with
  | none => exact ho.absent addr hm t
  | some m => exact ho.balance addr m t hm (by simp [hw])

lemma Owned.pass (ho : Owned s) {call : MutexCall} {addr : GuestAddr} {m : MutexId}
    {expired late : Bool} (hnames : (s.pc t).names = some (addr,m)) (hw : (s.pc t).waiting = none)
    (hf : ¬(s.objects m).Overflows t call expired late)
    (halone : ∀ u ≠ t, ∀ w, s.pc u = .gate w → w.mutex ≠ m) :
    Owned (s.pass t call addr m expired late) := by
  have hm := ho.named t addr m hnames
  have hsound := ho.sound addr m hm
  have hbal := ho.balance addr m t hm (by simp [hw])
  have hself := HostMutexState.pass_self hsound hf
  have hother (u : Tid) (hu : u ≠ t) : ((s.objects m).pass t call expired late).1.countOf u =
      (s.objects m).countOf u := HostMutexState.pass_other hu
  have hsound' := HostMutexState.pass_sound hsound hf
  cases hr : ((s.objects m).pass t call expired late).2 with
  | some code =>
    rw [hr] at hself
    have htouch : OwnerTable s.mutexes s.nextMutex (Function.update s.objects m _)
        (Function.update s.held t (Function.update (s.held t) addr (balance call code (s.held t addr))))
        (Function.update s.pc t (.done code)) :=
      ho.touch hnames hsound' hother halone (by simp [Pc.names]) (by simp)
        (fun _ => by rw [hself, hbal]) (by simp [Pc.waiting]) (by simp [Pc.called])
    simpa [Owned, SyncManager.pass, hr] using htouch
  | none =>
    rw [hr] at hself
    have htouch : OwnerTable s.mutexes s.nextMutex (Function.update s.objects m _) s.held
        (Function.update s.pc t (.parked call addr m)) :=
      ho.touch_held hnames hsound' hother halone (by simp [Pc.names]) (by simp)
        (fun _ => by rw [hself, hbal]) (by simp [Pc.waiting]) (by simp [Pc.called])
    simpa [Owned, SyncManager.pass, hr] using htouch

lemma Owned.reset (ho : Owned s) {addr : GuestAddr} {m : MutexId} {mtype : MutexType} {code : ℕ}
    (hpc : s.pc t = .reset addr m mtype)
    (halone : ∀ u ≠ t, ∀ w, s.pc u = .gate w → w.mutex ≠ m) :
    OwnerTable s.mutexes s.nextMutex (Function.update s.objects m ((s.objects m).reset mtype).1)
      s.held (Function.update s.pc t (.done code)) := by
  have hnames : (s.pc t).names = some (addr,m) := by rw [hpc]; rfl
  have hm := ho.named t addr m hnames
  have hbal := ho.balance addr m t hm (by simp [hpc, Pc.waiting])
  have hcount (u : Tid) : ((s.objects m).reset mtype).1.countOf u = (s.objects m).countOf u := by
    rcases HostMutexState.reset_cases (s.objects m) mtype with hst | ⟨howner,hst⟩
    · rw [hst]
    · rw [hst, HostMutexState.countOf_of_ne (by simp [HostMutexState.new]),
        HostMutexState.countOf_of_ne (by rw [howner]; simp)]
  have hsound : ((s.objects m).reset mtype).1.Sound := by
    rcases HostMutexState.reset_cases (s.objects m) mtype with hst | ⟨-,hst⟩
    · rw [hst]
      exact ho.sound addr m hm
    · rw [hst]
      simp [HostMutexState.Sound, HostMutexState.new]
  exact ho.touch_held hnames hsound (fun u _ => hcount u) halone (by simp [Pc.names]) (by simp)
    (fun _ => by rw [hcount, hbal]) (by simp [Pc.waiting]) (by simp [Pc.called])

lemma Owned.giveUp (ho : Owned s) {w : Waiter} (hpc : s.pc t = .gate w)
    (halone : ∀ u ≠ t, ∀ w', s.pc u = .gate w' → w'.mutex ≠ w.mutex) :
    OwnerTable s.mutexes s.nextMutex
      (Function.update s.objects w.mutex (s.objects w.mutex).released) s.held
      (Function.update s.pc t (.released w)) := by
  have hnames : (s.pc t).names = some (w.addr,w.mutex) := by rw [hpc]; rfl
  have hm := ho.named t _ _ hnames
  obtain ⟨howner,hlocks⟩ := ho.gates t w hpc
  have hbal := ho.balance _ _ t hm (by simp [hpc, Pc.waiting])
  rw [HostMutexState.countOf_of_eq howner, hlocks] at hbal
  have hsaved : w.saved ≠ 0 := hlocks ▸ (ho.sound _ _ hm).locks_ne howner
  have hcalled := ho.calls t w.addr w.called (by rw [hpc]; rfl)
  refine ho.touch_held hnames (by simp [HostMutexState.Sound, HostMutexState.released]) ?_ halone
    (by simp [Pc.names]) (by simp) (by simp [Pc.waiting]) ?_ ?_
  · intro u hu
    have hne : (s.objects w.mutex).owner ≠ some u := by
      rw [howner]
      exact fun h => hu (Option.some.inj h).symm
    rw [HostMutexState.countOf_of_ne hne,
      HostMutexState.countOf_of_ne (by simp [HostMutexState.released])]
  · intro w' hw'
    obtain rfl : w = w' := by simpa [Pc.waiting] using hw'
    exact ⟨hbal,hsaved,by simp [HostMutexState.released]⟩
  · intro addr' n' hc
    obtain ⟨ha,hn⟩ : w.addr = addr' ∧ w.called = n' := by simpa [Pc.called] using hc
    exact ⟨ha,hcalled.trans hn⟩

lemma Owned.relock (ho : Owned s) {w : Waiter} {code code' : ℕ} (hpc : s.pc t = .relock w code)
    (hfree : (s.objects w.mutex).owner = none)
    (halone : ∀ u ≠ t, ∀ w', s.pc u = .gate w' → w'.mutex ≠ w.mutex) :
    OwnerTable s.mutexes s.nextMutex (Function.update s.objects w.mutex
        { s.objects w.mutex with owner := some t, locks := w.saved }) s.held
      (Function.update s.pc t (.done code')) := by
  have hnames : (s.pc t).names = some (w.addr,w.mutex) := by rw [hpc]; rfl
  obtain ⟨hbal,hsaved,-⟩ := ho.waits t w (by rw [hpc]; rfl)
  refine ho.touch_held hnames ?_ ?_ halone (by simp [Pc.names]) (by simp) ?_
    (by simp [Pc.waiting]) (by simp [Pc.called])
  · simpa [HostMutexState.Sound] using hsaved
  · intro u hu
    have hne : some t ≠ some u := fun h => hu (Option.some.inj h).symm
    rw [HostMutexState.countOf_of_ne hne, HostMutexState.countOf_of_ne (by rw [hfree]; simp)]
  · intro _
    rw [hbal, HostMutexState.countOf_of_eq rfl]

lemma owned_next (hl : Locked s) (ho : Owned s) (hunused : Unused s (t,act))
    (hcounted : Counted s (t,act)) (h : next s t act = some s') : Owned s' := by
  revert h
  fun_cases next s t act <;> intro h <;> cases h
  case case1 call hpc =>
    refine ho.move ?_ ?_ ?_ ?_
    · cases call <;> simp [entry, Pc.names]
    · cases call <;> simp [entry, Pc.waiting, hpc]
    · cases call <;> simp [entry]
    · have hcount (addr : GuestAddr) : s.held t addr = s.count t addr :=
        ho.count_eq (by rw [hpc]; rfl)
      cases call <;> simp [entry, Pc.called, hcount]
  case case4 hpc _ _ =>
    refine ho.move ?_ ?_ ?_ ?_ <;> split_ifs <;> simp [hpc, Pc.names, Pc.waiting, Pc.called]
  case case7 hpc _ habsent =>
    refine (ho.insert habsent .normal).move ?_ ?_ ?_ ?_ <;>
      simp [hpc, Pc.names, Pc.waiting, Pc.called]
  case case11 hpc _ hfree _ =>
    have hfree := not_not.mp hfree
    rw [Counted, hpc] at hcounted
    exact ho.pass (by rw [hpc]; rfl) (by rw [hpc]; rfl) hcounted (alone_of_free hl hfree)
  case case13 addr m _ _ hpc _ =>
    have hheld : t ∈ s.holders (.state m) := (hl.holder _ t).mpr (by rw [hpc]; rfl)
    have hleft : Owned (s.release t (.state m)) := ho
    rw [Counted, hpc] at hcounted
    exact hleft.pass (by simp [hpc, Pc.names]) (by simp [hpc, Pc.waiting]) hcounted
      (alone_of_held hl hheld)
  case case17 hpc _ habsent =>
    refine (ho.insert habsent _).move ?_ ?_ ?_ ?_ <;> simp [hpc, Pc.names, Pc.waiting, Pc.called]
  case case19 hpc hfree => exact ho.reset hpc (alone_of_free hl (not_not.mp hfree))
  case case21 hpc _ m hm =>
    rw [Unused, hpc] at hunused
    obtain ⟨hfree,hnone⟩ := hunused m hm
    refine (ho.remove hm hfree hnone).move ?_ ?_ ?_ ?_ <;>
      simp [hpc, Pc.names, Pc.waiting, Pc.called]
  case case30 hpc _ howner =>
    refine ho.move ?_ ?_ ?_ ?_
    · simp [hpc, Pc.names]
    · simp [hpc, Pc.waiting]
    · rintro w ⟨⟩
      exact ⟨not_not.mp howner,rfl⟩
    · simp [hpc, Pc.called]
  case case32 w _ _ hpc _ =>
    have hheld : t ∈ s.holders (.state w.mutex) := (hl.holder _ t).mpr (by rw [hpc]; rfl)
    exact ho.giveUp hpc (alone_of_held hl hheld)
  case case40 hpc hfree howner =>
    exact ho.relock hpc (not_not.mp howner) (alone_of_free hl (not_not.mp hfree))
  all_goals refine ho.move ?_ ?_ ?_ ?_ <;> simp [*, Pc.names, Pc.waiting, Pc.called]

end SyncManager

end Unemups4.Kernel

import Unemups4.SyncManager

/-! Who holds an internal lock is read off where the threads stand. The locks are taken in the
order of a rank, and a thread that gave up its mutex in a wait stands behind the lock of the
condition until it is among the blocked. -/
namespace Unemups4.Kernel

namespace SyncManager

variable {s s' : SyncManager} {t u : Tid} {act : Act}

section Pass

variable (call : MutexCall) (addr : GuestAddr) (m : MutexId) (expired late : Bool)

/-- A pass leaves its thread at the end of the call or in wait for the holder. -/
lemma pass_pc : ∃ pc, (s.pass t call addr m expired late).pc = Function.update s.pc t pc ∧
    (pc = .parked call addr m ∨ ∃ code, pc = .done code) := by
  cases hr : ((s.objects m).pass t call expired late).2 with
  | none => exact ⟨_,by simp [pass, hr],.inl rfl⟩
  | some code => exact ⟨_,by simp [pass, hr],.inr ⟨code,rfl⟩⟩

@[simp] lemma pass_holders : (s.pass t call addr m expired late).holders = s.holders := by
  cases hr : ((s.objects m).pass t call expired late).2 <;> simp [pass, hr]

@[simp] lemma pass_blocked : (s.pass t call addr m expired late).blocked = s.blocked := by
  cases hr : ((s.objects m).pass t call expired late).2 <;> simp [pass, hr]

@[simp] lemma pass_sleeping : (s.pass t call addr m expired late).sleeping = s.sleeping := by
  cases hr : ((s.objects m).pass t call expired late).2 <;> simp [pass, hr]

@[simp] lemma pass_mutexes : (s.pass t call addr m expired late).mutexes = s.mutexes := by
  cases hr : ((s.objects m).pass t call expired late).2 <;> simp [pass, hr]

@[simp] lemma pass_nextMutex : (s.pass t call addr m expired late).nextMutex = s.nextMutex := by
  cases hr : ((s.objects m).pass t call expired late).2 <;> simp [pass, hr]

end Pass

@[simp] lemma entry_holds (call : SyncCall) : (s.entry t call).holds = none := by
  cases call <;> rfl

/-- A step moves no other thread. -/
lemma next_pc_other (h : next s t act = some s') (hu : u ≠ t) : s'.pc u = s.pc u := by
  have hpass (s : SyncManager) (call : MutexCall) (addr : GuestAddr) (m : MutexId)
      (expired late : Bool) : (s.pass t call addr m expired late).pc u = s.pc u := by
    obtain ⟨pc,hpc,-⟩ := s.pass_pc (t := t) call addr m expired late
    rw [hpc, Function.update_of_ne hu]
  revert h
  fun_cases next s t act <;> intro h <;> cases h <;> simp [hu, hpass]

end SyncManager

/-- Each lock is held by the threads that stand where it is held, and but for the condition map
by one at most. -/
structure LockTable (holders : SyncLock → Finset Tid) (pc : Tid → Pc) : Prop where
  holder : ∀ lock t, t ∈ holders lock ↔ (pc t).holds = some lock
  alone : ∀ lock, lock ≠ .condvars → ∀ t ∈ holders lock, ∀ u ∈ holders lock, t = u

namespace LockTable

variable {holders : SyncLock → Finset Tid} {pc : Tid → Pc} {t : Tid} {pc' : Pc} {lock : SyncLock}

lemma stay (h : LockTable holders pc) (hpc : (pc t).holds = pc'.holds) :
    LockTable holders (Function.update pc t pc') := by
  refine ⟨fun lock u => ?_,h.alone⟩
  rw [h.holder]
  by_cases hu : u = t
  · subst hu
    rw [Function.update_self, hpc]
  · rw [Function.update_of_ne hu]

lemma take (h : LockTable holders pc) (hpc : (pc t).holds = none) (hpc' : pc'.holds = some lock)
    (hfree : lock ≠ .condvars → holders lock = ∅) :
    LockTable (Function.update holders lock (insert t (holders lock)))
      (Function.update pc t pc') := by
  constructor
  · intro lock' u
    by_cases hlock : lock' = lock <;> by_cases hu : u = t
    · subst hlock hu
      simp [hpc']
    · subst hlock
      simp [hu, h.holder]
    · subst hu
      simp [hlock, h.holder, hpc, hpc', Ne.symm hlock]
    · simp [hlock, hu, h.holder]
  · intro lock' hne
    by_cases hlock : lock' = lock
    · subst hlock
      simp [hfree hne]
    · simpa [hlock] using h.alone lock' hne

lemma leave (h : LockTable holders pc) (hpc : (pc t).holds = some lock) (hpc' : pc'.holds = none) :
    LockTable (Function.update holders lock ((holders lock).erase t))
      (Function.update pc t pc') := by
  constructor
  · intro lock' u
    by_cases hlock : lock' = lock <;> by_cases hu : u = t
    · subst hlock hu
      simp [hpc']
    · subst hlock
      simp [hu, h.holder]
    · subst hu
      simp [hlock, h.holder, hpc, hpc', Ne.symm hlock]
    · simp [hlock, hu, h.holder]
  · intro lock' hne u hu v hv
    by_cases hlock : lock' = lock
    · subst hlock
      simp only [Function.update_self, Finset.mem_erase] at hu hv
      exact h.alone lock' hne u hu.2 v hv.2
    · rw [Function.update_of_ne hlock] at hu hv
      exact h.alone lock' hne u hu v hv

end LockTable

/-- A thread among the blocked of a condition waits on it, and one that has not been woken is
among them or about to be. -/
structure SleepTable (blocked : CondId → Finset Tid) (sleeping : Tid → Option CondId)
    (pc : Tid → Pc) : Prop where
  waits : ∀ c, ∀ t ∈ blocked c, ∃ w code, pc t = .asleep w code ∧ w.cond = c
  listed : ∀ t c, sleeping t = some c → t ∈ blocked c ∨ ∃ w, pc t = .released w ∧ w.cond = c

namespace SleepTable

variable {blocked : CondId → Finset Tid} {sleeping : Tid → Option CondId} {pc : Tid → Pc}
  {t : Tid} {pc' : Pc} {w : Waiter}

lemma not_blocked (h : SleepTable blocked sleeping pc) (hpc : ∀ w code, pc t ≠ .asleep w code)
    (c : CondId) : t ∉ blocked c := by
  intro hmem
  obtain ⟨w,code,hasleep,-⟩ := h.waits c t hmem
  exact hpc w code hasleep

lemma move (h : SleepTable blocked sleeping pc) (hreleased : ∀ w, pc t ≠ .released w)
    (hblocked : ∀ c, t ∉ blocked c) : SleepTable blocked sleeping (Function.update pc t pc') := by
  constructor
  · intro c u hu
    have hne : u ≠ t := fun heq => hblocked c (heq ▸ hu)
    rw [Function.update_of_ne hne]
    exact h.waits c u hu
  · intro u c hu
    rcases h.listed u c hu with hmem | ⟨w,hw,hc⟩
    · exact .inl hmem
    · have hne : u ≠ t := fun heq => hreleased w (heq ▸ hw)
      exact .inr ⟨w,by rwa [Function.update_of_ne hne],hc⟩

lemma giveUp (h : SleepTable blocked sleeping pc) (hblocked : ∀ c, t ∉ blocked c) :
    SleepTable blocked (Function.update sleeping t (some w.cond))
      (Function.update pc t (.released w)) := by
  constructor
  · intro c u hu
    have hne : u ≠ t := fun heq => hblocked c (heq ▸ hu)
    rw [Function.update_of_ne hne]
    exact h.waits c u hu
  · intro u c hu
    by_cases hut : u = t
    · subst hut
      rw [Function.update_self] at hu
      exact .inr ⟨w,Function.update_self ..,Option.some.inj hu⟩
    · rw [Function.update_of_ne hut] at hu ⊢
      exact h.listed u c hu

lemma block (h : SleepTable blocked sleeping pc) (hpc : pc t = .released w) :
    SleepTable (Function.update blocked w.cond (insert t (blocked w.cond))) sleeping
      (Function.update pc t (.asleep w 0)) := by
  have hblocked := h.not_blocked (t := t) (by simp [hpc])
  constructor
  · intro c u hu
    by_cases hut : u = t
    · subst hut
      refine ⟨w,0,Function.update_self ..,?_⟩
      by_contra hne
      rw [Function.update_of_ne (Ne.symm hne)] at hu
      exact hblocked c hu
    · rw [Function.update_of_ne hut]
      refine h.waits c u ?_
      by_cases hc : c = w.cond
      · subst hc
        rw [Function.update_self, Finset.mem_insert] at hu
        exact hu.resolve_left hut
      · rwa [Function.update_of_ne hc] at hu
  · intro u c hu
    rcases h.listed u c hu with hmem | ⟨w',hw',hc⟩
    · refine .inl ?_
      by_cases hc : c = w.cond
      · subst hc
        simp [hmem]
      · rwa [Function.update_of_ne hc]
    · by_cases hut : u = t
      · subst hut
        obtain rfl : w = w' := by simpa [hpc] using hw'
        subst hc
        simp
      · exact .inr ⟨w',by rwa [Function.update_of_ne hut],hc⟩

/-- Some of the blocked are woken. -/
lemma rouse (h : SleepTable blocked sleeping pc) (c : CondId) (threads : Finset Tid) :
    SleepTable (Function.update blocked c (blocked c \ threads))
      (fun u => if u ∈ threads then none else sleeping u) pc := by
  constructor
  · intro c' u hu
    refine h.waits c' u ?_
    by_cases hc : c' = c
    · subst hc
      rw [Function.update_self, Finset.mem_sdiff] at hu
      exact hu.1
    · rwa [Function.update_of_ne hc] at hu
  · intro u c' hu
    split_ifs at hu with hmem
    rcases h.listed u c' hu with hblocked | hreleased
    · refine .inl ?_
      by_cases hc : c' = c
      · subst hc
        simp [hblocked, hmem]
      · rwa [Function.update_of_ne hc]
    · exact .inr hreleased

end SleepTable

namespace SyncManager

variable {s s' : SyncManager} {t u : Tid} {act : Act}

def Locked (s : SyncManager) : Prop := LockTable s.holders s.pc

def Sleeps (s : SyncManager) : Prop := SleepTable s.blocked s.sleeping s.pc

lemma locked_next (hl : Locked s) (h : next s t act = some s') : Locked s' := by
  have hpass (s : SyncManager) (call : MutexCall) (addr : GuestAddr) (m : MutexId)
      (expired late : Bool) (hl : ∀ pc : Pc, pc.holds = none →
        LockTable s.holders (Function.update s.pc t pc)) :
      Locked (s.pass t call addr m expired late) := by
    obtain ⟨pc,hpc,hkind⟩ := s.pass_pc (t := t) call addr m expired late
    rw [Locked, hpc, pass_holders]
    refine hl pc ?_
    rcases hkind with rfl | ⟨code,rfl⟩ <;> rfl
  revert h
  fun_cases next s t act <;> intro h <;> cases h
  case case1 hpc => exact hl.stay (by rw [hpc, entry_holds]; rfl)
  case case4 hpc _ _ =>
    refine hl.stay ?_
    split_ifs <;> simp [hpc, Pc.holds]
  case case11 hpc _ _ _ =>
    exact hpass _ _ _ _ _ _ fun pc hpc' => hl.stay (by rw [hpc, hpc']; rfl)
  case case13 hpc _ =>
    exact hpass _ _ _ _ _ _ fun pc hpc' => hl.leave (by rw [hpc]; rfl) hpc'
  case case32 w _ _ hpc hfree =>
    -- the state is unlocked before the gate is entered
    have hleft : LockTable _ (Function.update s.pc t (.done 0)) := hl.leave (by rw [hpc]; rfl) rfl
    have hentered : LockTable _ (Function.update (Function.update s.pc t (.done 0)) t (.released w)) :=
      hleft.take (by simp [Pc.holds]) rfl (by simpa using hfree)
    rwa [Function.update_idem] at hentered
  all_goals
    rename s.pc t = _ => hpc
    first
    | exact hl.stay (by rw [hpc]; rfl)
    | exact hl.take (by rw [hpc]; rfl) rfl (by simp_all)
    | exact hl.leave (by rw [hpc]; rfl) rfl

lemma sleeps_next (hs : Sleeps s) (h : next s t act = some s') : Sleeps s' := by
  have hawake : ∀ w code, s.pc t = .asleep w code → t ∉ s.blocked w.cond → ∀ c, t ∉ s.blocked c := by
    intro w code hpc hout c hmem
    obtain ⟨w',code',hpc',rfl⟩ := hs.waits c t hmem
    obtain ⟨rfl,-⟩ : w = w' ∧ code = code' := by simpa [hpc] using hpc'
    exact hout hmem
  have hpass (s : SyncManager) (call : MutexCall) (addr : GuestAddr) (m : MutexId)
      (expired late : Bool) (hs : ∀ pc : Pc, SleepTable s.blocked s.sleeping
        (Function.update s.pc t pc)) :
      Sleeps (s.pass t call addr m expired late) := by
    obtain ⟨pc,hpc,-⟩ := s.pass_pc (t := t) call addr m expired late
    rw [Sleeps, hpc, pass_blocked, pass_sleeping]
    exact hs pc
  revert h
  fun_cases next s t act <;> intro h <;> cases h
  case case11 hpc _ _ _ =>
    exact hpass _ _ _ _ _ _ fun pc => hs.move (by simp [hpc]) (hs.not_blocked (by simp [hpc]))
  case case13 hpc _ =>
    exact hpass _ _ _ _ _ _ fun pc => hs.move (by simp [hpc]) (hs.not_blocked (by simp [hpc]))
  case case32 hpc _ => exact hs.giveUp (hs.not_blocked (by simp [hpc]))
  case case33 hpc => exact hs.block hpc
  case case34 w code _ hpc _ =>
    refine (hs.rouse w.cond {t}).move (by simp [hpc]) fun c hmem => ?_
    by_cases hc : c = w.cond
    · subst hc
      simp at hmem
    · rw [Function.update_of_ne hc] at hmem
      obtain ⟨w',code',hpc',rfl⟩ := hs.waits c t hmem
      obtain ⟨rfl,-⟩ : w = w' ∧ code = code' := by simpa [hpc] using hpc'
      exact hc rfl
  case case37 w code _ _ hpc hfree =>
    push Not at hfree
    exact hs.move (by simp [hpc]) (hawake w code hpc hfree.1)
  case case45 c _ _ _ hpc =>
    have hroused := hs.rouse c (s.blocked c)
    exact hroused.move (by simp [hpc]) (hroused.not_blocked (by simp [hpc]))
  case case47 c _ _ woken hpc _ _ _ _ =>
    have hroused := hs.rouse c {woken}
    exact hroused.move (by simp [hpc]) (hroused.not_blocked (by simp [hpc]))
  all_goals
    rename s.pc t = _ => hpc
    exact hs.move (by simp [hpc]) (hs.not_blocked (by simp [hpc]))

/-- The order in which the internal locks are taken. -/
def rank : SyncLock → ℕ
  | .mutexes => 0
  | .state _ => 1
  | .condvars => 2
  | .waitLock _ => 3
  | .reportedStuck => 4

lemma rank_lt {pc : Pc} {held wanted : SyncLock} (hh : pc.holds = some held)
    (hw : pc.awaits = some wanted) : rank held < rank wanted := by
  cases pc <;> simp only [Pc.holds, Pc.awaits, reduceCtorEq, Option.some.injEq] at hh hw
  all_goals
    subst hh hw
    simp [rank]

/-- A thread waits for another that holds the internal lock it needs. -/
def WaitsFor (s : SyncManager) : Tid → Tid → Prop :=
  Transition.WaitsFor (fun t lock => t ∈ s.holders lock) fun t lock => (s.pc t).awaits = some lock

lemma not_waits_self (hl : Locked s) (t : Tid) : ¬Relation.TransGen s.WaitsFor t t := by
  refine Transition.not_waits_self rank (fun t held wanted hh hw => ?_) t
  exact rank_lt ((hl.holder held t).mp hh) hw

/-- Nothing but the lock it needs, or the condition it waits on, holds a thread up. -/
lemma next_of_free {lock : SyncLock} (ha : (s.pc t).awaits = some lock) (hfree : s.holders lock = ∅)
    (hw : ∀ w code, s.pc t = .asleep w code → t ∉ s.blocked w.cond) :
    ∃ woken, (s.next t (.go false woken)).isSome := by
  cases hpc : s.pc t <;> simp only [hpc, Pc.awaits, reduceCtorEq, Option.some.injEq] at ha
  case enter call addr m expired =>
    split_ifs at ha with htry
    obtain rfl := Option.some.inj ha
    refine ⟨0,?_⟩
    simp only [next, hpc, htry, hfree, false_and, if_false, ne_eq, not_true_eq_false]
    split_ifs <;> rfl
  case notify c all =>
    obtain rfl := ha
    by_cases hnone : s.blocked c = ∅
    · refine ⟨0,?_⟩
      simp only [next, hpc, hfree, hnone, ne_eq, not_true_eq_false, if_false, if_true]
      split_ifs <;> rfl
    · obtain ⟨woken,hwoken⟩ := Finset.nonempty_iff_ne_empty.mpr hnone
      refine ⟨woken,?_⟩
      simp only [next, hpc, hfree, hnone, hwoken, ne_eq, not_true_eq_false, if_false, if_true]
      split_ifs <;> rfl
  case asleep w code =>
    obtain rfl := ha
    exact ⟨0,by simp [next, hpc, hfree, hw w code hpc]⟩
  case findCond | findSignal | findWait | find | create | init | destroy | initCond | destroyCond =>
    refine ⟨0,?_⟩
    obtain rfl := ha
    simp only [next, hpc, hfree, ne_eq, not_true_eq_false, if_false]
    split <;> rfl
  case enterWait | relock =>
    refine ⟨0,?_⟩
    obtain rfl := ha
    simp only [next, hpc, hfree, ne_eq, not_true_eq_false, if_false]
    split_ifs <;> rfl
  case report | reset | gate =>
    obtain rfl := ha
    exact ⟨0,by simp [next, hpc, hfree]⟩

/-- A signal comes only when each thread that gave up its mutex is among the blocked. -/
lemma sleeping_blocked (hl : Locked s) (hs : Sleeps s) {c : CondId}
    (hfree : s.holders (.waitLock c) = ∅) (hu : s.sleeping u = some c) : u ∈ s.blocked c := by
  rcases hs.listed u c hu with hmem | ⟨w,hpc,rfl⟩
  · exact hmem
  · have hgate : u ∈ s.holders (.waitLock w.cond) := (hl.holder _ u).mpr (by rw [hpc]; rfl)
    rw [hfree] at hgate
    exact absurd hgate (Finset.notMem_empty u)

lemma free_of_notify {c : CondId} {all : Bool} (hpc : s.pc t = .notify c all)
    (h : next s t act = some s') : s.holders (.waitLock c) = ∅ := by
  cases act <;> simp only [next, hpc, reduceCtorEq] at h
  by_contra hheld
  rw [if_pos hheld] at h
  cases h

end SyncManager

end Unemups4.Kernel

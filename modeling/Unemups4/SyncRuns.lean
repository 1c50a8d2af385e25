import Unemups4.MutexOwner

/-! Runs of the kernel's mutexes and conditions: one thread at a time holds a mutex, no signal
falls between a wait's release and its sleep, a waiter comes back with the count it had, and
the internal locks never form a cycle. A mutex destroyed in use, or a count run over, ends the
first and the last. -/
namespace Unemups4.Kernel.SyncManager

open Transition (Reach)

variable {s s' : SyncManager} {t u : Tid} {act : Act} {ok : SyncManager → Tid × Act → Prop}

def Initial (s : SyncManager) : Prop := s = start

/-- The thread has more acquisitions than releases; a condition wait is a release until it
returns. -/
def Holding (s : SyncManager) (t : Tid) (addr : GuestAddr) : Prop :=
  0 < s.held t addr ∧ ∀ w, (s.pc t).waiting = some w → w.addr ≠ addr

def Exclusive (s : SyncManager) : Prop :=
  ∀ addr t u, s.Holding t addr → s.Holding u addr → t = u

/-- No mutex is destroyed in use and no count runs over. -/
def Careful (s : SyncManager) (l : Tid × Act) : Prop := Unused s l ∧ Counted s l

def Undestroyed (s : SyncManager) (l : Tid × Act) : Prop := ∀ addr, s.pc l.1 ≠ .destroy addr

/-- What a wait promises: a signal finds every sleeper among the blocked, a waiter returns with
the count it had when it called, the internal locks are not waited for in a cycle and hold a
thread up only while they are taken, and no unlock takes from a count of zero. -/
structure WaitsSound (s : SyncManager) : Prop where
  listed : ∀ t act s' c all, s.pc t = .notify c all → s.next t act = some s' →
    ∀ u, s.sleeping u = some c → u ∈ s.blocked c
  restored : ∀ t act s' w code code', s.pc t = .relock w code → s.next t act = some s' →
    s'.pc t = .done code' → 0 < w.called ∧ s'.count t w.addr = w.called
  acyclic : ∀ t, ¬Relation.TransGen s.WaitsFor t t
  moves : ∀ t lock, (s.pc t).awaits = some lock → s.holders lock = ∅ →
    (∀ w code, s.pc t = .asleep w code → t ∉ s.blocked w.cond) →
      ∃ woken, (s.next t (.go false woken)).isSome
  counted : ∀ t addr m expired, s.pc t = .enter .unlock addr m expired →
    (s.objects m).owner = some t → (s.objects m).locks ≠ 0

lemma locked_reach (hs : Reach step Initial ok s) : Locked s := by
  refine hs.invariant ?_ fun s l s' hl _ h => locked_next hl h
  rintro s rfl
  exact ⟨fun _ _ => by simp [start, Pc.holds],fun _ _ _ hmem => absurd hmem (Finset.notMem_empty _)⟩

lemma sleeps_reach (hs : Reach step Initial ok s) : Sleeps s := by
  refine hs.invariant ?_ fun s l s' hs _ h => sleeps_next hs h
  rintro s rfl
  exact ⟨fun _ _ hmem => absurd hmem (Finset.notMem_empty _),fun _ _ h => by cases h⟩

lemma owned_start : Owned start where
  fresh _ _ h := by cases h
  inj _ _ _ h := by cases h
  named _ _ _ h := by cases h
  sound _ _ h := by cases h
  absent _ _ _ := rfl
  balance _ _ _ h := by cases h
  waits _ _ h := by cases h
  gates _ _ h := by cases h
  calls _ _ _ h := by cases h

lemma owned_reach (hs : Reach step Initial Careful s) : Owned s := by
  refine hs.invariant_of (fun s hs => locked_reach hs) ?_
    fun s l s' hl ho hok h => owned_next hl ho hok.1 hok.2 h
  rintro s rfl
  exact owned_start

/-- A thread that holds a mutex owns it. -/
lemma Owned.owner_of_holding (ho : Owned s) {addr : GuestAddr} (h : s.Holding t addr) :
    ∃ m, s.mutexes addr = some m ∧ (s.objects m).owner = some t := by
  obtain ⟨hheld,hwait⟩ := h
  cases hm : s.mutexes addr with
  | none =>
    rw [ho.absent addr hm t] at hheld
    exact absurd hheld (lt_irrefl 0)
  | some m =>
    refine ⟨m,rfl,?_⟩
    by_contra howner
    rw [ho.balance addr m t hm hwait, HostMutexState.countOf_of_ne howner] at hheld
    exact absurd hheld (lt_irrefl 0)

/-- While no mutex is destroyed in use and no count runs over, one thread at a time holds the
mutex of an address. -/
theorem careful_exclusive (hs : Reach step Initial Careful s) : Exclusive s := by
  intro addr t u ht hu
  have ho := owned_reach hs
  obtain ⟨m,hm,howner⟩ := ho.owner_of_holding ht
  obtain ⟨m',hm',howner'⟩ := ho.owner_of_holding hu
  obtain rfl : m = m' := Option.some.inj (hm.symm.trans hm')
  exact Option.some.inj (howner.symm.trans howner')

/-- A second thread contends for a mutex, parks, and takes it once its holder has given it up. -/
theorem careful_exclusive_locked :
    ∃ s, Exclusive s ∧ s.Holding 1 0 ∧ ¬s.Holding 0 0 ∧ s.held 0 0 = 0 := by
  have step' : ∀ {s s' : SyncManager} (t : Tid) (act : Act), Reach step Initial Careful s →
      Careful s (t,act) → step s (t,act) = some s' → Reach step Initial Careful s' :=
    fun _ _ hs hok hnext => hs.step hok hnext
  have h₀ : Reach step Initial Careful start := .start rfl
  -- thread 0 takes the mutex
  have h₁ := step' 0 (.call (.mutex .lock 0)) h₀ ⟨trivial,trivial⟩ rfl
  have h₂ := step' 0 (.go false 0) h₁ ⟨trivial,trivial⟩ rfl
  have h₃ := step' 0 (.go false 0) h₂ ⟨trivial,trivial⟩ rfl
  have h₄ := step' 0 (.go false 0) h₃ ⟨trivial,by rintro ⟨h,-⟩; cases h⟩ rfl
  -- thread 1 finds it owned and parks
  have h₅ := step' 1 (.call (.mutex .lock 0)) h₄ ⟨trivial,trivial⟩ rfl
  have h₆ := step' 1 (.go false 0) h₅ ⟨trivial,trivial⟩ rfl
  have h₇ := step' 1 (.go false 0) h₆ ⟨trivial,by rintro ⟨h,-⟩; cases h⟩ rfl
  -- thread 0 gives it up
  have h₈ := step' 0 (.call (.mutex .unlock 0)) h₇ ⟨trivial,trivial⟩ rfl
  have h₉ := step' 0 (.go false 0) h₈ ⟨trivial,trivial⟩ rfl
  have h₁₀ := step' 0 (.go false 0) h₉ ⟨trivial,by rintro ⟨-,h,-⟩; exact h rfl⟩ rfl
  -- thread 1 is woken and takes it
  have h₁₁ := step' 1 (.wake false) h₁₀ ⟨trivial,trivial⟩ rfl
  have h₁₂ := step' 1 (.go false 0) h₁₁ ⟨trivial,by rintro ⟨h,-⟩; cases h⟩ rfl
  refine ⟨_,careful_exclusive h₁₂,⟨by decide,fun _ h => by cases h⟩,fun h => ?_,by decide⟩
  exact absurd h.1 (by decide)

/-- One thread locks a mutex, another destroys it and locks it anew. -/
theorem not_exclusive_destroyed : ¬∀ s, Reach step Initial (fun _ _ => True) s → Exclusive s := by
  intro h
  have hrun : ((Transition.exec (Transition.guarded step fun _ _ => True) start
      [(0,.call (.mutex .lock 0)),(0,.go false 0),(0,.go false 0),(0,.go false 0),
        (1,.call (.mutexDestroy 0)),(1,.go false 0),
        (1,.call (.mutex .lock 0)),(1,.go false 0),(1,.go false 0),(1,.go false 0)]).map fun s =>
      decide (s.held 0 0 = 1 ∧ s.held 1 0 = 1 ∧ s.pc 0 = .done 0 ∧ s.pc 1 = .done 0)) = some true := by
    decide
  obtain ⟨s,hexec,hs⟩ := Option.map_eq_some_iff.mp hrun
  obtain ⟨h0,h1,hpc0,hpc1⟩ := of_decide_eq_true hs
  have hstart : Reach step Initial (fun _ _ => True) start := .start rfl
  have hexcl := h s (hstart.exec hexec) 0 0 1
    ⟨by rw [h0]; decide,fun w hw => by rw [hpc0] at hw; cases hw⟩
    ⟨by rw [h1]; decide,fun w hw => by rw [hpc1] at hw; cases hw⟩
  cases hexcl

lemma waitsSound_of (hl : Locked s) (hs : Sleeps s) (ho : Owned s) : WaitsSound s where
  listed t act s' c all hpc h u hu := sleeping_blocked hl hs (free_of_notify hpc h) hu
  restored t act s' w code code' hpc h hdone := by
    have hm := ho.named t w.addr w.mutex (by rw [hpc]; rfl)
    have hcalled := ho.calls t w.addr w.called (by rw [hpc]; rfl)
    obtain ⟨hheld,hsaved,-⟩ := ho.waits t w (by rw [hpc]; rfl)
    have hcount : w.saved.toNat = w.called := hheld.symm.trans hcalled
    have hpos : w.saved.toNat ≠ 0 := fun hzero => hsaved (BitVec.toNat_inj.mp hzero)
    refine ⟨by omega,?_⟩
    cases act <;> simp only [next, hpc, reduceCtorEq] at h
    split_ifs at h <;> cases h
    · simp at hdone
    · simp [count, hm, hcount]
  acyclic := not_waits_self hl
  moves _ _ := next_of_free
  counted t addr m expired hpc howner :=
    (ho.sound addr m (ho.named t addr m (by rw [hpc]; rfl))).locks_ne howner

/-- While no mutex is destroyed and no count runs over, waits keep their promises. -/
theorem counted_waitsSound (hs : Reach step Initial (fun s l => Undestroyed s l ∧ Counted s l) s) :
    WaitsSound s := by
  refine waitsSound_of (locked_reach hs) (sleeps_reach hs) (owned_reach (hs.mono ?_))
  rintro s l ⟨hkept,hcounted⟩
  refine ⟨?_,hcounted⟩
  unfold Unused
  split
  · next addr hpc => exact absurd hpc (hkept addr)
  · trivial

/-- A thread sleeps on a condition that another is about to signal. -/
theorem counted_waitsSound_notify :
    ∃ s, WaitsSound s ∧ s.sleeping 0 = some 0 ∧ s.pc 1 = .notify 0 false := by
  have hstart : Reach step Initial (fun s l => Undestroyed s l ∧ Counted s l) start := .start rfl
  have go {s s' : SyncManager} {l : Tid × Act}
      (hs : Reach step Initial (fun s l => Undestroyed s l ∧ Counted s l) s)
      (hkept : Undestroyed s l) (hcounted : Counted s l) (h : step s l = some s') :
      Reach step Initial (fun s l => Undestroyed s l ∧ Counted s l) s' :=
    hs.step ⟨hkept,hcounted⟩ h
  have h1 := go (l := (0,.call (.condInit 5))) hstart (by rintro _ ⟨⟩) trivial rfl
  have h2 := go (l := (0,.go false 0)) h1 (by rintro _ ⟨⟩) trivial rfl
  have h3 := go (l := (0,.call (.mutex .lock 0))) h2 (by rintro _ ⟨⟩) trivial rfl
  have h4 := go (l := (0,.go false 0)) h3 (by rintro _ ⟨⟩) trivial rfl
  have h5 := go (l := (0,.go false 0)) h4 (by rintro _ ⟨⟩) trivial rfl
  have h6 := go (l := (0,.go false 0)) h5 (by rintro _ ⟨⟩) (by rintro ⟨⟨⟩,-⟩) rfl
  have h7 := go (l := (0,.call (.condWait 5 0 false))) h6 (by rintro _ ⟨⟩) trivial rfl
  have h8 := go (l := (0,.go false 0)) h7 (by rintro _ ⟨⟩) trivial rfl
  have h9 := go (l := (0,.go false 0)) h8 (by rintro _ ⟨⟩) trivial rfl
  have h10 := go (l := (0,.go false 0)) h9 (by rintro _ ⟨⟩) trivial rfl
  have h11 := go (l := (0,.go false 0)) h10 (by rintro _ ⟨⟩) trivial rfl
  have h12 := go (l := (0,.go false 0)) h11 (by rintro _ ⟨⟩) trivial rfl
  have h13 := go (l := (1,.call (.condSignal 5 false))) h12 (by rintro _ ⟨⟩) trivial rfl
  have h14 := go (l := (1,.go false 0)) h13 (by rintro _ ⟨⟩) trivial rfl
  exact ⟨_,counted_waitsSound h14,rfl,rfl⟩

/-- The state after a thread has locked a mutex so often, and nothing else. -/
def Relocked (n : ℕ) (s : SyncManager) : Prop :=
  s.pc 0 = .done 0 ∧ s.mutexes 0 = some 0 ∧ s.holders .mutexes = ∅ ∧ s.holders (.state 0) = ∅ ∧
    s.objects 0 = ⟨some 0,BitVec.ofNat 32 n,.normal⟩

lemma relocked_succ {n : ℕ} (hs : Reach step Initial Undestroyed s) (hn : Relocked n s) :
    ∃ s', Reach step Initial Undestroyed s' ∧ Relocked (n+1) s' := by
  obtain ⟨hpc,hm,hmutexes,hstate,hobject⟩ := hn
  have hcalled := hs.step (l := (0,.call (.mutex .lock 0))) (by simp [Undestroyed, hpc])
    (by simp only [step, next, hpc, entry]; rfl)
  have hfound := hcalled.step (l := (0,.go false 0)) (by simp [Undestroyed])
    (by simp only [step, next, goto_pc, Function.update_self, goto_holders, hmutexes, goto_mutexes, hm]; rfl)
  have hrelocked := hfound.step (l := (0,.go false 0)) (by simp [Undestroyed])
    (by simp only [step, next, goto_pc, Function.update_self, goto_holders, hstate]; rfl)
  refine ⟨_,hrelocked,?_⟩
  have hcount : BitVec.ofNat 32 n+1#32 = BitVec.ofNat 32 (n+1) := (BitVec.ofNat_add ..).symm
  simp [Relocked, pass, HostMutexState.pass, HostMutexState.lockPass, hobject, balance, hm, hmutexes,
    hstate, hcount]

lemma relocked (n : ℕ) : ∃ s, Reach step Initial Undestroyed s ∧ Relocked (n+1) s := by
  induction n with
  | zero =>
    have hstart : Reach step Initial Undestroyed start := .start rfl
    have hcalled := hstart.step (l := (0,.call (.mutex .lock 0))) (by rintro _ ⟨⟩) rfl
    have hmissed := hcalled.step (l := (0,.go false 0)) (by rintro _ ⟨⟩) rfl
    have hcreated := hmissed.step (l := (0,.go false 0)) (by rintro _ ⟨⟩) rfl
    have hlocked := hcreated.step (l := (0,.go false 0)) (by rintro _ ⟨⟩) rfl
    exact ⟨_,hlocked,rfl,rfl,rfl,rfl,rfl⟩
  | succ n ih =>
    obtain ⟨s,hs,hn⟩ := ih
    exact relocked_succ hs hn

/-- A mutex relocked 2^32 times has a count of zero, from which its owner then unlocks. -/
theorem not_waitsSound_full : ¬∀ s, Reach step Initial Undestroyed s → WaitsSound s := by
  intro h
  obtain ⟨s,hs,hpc,hm,hmutexes,-,hobject⟩ := relocked (2^32-1)
  have hcalled := hs.step (l := (0,.call (.mutex .unlock 0))) (by simp [Undestroyed, hpc])
    (by simp only [step, next, hpc, entry]; rfl)
  have hfound := hcalled.step (l := (0,.go false 0)) (by simp [Undestroyed])
    (by simp only [step, next, goto_pc, Function.update_self, goto_holders, hmutexes, goto_mutexes, hm]; rfl)
  refine (h _ hfound).counted 0 0 0 false (by simp) ?_ ?_
  · simp [hobject]
  · simp only [goto_objects, hobject]
    decide

end Unemups4.Kernel.SyncManager

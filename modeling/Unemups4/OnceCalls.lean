import Unemups4.SyncManager

/-! One-time initialisation: the callers of one control word, of whom the first runs the init routine
in a nested guest call while the others spin. The word is taken for done when the nested call is over,
however it ended. -/
namespace Unemups4.Kernel.Once

open Transition (Reach)

/-- Where a call stands: about to load the word, about to exchange it, in the init routine, about to
store that it is done, or spinning. -/
inductive Frame where
  | load
  | exchange
  | running
  | store
  | spin
  deriving DecidableEq, Repr

/-- How the nested guest call ends: the routine returns, ends its thread, or faults. -/
inductive Outcome where
  | returned
  | threadExit
  | fatal
  deriving DecidableEq, Repr

inductive Act where
  | call (valid : Bool)
  | go
  | finish (outcome : Outcome)
  deriving DecidableEq, Repr

/-- What a call returned, with the runs of the routine that had completed by then. -/
structure Result where
  code : ℕ
  completed : ℕ
  deriving DecidableEq, Repr

/-- The word and the threads: their calls, the innermost first, and whether they are to end. Counted
are the starts and the completions of the routine. -/
structure State where
  word : ℕ
  stack : Tid → List Frame
  exiting : Tid → Bool
  started : ℕ
  completed : ℕ
  results : List Result

def start : State := ⟨0,fun _ => [],fun _ => false,0,0,[]⟩

namespace State

variable (s : State) (t : Tid)

def setStack (stack : List Frame) : State := { s with stack := Function.update s.stack t stack }

def returns (code : ℕ) (rest : List Frame) : State :=
  { s.setStack t rest with results := ⟨code,s.completed⟩ :: s.results }

/-- A thread runs guest code outside of its calls and in the init routine. -/
def inGuest : Bool :=
  !s.exiting t && match s.stack t with
    | [] | .running :: _ => true
    | _ => false

/-- The next access of the innermost call. In a thread that is to end no guest code runs. -/
def advance : Frame → List Frame → Option State
  | .load,rest =>
      some (if s.word = 2 then s.returns t 0 rest else s.setStack t (.exchange :: rest))
  | .exchange,rest =>
      some (if s.word = 0 then
        { s.setStack t (.running :: rest) with word := 1, started := s.started+1 }
      else if s.word = 2 then s.returns t 0 rest
      else s.setStack t (.spin :: rest))
  | .running,rest => if s.exiting t then some (s.setStack t (.store :: rest)) else none
  | .store,rest => some { s.returns t 0 rest with word := 2 }
  | .spin,rest => some (if s.word = 2 then s.returns t 0 rest else s)

/-- The nested call is over. -/
def ended (outcome : Outcome) (rest : List Frame) : State :=
  match outcome with
  | .returned => { s.setStack t (.store :: rest) with completed := s.completed+1 }
  | .threadExit =>
      { s.setStack t (.store :: rest) with exiting := Function.update s.exiting t true }
  | .fatal => s.setStack t (.store :: rest)

def next : Act → Option State
  | .call valid =>
      if s.inGuest t then
        some (if valid then s.setStack t (.load :: s.stack t) else s.returns t 0x80020016 (s.stack t))
      else none
  | .go =>
      match s.stack t with
      | [] => none
      | frame :: rest => s.advance t frame rest
  | .finish outcome =>
      match s.stack t with
      | .running :: rest => if s.exiting t then none else some (s.ended t outcome rest)
      | _ => none

end State

def step (s : State) (l : Tid × Act) : Option State := s.next l.1 l.2

/-- A call that waits for another thread. -/
def State.Spinning (s : State) (t : Tid) : Prop :=
  s.word ≠ 2 ∧ ∃ rest, s.stack t = .spin :: rest

/-- A thread in a call that it goes on with. -/
def State.Moves (s : State) (t : Tid) : Prop :=
  ∃ frame rest, s.stack t = frame :: rest ∧ frame ≠ .spin

/-- The routine is started at most once, no call returns zero before a run of it has completed, and
no call spins with nobody to wait for. -/
structure Exact (s : State) : Prop where
  once : s.started ≤ 1
  after : ∀ r ∈ s.results, r.code = 0 → 0 < r.completed
  live : ∀ t, s.Spinning t → ∃ u ≠ t, s.Moves u

/-- The routine returns, and makes no call on its own word. -/
def Plain (s : State) (l : Tid × Act) : Prop :=
  match l.2 with
  | .call valid => valid → s.stack l.1 = []
  | .go => True
  | .finish outcome => outcome = .returned

instance (s : State) (l : Tid × Act) : Decidable (Plain s l) := by
  unfold Plain
  split <;> infer_instance

/-- A thread outside of the calls, or in one that has not exchanged the word. -/
def Entering : List Frame → Prop
  | [] | [.load] | [.exchange] => True
  | _ => False

/-- The same, or in a call that spins. -/
def Waiting (stack : List Frame) : Prop := Entering stack ∨ stack = [.spin]

/-- The thread that exchanged the word, until it stores that the routine is done. -/
def State.Owner (s : State) (t : Tid) : Prop :=
  s.stack t = [.running] ∨ s.stack t = [.store] ∧ 0 < s.completed

/-- How far the word is: untouched, exchanged by one thread, or done. -/
inductive State.Phase (s : State) : Prop
  | untouched : s.word = 0 → s.started = 0 → (∀ t, Entering (s.stack t)) → s.Phase
  | owned (u : Tid) : s.word = 1 → s.started = 1 → s.Owner u → (∀ t ≠ u, Waiting (s.stack t)) →
      s.Phase
  | done : s.word = 2 → s.started = 1 → 0 < s.completed → (∀ t, Waiting (s.stack t)) → s.Phase

structure Kept (s : State) : Prop where
  guest : ∀ t, s.exiting t = false
  after : ∀ r ∈ s.results, r.code = 0 → 0 < r.completed
  phase : s.Phase

section Kept

variable {s : State} {t : Tid} {frame : Frame} {rest : List Frame}

lemma waiting_cons (h : Waiting (frame :: rest)) :
    rest = [] ∧ (frame = .load ∨ frame = .exchange ∨ frame = .spin) := by
  cases frame <;> cases rest <;> simp_all [Waiting,Entering]

lemma State.Owner.not_waiting {u : Tid} (h : s.Owner u) : ¬Waiting (s.stack u) := by
  obtain h | ⟨h,-⟩ := h <;> simp [h,Waiting,Entering]

/-- A thread that waits goes on without the word. -/
lemma State.Phase.move {stack : List Frame} (h : s.Phase) (ht : Waiting (s.stack t))
    (hzero : s.word = 0 → Entering stack) (hw : Waiting stack) : (s.setStack t stack).Phase := by
  cases h with
  | untouched hword hstarted hall =>
    refine .untouched hword hstarted ?_
    exact (Function.forall_update_iff _ fun _ => Entering).mpr ⟨hzero hword,fun x _ => hall x⟩
  | owned u hword hstarted howner hall =>
    have hne : u ≠ t := by
      rintro rfl
      exact howner.not_waiting ht
    refine .owned u hword hstarted (by simpa [State.Owner,State.setStack,hne] using howner) ?_
    intro x hx
    by_cases hxt : x = t
    · simpa [State.setStack,hxt] using hw
    · simpa [State.setStack,hxt] using hall x hx
  | done hword hstarted hcompleted hall =>
    refine .done hword hstarted hcompleted ?_
    exact (Function.forall_update_iff _ fun _ => Waiting).mpr ⟨hw,fun x _ => hall x⟩

lemma State.Phase.completed (h : s.Phase) (hword : s.word = 2) : 0 < s.completed := by
  cases h <;> simp_all

/-- A thread waits, or is the one that exchanged the word. -/
lemma State.Phase.waiting_or (h : s.Phase) (t : Tid) :
    Waiting (s.stack t) ∨ s.word = 1 ∧ s.started = 1 ∧ s.Owner t ∧ ∀ u ≠ t, Waiting (s.stack u) := by
  cases h with
  | untouched _ _ hall => exact .inl (.inl (hall t))
  | owned u hword hstarted howner hall =>
    by_cases hut : t = u
    · exact .inr (hut ▸ ⟨hword,hstarted,howner,hall⟩)
    · exact .inl (hall t hut)
  | done _ _ _ hall => exact .inl (hall t)

lemma Kept.move {stack : List Frame} (h : Kept s) (ht : Waiting (s.stack t))
    (hzero : s.word = 0 → Entering stack) (hw : Waiting stack) : Kept (s.setStack t stack) :=
  ⟨h.guest,h.after,h.phase.move ht hzero hw⟩

lemma Kept.returns {code : ℕ} (h : Kept s) (hp : (s.setStack t rest).Phase)
    (hcode : code = 0 → 0 < s.completed) : Kept (s.returns t code rest) := by
  refine ⟨h.guest,?_,?_⟩
  · simpa [State.returns] using ⟨hcode,h.after⟩
  · cases hp with
    | untouched hword hstarted hall => exact .untouched hword hstarted hall
    | owned u hword hstarted howner hall => exact .owned u hword hstarted howner hall
    | done hword hstarted hcompleted hall => exact .done hword hstarted hcompleted hall

/-- A call that finds the routine done. -/
lemma Kept.passes (h : Kept s) (ht : Waiting (s.stack t))
    (hword : s.word = 2) : Kept (s.returns t 0 []) := by
  have hp : (s.setStack t []).Phase := h.phase.move ht (fun _ => trivial) (.inl trivial)
  exact h.returns hp fun _ => h.phase.completed hword

lemma Kept.advance_waiting {s' : State} (h : Kept s) (hstack : s.stack t = frame :: rest)
    (ht : Waiting (s.stack t)) (hs : s.advance t frame rest = some s') : Kept s' := by
  obtain ⟨rfl,hframe⟩ := waiting_cons (hstack ▸ ht)
  obtain rfl | rfl | rfl := hframe
  · simp only [State.advance,Option.some.injEq] at hs
    split_ifs at hs with hword
    · exact hs ▸ h.passes ht hword
    · exact hs ▸ h.move ht (fun _ => trivial) (.inl trivial)
  · simp only [State.advance,Option.some.injEq] at hs
    split_ifs at hs with hzero htwo
    · subst hs
      refine ⟨h.guest,h.after,?_⟩
      cases h.phase with
      | untouched _ hstarted hall =>
        refine .owned t rfl (by simp [hstarted]) (by simp [State.Owner,State.setStack]) ?_
        intro u hu
        simpa [State.setStack,hu] using .inl (hall u)
      | owned u hword _ _ _ => simp_all
      | done hword _ _ _ => simp_all
    · exact hs ▸ h.passes ht htwo
    · exact hs ▸ h.move ht (fun hword => absurd hword hzero) (.inr rfl)
  · simp only [State.advance,Option.some.injEq] at hs
    split_ifs at hs with hword
    · exact hs ▸ h.passes ht hword
    · exact hs ▸ h

lemma Kept.advance_owner {s' : State} (h : Kept s) (hstack : s.stack t = frame :: rest)
    (hstarted : s.started = 1) (ht : s.Owner t) (hall : ∀ u ≠ t, Waiting (s.stack u))
    (hs : s.advance t frame rest = some s') : Kept s' := by
  obtain hrunning | ⟨hstore,hcompleted⟩ := ht
  · obtain ⟨rfl,rfl⟩ : frame = .running ∧ rest = [] := by simpa [hstack] using hrunning
    simp [State.advance,h.guest] at hs
  · obtain ⟨rfl,rfl⟩ : frame = .store ∧ rest = [] := by simpa [hstack] using hstore
    obtain rfl : { s.returns t 0 [] with word := 2 } = s' := by simpa [State.advance] using hs
    refine ⟨h.guest,?_,.done rfl hstarted hcompleted ?_⟩
    · simpa [State.returns] using ⟨hcompleted,h.after⟩
    · refine (Function.forall_update_iff _ fun _ => Waiting).mpr ⟨.inl trivial,?_⟩
      intro u hu
      exact hall u hu

/-- Only the call that exchanged the word has a nested guest call to end. -/
lemma finish_waiting {outcome : Outcome} (ht : Waiting (s.stack t)) :
    s.next t (.finish outcome) = none := by
  cases hstack : s.stack t with
  | nil => simp [State.next,hstack]
  | cons frame rest =>
    obtain ⟨rfl,rfl | rfl | rfl⟩ := waiting_cons (hstack ▸ ht) <;> simp [State.next,hstack]

lemma Kept.completes (h : Kept s) (hword : s.word = 1) (hstarted : s.started = 1)
    (hall : ∀ u ≠ t, Waiting (s.stack u)) : Kept (s.ended t .returned []) := by
  refine ⟨h.guest,h.after,.owned t hword hstarted ?_ ?_⟩
  · simp [State.Owner,State.ended,State.setStack]
  · intro u hu
    simpa [State.ended,State.setStack,hu] using hall u hu

/-- What a step keeps. -/
theorem Kept.step {s s' : State} {l : Tid × Act} (h : Kept s) (hok : Plain s l)
    (hs : step s l = some s') : Kept s' := by
  obtain ⟨t,act⟩ := l
  cases act with
  | call valid =>
    simp only [Once.step,State.next,Option.ite_none_right_eq_some,Option.some.injEq] at hs
    obtain ⟨-,rfl⟩ := hs
    cases valid with
    | true =>
      have hempty : s.stack t = [] := hok rfl
      have ht : Waiting (s.stack t) := by simp [hempty,Waiting,Entering]
      rw [if_pos rfl,hempty]
      exact h.move ht (fun _ => trivial) (.inl trivial)
    | false =>
      have hsame : s.setStack t (s.stack t) = s := by simp [State.setStack]
      refine h.returns ?_ (by simp)
      rw [hsame]
      exact h.phase
  | go =>
    cases hstack : s.stack t with
    | nil => simp [Once.step,State.next,hstack] at hs
    | cons frame rest =>
      simp only [Once.step,State.next,hstack] at hs
      obtain ht | ⟨-,hstarted,ht,hall⟩ := h.phase.waiting_or t
      · exact h.advance_waiting hstack ht hs
      · exact h.advance_owner hstack hstarted ht hall hs
  | finish outcome =>
    obtain rfl : outcome = .returned := hok
    obtain ht | ⟨hword,hstarted,ht,hall⟩ := h.phase.waiting_or t
    · exact absurd hs (by simp [Once.step,finish_waiting ht])
    · obtain hrunning | ⟨hstore,-⟩ := ht
      · obtain rfl : s.ended t .returned [] = s' := by
          simpa [Once.step,State.next,hrunning,h.guest] using hs
        exact h.completes hword hstarted hall
      · simp [Once.step,State.next,hstore] at hs

end Kept

lemma Kept.exact {s : State} (h : Kept s) : Exact s where
  once := by cases h.phase <;> omega
  after := h.after
  live := by
    rintro t ⟨hword,rest,hstack⟩
    have hspin : ¬Entering (s.stack t) := by simp [hstack,Entering]
    cases h.phase with
    | untouched _ _ hall => exact absurd (hall t) hspin
    | owned u _ _ howner _ =>
      refine ⟨u,?_,?_⟩
      · rintro rfl
        obtain hu | ⟨hu,-⟩ := howner <;> simp [hstack] at hu
      · obtain hu | ⟨hu,-⟩ := howner
        · exact ⟨.running,[],hu,by simp⟩
        · exact ⟨.store,[],hu,by simp⟩
    | done htwo _ _ _ => exact absurd htwo hword

/-- With a routine that returns and makes no call on its own word, in any interleaving the routine is
started at most once, no call returns before it has completed, and none spins with nobody to wait
for. -/
theorem once_exact {s : State} (hs : Reach step (· = start) Plain s) : Exact s := by
  have hstart : Kept start := ⟨fun _ => rfl,by simp [start],.untouched rfl rfl fun _ => trivial⟩
  have hkept : Kept s := by
    refine hs.invariant ?_ fun _ _ _ h hok hstep => Kept.step h hok hstep
    rintro _ rfl
    exact hstart
  exact hkept.exact

private def outline (s : State) : ℕ × List Frame × List Frame × List Result :=
  (s.word,s.stack 0,s.stack 1,s.results)

theorem once_exact_two : ∃ s, outline s = (2,[],[],[⟨0,1⟩,⟨0,1⟩]) ∧ Exact s := by
  have hrun : ((Transition.exec (Transition.guarded step Plain) start [(0,.call true),
      (1,.call true),(0,.go),(1,.go),(1,.go),(0,.go),(0,.go),(1,.finish .returned),(1,.go),
      (0,.go)]).map outline) = some (2,[],[],[⟨0,1⟩,⟨0,1⟩]) := by decide
  obtain ⟨s,hexec,hend⟩ := Option.map_eq_some_iff.mp hrun
  exact ⟨s,hend,once_exact (.exec (.start rfl) hexec)⟩

/-- A routine that ends its thread lets the call return, and the ones that spin with it. -/
theorem not_once_exact : ¬∀ s, Reach step (· = start) (fun _ _ => True) s → Exact s := by
  intro hall
  have hrun : ((Transition.exec (Transition.guarded step fun _ _ => True) start [(0,.call true),
      (0,.go),(0,.go),(0,.finish .threadExit),(0,.go)]).map outline) =
        some (2,[],[],[⟨0,0⟩]) := by decide
  obtain ⟨s,hexec,hend⟩ := Option.map_eq_some_iff.mp hrun
  have hresults : s.results = [⟨0,0⟩] := congrArg (fun o => o.2.2.2) hend
  have hafter := (hall s (.exec (.start rfl) hexec)).after ⟨0,0⟩ (by simp [hresults]) rfl
  exact absurd hafter (by decide)

/-- The routine called once on its own word: its call spins on what only its end would store. -/
structure Stuck (t : Tid) (s : State) : Prop where
  word : s.word = 1
  stack : s.stack t = [.spin,.running]
  others : ∀ u ≠ t, Waiting (s.stack u)

lemma Stuck.set {s : State} {t u : Tid} {stack : List Frame} (h : Stuck t s) (hu : u ≠ t)
    (hw : Waiting stack) : Stuck t (s.setStack u stack) := by
  refine ⟨h.word,by simp [State.setStack,hu.symm,h.stack],?_⟩
  intro v hv
  by_cases hvu : v = u
  · simpa [State.setStack,hvu] using hw
  · simpa [State.setStack,hvu] using h.others v hv

lemma Stuck.step {s s' : State} {t : Tid} {l : Tid × Act} (h : Stuck t s)
    (hs : step s l = some s') : Stuck t s' := by
  obtain ⟨u,act⟩ := l
  by_cases hu : u = t
  · subst hu
    cases act with
    | call valid => simp [Once.step,State.next,State.inGuest,h.stack] at hs
    | go =>
      obtain rfl : s = s' := by
        simpa [Once.step,State.next,State.advance,h.stack,h.word] using hs
      exact h
    | finish outcome => simp [Once.step,State.next,h.stack] at hs
  · have hw := h.others u hu
    cases act with
    | call valid =>
      simp only [Once.step,State.next,Option.ite_none_right_eq_some,Option.some.injEq] at hs
      obtain ⟨hguest,rfl⟩ := hs
      have hempty : s.stack u = [] := by
        cases hstack : s.stack u with
        | nil => rfl
        | cons frame rest =>
          obtain ⟨-,rfl | rfl | rfl⟩ := waiting_cons (hstack ▸ hw) <;>
            simp [State.inGuest,hstack] at hguest
      have hsame : Stuck t (s.setStack u []) := h.set hu (.inl trivial)
      cases valid with
      | true =>
        have hload : Waiting [.load] := .inl trivial
        simpa [hempty] using h.set hu hload
      | false => simpa [hempty] using ⟨hsame.word,hsame.stack,hsame.others⟩
    | go =>
      cases hstack : s.stack u with
      | nil => simp [Once.step,State.next,hstack] at hs
      | cons frame rest =>
        simp only [Once.step,State.next,hstack] at hs
        obtain ⟨rfl,rfl | rfl | rfl⟩ := waiting_cons (hstack ▸ hw)
        · obtain rfl : s.setStack u [.exchange] = s' := by simpa [State.advance,h.word] using hs
          exact h.set hu (.inl trivial)
        · obtain rfl : s.setStack u [.spin] = s' := by simpa [State.advance,h.word] using hs
          exact h.set hu (.inr rfl)
        · obtain rfl : s = s' := by simpa [State.advance,h.word] using hs
          exact h
    | finish outcome => simp [Once.step,finish_waiting hw] at hs

/-- Such a call never returns, whatever the other threads do. -/
theorem reentry_stuck {s : State} {t : Tid} (hs : Reach step (Stuck t) (fun _ _ => True) s) :
    Stuck t s :=
  hs.invariant (fun _ h => h) fun _ _ _ h _ hstep => h.step hstep

end Unemups4.Kernel.Once

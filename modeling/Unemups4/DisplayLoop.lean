import Unemups4.VideoOut

/-! The display loop and the guest threads that call it: the guests' commands queue up in a
channel, the loop drains it and answers redraws, and a guest that flips or submits a command
list waits for the reply to its call. A flip is answered by a present, the next flip or a redraw
of an empty window. -/
namespace Unemups4.Gpu
open Transition (Reach)

inductive GpuCommand where
  | registerBuffer (ptr w h pixelFormat : ℕ) (key : BufferKey)
  | submitFlip (key : BufferKey) (signal : ℕ)
  | runCommandList (cmds : List BackendCmd) (signal : ℕ)
  deriving DecidableEq, Repr

/-- The reply that the guest waits for. -/
def GpuCommand.signal : GpuCommand → Option ℕ
  | registerBuffer _ _ _ _ _ => none
  | submitFlip _ signal | runCommandList _ signal => some signal

inductive GuestCall where
  | registerBuffer (ptr w h pixelFormat : ℕ) (key : BufferKey)
  | submitFlip (key : BufferKey)
  | runCommandList (cmds : List BackendCmd)
  deriving DecidableEq, Repr

/-- What a call sends, over a reply channel of its own. -/
def GuestCall.command (signal : ℕ) : GuestCall → GpuCommand
  | registerBuffer ptr w h pixelFormat key => .registerBuffer ptr w h pixelFormat key
  | submitFlip key => .submitFlip key signal
  | runCommandList cmds => .runCommandList cmds signal

/-- The loop handles events, or drains the channel with a redraw to request at the end. -/
inductive LoopPc where
  | events
  | draining (needsRedraw : Bool)
  deriving DecidableEq, Repr

/-- There is no backend when the device could not be set up; `redraw` tells that a redraw has
been requested and not handled, and `issued` and `applied` what was sent and carried out. -/
structure DisplayLoop where
  backend : Option VideoOut
  queue : List (ℕ × GpuCommand)
  pc : LoopPc
  redraw : Bool
  waiting : ℕ → Option ℕ
  sent : List ℕ
  nextSignal : ℕ
  issued : List (ℕ × GpuCommand)
  applied : List (ℕ × GpuCommand)

/-- A redraw finds the window empty or not, and the driver answers the present. -/
inductive LoopAct where
  | issue (t : ℕ) (call : GuestCall)
  | receive (t : ℕ)
  | aboutToWait
  | take (imports : Bool)
  | drained
  | redrawRequested (emptyWindow fence : Bool) (acquire : Acquire)

namespace DisplayLoop

variable (host : HostMemory) (s : DisplayLoop)

/-- A register buffer returns at once. -/
def issue (t : ℕ) (call : GuestCall) : DisplayLoop :=
  let cmd := call.command s.nextSignal
  { s with
    queue := s.queue ++ [(t,cmd)]
    waiting := Function.update s.waiting t cmd.signal
    nextSignal := if cmd.signal.isSome then s.nextSignal+1 else s.nextSignal
    issued := s.issued ++ [(t,cmd)] }

/-- The backend after a command, with the replies it sends and whether it needs a redraw. -/
def handle (imports : Bool) (cmd : GpuCommand) : Option VideoOut → Option VideoOut × List ℕ × Bool
  | none => (none,cmd.signal.toList,false)
  | some v =>
      match cmd with
      | .registerBuffer ptr w h pixelFormat key =>
          (some (v.registerBuffer host imports ptr w h pixelFormat key),[],false)
      | .submitFlip key signal =>
          let (v,old) := v.submitFlip key signal
          (some v,old.toList,true)
      | .runCommandList cmds signal => (some (v.runCommandList cmds),[signal],false)

def take (imports needsRedraw : Bool) (t : ℕ) (cmd : GpuCommand) (queue : List (ℕ × GpuCommand)) :
    DisplayLoop :=
  let (backend,replies,needs) := handle host imports cmd s.backend
  { s with
    backend := backend
    queue := queue
    pc := .draining (needsRedraw || needs)
    sent := s.sent ++ replies
    applied := s.applied ++ [(t,cmd)] }

def redrawRequested (emptyWindow fence : Bool) (acquire : Acquire) : DisplayLoop :=
  match s.backend with
  | none => { s with redraw := false }
  | some v =>
      let (v,reply) := if emptyWindow then v.signalVsync else v.present fence acquire
      { s with backend := some v, redraw := false, sent := s.sent ++ reply.toList }

def step : LoopAct → Option DisplayLoop
  | .issue t call => if s.waiting t = none then some (s.issue t call) else none
  | .receive t =>
      match s.waiting t with
      | none => none
      | some signal =>
          if signal ∈ s.sent then some { s with waiting := Function.update s.waiting t none }
          else none
  | .aboutToWait => if s.pc = .events then some { s with pc := .draining false } else none
  | .take imports =>
      match s.pc, s.queue with
      | .draining needsRedraw, (t,cmd)::queue => some (s.take host imports needsRedraw t cmd queue)
      | _, _ => none
  | .drained =>
      match s.pc, s.queue with
      | .draining needsRedraw, [] =>
          some { s with pc := .events, redraw := s.redraw || needsRedraw }
      | _, _ => none
  | .redrawRequested emptyWindow fence acquire =>
      if s.pc = .events then some (s.redrawRequested emptyWindow fence acquire) else none

def start (backend : Option VideoOut) : DisplayLoop :=
  ⟨backend,[],.events,false,fun _ => none,[],0,[],[]⟩

def Initial (s : DisplayLoop) : Prop := s = start none ∨ s = start (some .start)

/-- The reply that the backend keeps for the last flip. -/
def pending : Option ℕ := s.backend.bind VideoOut.pendingVsyncSignal

/-- Each reply is sent at most once, the commands of each guest are applied in the order it
issued them, and when nothing is queued and no redraw is due, no guest waits in vain. -/
structure Answers : Prop where
  once : ∀ signal, s.sent.count signal ≤ 1
  inOrder : ∀ t, s.applied.filter (·.1 = t) <+: s.issued.filter (·.1 = t)
  answered : s.queue = [] → s.pc = .events → s.redraw = false →
    ∀ t signal, s.waiting t = some signal → signal ∈ s.sent

/-- A redraw that finds a flip waiting gets an image, or the window is empty. -/
def Presents (s : DisplayLoop) : LoopAct → Prop
  | .redrawRequested emptyWindow fence acquire =>
      s.pending.isSome → emptyWindow = true ∨ fence = true ∧ acquire = .image
  | _ => True

instance (act : LoopAct) : Decidable (s.Presents act) :=
  match act with
  | .redrawRequested _ _ _ => inferInstanceAs (Decidable (_ → _))
  | .issue _ _ | .receive _ | .aboutToWait | .take _ | .drained => .isTrue trivial

end DisplayLoop

namespace VideoOut

variable {host : HostMemory} {v : VideoOut}

lemma registerBuffer_pending {imports : Bool} {ptr w h pixelFormat : ℕ} {key : BufferKey} :
    (v.registerBuffer host imports ptr w h pixelFormat key).pendingVsyncSignal =
      v.pendingVsyncSignal := by
  simp only [registerBuffer]
  split
  · rfl
  · split_ifs <;> rfl

lemma runCommand_pending (cmd : BackendCmd) :
    (v.runCommand cmd).pendingVsyncSignal = v.pendingVsyncSignal := by
  cases cmd with
  | importBuffer id hostPtr size imports => cases imports <;> rfl
  | freeResource | draw | other => rfl

lemma runCommandList_pending (cmds : List BackendCmd) :
    (v.runCommandList cmds).pendingVsyncSignal = v.pendingVsyncSignal := by
  unfold runCommandList
  induction cmds generalizing v with
  | nil => rfl
  | cons cmd cmds ih => rw [List.foldl_cons, ih, runCommand_pending]

/-- A present that gets an image answers the flip; any other leaves it waiting. -/
lemma present_pending (fence : Bool) (acquire : Acquire) :
    ((v.present fence acquire).1.pendingVsyncSignal,(v.present fence acquire).2) =
      if fence = true ∧ acquire = .image then (none,v.pendingVsyncSignal)
      else (v.pendingVsyncSignal,none) := by
  unfold present signalVsync
  cases fence with
  | false => rfl
  | true =>
    cases acquire with
    | outOfDate | failed => rfl
    | image => cases v.zeroCopyKey.isSome <;> cases h : v.pendingVsyncSignal <;> simp [h]

end VideoOut

namespace DisplayLoop

variable {host : HostMemory} {s s' : DisplayLoop} {act : LoopAct}

/-- Where the reply of each call is: with a queued command, with the backend, or sent. -/
def signals (s : DisplayLoop) : Multiset ℕ :=
  ↑(s.queue.filterMap (·.2.signal)) + ↑s.pending.toList + ↑s.sent

/-- A command hands its reply over to the backend, which answers it or what it kept before. -/
lemma handle_signals (host : HostMemory) (imports : Bool) (cmd : GpuCommand) (backend : Option VideoOut) :
    (↑((handle host imports cmd backend).1.bind VideoOut.pendingVsyncSignal).toList +
      ↑(handle host imports cmd backend).2.1 : Multiset ℕ) =
        ↑cmd.signal.toList + ↑(backend.bind VideoOut.pendingVsyncSignal).toList := by
  cases backend with
  | none => simp [handle]
  | some v =>
    cases cmd with
    | registerBuffer ptr w h pixelFormat key =>
      simp [handle, GpuCommand.signal, VideoOut.registerBuffer_pending]
    | submitFlip key signal => simp [handle, GpuCommand.signal, VideoOut.submitFlip]
    | runCommandList cmds signal =>
      simp [handle, GpuCommand.signal, VideoOut.runCommandList_pending, add_comm]

/-- Only a flip leaves a reply with the backend that was not there, and it needs a redraw. -/
lemma handle_needs {imports : Bool} {cmd : GpuCommand} {backend : Option VideoOut}
    (h : (handle host imports cmd backend).2.2 = false) :
    (handle host imports cmd backend).1.bind VideoOut.pendingVsyncSignal =
      backend.bind VideoOut.pendingVsyncSignal := by
  cases backend with
  | none => rfl
  | some v =>
    cases cmd with
    | registerBuffer ptr w h pixelFormat key => exact VideoOut.registerBuffer_pending
    | submitFlip key signal => cases h
    | runCommandList cmds signal => exact VideoOut.runCommandList_pending cmds

/-- A redraw answers the flip that waits, or leaves it waiting. -/
lemma redraw_pending (v : VideoOut) (emptyWindow fence : Bool) (acquire : Acquire) :
    let r := if emptyWindow then v.signalVsync else v.present fence acquire
    (r.1.pendingVsyncSignal,r.2) =
      if emptyWindow = true ∨ fence = true ∧ acquire = .image then (none,v.pendingVsyncSignal)
      else (v.pendingVsyncSignal,none) := by
  cases emptyWindow with
  | true => rfl
  | false => simpa using VideoOut.present_pending fence acquire

lemma redrawRequested_signals (emptyWindow fence : Bool) (acquire : Acquire) :
    (s.redrawRequested emptyWindow fence acquire).signals = s.signals := by
  unfold redrawRequested
  cases hb : s.backend with
  | none => simp [signals, pending, hb]
  | some v =>
    have hkept := redraw_pending v emptyWindow fence acquire
    simp only at hkept
    simp only [signals, pending, hb, Option.bind_some]
    generalize (if emptyWindow then v.signalVsync else v.present fence acquire) = r at hkept ⊢
    have hmoved : (↑r.1.pendingVsyncSignal.toList + ↑r.2.toList : Multiset ℕ) =
        ↑v.pendingVsyncSignal.toList := by
      split_ifs at hkept
      all_goals
        obtain ⟨hpending,hreply⟩ := Prod.mk.inj hkept
        simp [hpending, hreply]
    rw [← hmoved, ← Multiset.coe_add]
    abel

/-- Each reply is in one place, and no guest waits for one that was never made. -/
structure Conserved (s : DisplayLoop) : Prop where
  signals : s.signals = Multiset.range s.nextSignal
  waiting : ∀ t signal, s.waiting t = some signal → signal < s.nextSignal

lemma command_signal (call : GuestCall) (signal : ℕ) :
    (call.command signal).signal = none ∨ (call.command signal).signal = some signal := by
  cases call with
  | registerBuffer => exact .inl rfl
  | submitFlip | runCommandList => exact .inr rfl

lemma filterMap_singleton (t : ℕ) (cmd : GpuCommand) :
    [(t,cmd)].filterMap (fun c => c.2.signal) = cmd.signal.toList := by
  cases h : cmd.signal <;> simp [h]

lemma issue_signals {t : ℕ} {call : GuestCall} :
    (s.issue t call).signals = s.signals + ↑(call.command s.nextSignal).signal.toList := by
  simp only [signals, issue, pending, List.filterMap_append, filterMap_singleton,
    ← Multiset.coe_add]
  abel

lemma take_signals {imports needsRedraw : Bool} {t : ℕ} {cmd : GpuCommand}
    {queue : List (ℕ × GpuCommand)} (hq : s.queue = (t,cmd)::queue) :
    (s.take host imports needsRedraw t cmd queue).signals = s.signals := by
  have hmoved := handle_signals host imports cmd s.backend
  have hhead : s.queue.filterMap (fun c => c.2.signal) =
      cmd.signal.toList ++ queue.filterMap fun c => c.2.signal := by
    rw [hq, ← filterMap_singleton t cmd, ← List.filterMap_append]
    rfl
  simp only [signals, take, pending, hhead, ← Multiset.coe_add]
  have hplace : ∀ queued kept replies own old sent : Multiset ℕ, kept + replies = own + old →
      queued + kept + (sent + replies) = own + queued + old + sent := by
    intro queued kept replies own old sent hkept
    calc queued + kept + (sent + replies) = queued + (kept + replies) + sent := by abel
      _ = own + queued + old + sent := by
        rw [hkept]
        abel
  exact hplace _ _ _ _ _ _ hmoved

lemma conserved_issue {t : ℕ} {call : GuestCall} (hc : s.Conserved) : (s.issue t call).Conserved := by
  have hsignals := hc.signals
  rcases command_signal call s.nextSignal with hnone | hsome
  · refine ⟨by rw [issue_signals, hsignals]; simp [issue, hnone],fun u signal hu => ?_⟩
    simp only [issue, hnone, Option.isSome_none, Bool.false_eq_true, if_false] at hu ⊢
    by_cases heq : u = t
    · simp [heq] at hu
    · rw [Function.update_of_ne heq] at hu
      exact hc.waiting u signal hu
  · refine ⟨?_,fun u signal hu => ?_⟩
    · rw [issue_signals, hsignals]
      simp only [issue, hsome, Option.isSome_some, if_true, Option.toList_some]
      rw [Multiset.range_succ, ← Multiset.singleton_add, add_comm]
      rfl
    · simp only [issue, hsome, Option.isSome_some, if_true] at hu ⊢
      by_cases heq : u = t
      · subst heq
        rw [Function.update_self] at hu
        cases hu
        exact Nat.lt_succ_self _
      · rw [Function.update_of_ne heq] at hu
        exact (hc.waiting u signal hu).trans (Nat.lt_succ_self _)

lemma conserved_step (hc : s.Conserved) (h : s.step host act = some s') : s'.Conserved := by
  revert h
  fun_cases step host s act <;> intro h <;> cases h
  case case1 => exact conserved_issue hc
  case case4 t signal hwaiting hsent =>
    refine ⟨hc.signals,fun u other hu => ?_⟩
    by_cases heq : u = t
    · simp [heq] at hu
    · simp only [Function.update_of_ne heq] at hu
      exact hc.waiting u other hu
  case case8 hq _ => exact ⟨(take_signals hq).trans hc.signals,hc.waiting⟩
  case case12 emptyWindow fence acquire _ =>
    refine ⟨(redrawRequested_signals _ _ _).trans ?_,?_⟩
    all_goals
      unfold redrawRequested
      cases s.backend
    all_goals first | exact hc.signals | exact hc.waiting
  all_goals exact ⟨hc.signals,hc.waiting⟩

/-- What was issued has been applied or is still queued. -/
def InOrder (s : DisplayLoop) : Prop := s.issued = s.applied ++ s.queue

/-- A reply that the backend keeps has a redraw coming. -/
def Redrawn (s : DisplayLoop) : Prop :=
  s.pending.isSome → s.redraw = true ∨ s.pc = .draining true

lemma redrawRequested_same (emptyWindow fence : Bool) (acquire : Acquire) :
    ∃ backend sent, s.redrawRequested emptyWindow fence acquire =
      { s with backend := backend, redraw := false, sent := sent } := by
  unfold redrawRequested
  cases h : s.backend <;> exact ⟨_,_,rfl⟩

lemma inOrder_step (hi : s.InOrder) (h : s.step host act = some s') : s'.InOrder := by
  unfold InOrder at hi ⊢
  revert h
  fun_cases step host s act <;> intro h <;> cases h
  case case1 => simp [issue, hi]
  case case8 hq _ => simp [take, hi, hq]
  case case12 emptyWindow fence acquire _ =>
    obtain ⟨backend,sent,hsame⟩ := s.redrawRequested_same emptyWindow fence acquire
    rw [hsame]
    exact hi
  all_goals exact hi

/-- A redraw that is not given up leaves no reply behind. -/
lemma redrawRequested_pending {emptyWindow fence : Bool} {acquire : Acquire}
    (hok : s.Presents (.redrawRequested emptyWindow fence acquire)) :
    (s.redrawRequested emptyWindow fence acquire).pending = none := by
  unfold redrawRequested
  cases hb : s.backend with
  | none => simp [pending]
  | some v =>
    have hkept := redraw_pending v emptyWindow fence acquire
    simp only at hkept
    simp only [pending, Option.bind_some]
    generalize (if emptyWindow then v.signalVsync else v.present fence acquire) = r at hkept ⊢
    split_ifs at hkept with hdone
    · exact (Prod.mk.inj hkept).1
    · have hnone : v.pendingVsyncSignal = none := by
        by_contra hsome
        exact hdone (hok (by simpa [pending, hb] using Option.isSome_iff_ne_none.mpr hsome))
      exact (Prod.mk.inj hkept).1.trans hnone

lemma redrawn_step (hr : s.Redrawn) (hok : s.Presents act) (h : s.step host act = some s') :
    s'.Redrawn := by
  revert h
  fun_cases step host s act <;> intro h <;> cases h
  case case6 hpc =>
    intro hpending
    exact (hr hpending).imp_right fun hdraining => by rw [hpc] at hdraining; cases hdraining
  case case8 imports needsRedraw t cmd queue _ hpc =>
    intro hpending
    cases hneeds : (handle host imports cmd s.backend).2.2 with
    | true => exact .inr (by simp [take, hneeds])
    | false =>
      have hkept := handle_needs hneeds
      simp only [pending, take, hkept] at hpending
      exact (hr hpending).imp_right fun hdraining => by
        rw [hpc] at hdraining
        cases hdraining
        simp [take]
  case case10 needsRedraw _ hpc =>
    intro hpending
    rcases hr hpending with hredraw | hdraining
    · exact .inl (by simp [hredraw])
    · rw [hpc] at hdraining
      cases hdraining
      exact .inl (by simp)
  case case12 emptyWindow fence acquire hpc =>
    intro hpending
    rw [redrawRequested_pending hok] at hpending
    cases hpending
  all_goals exact hr

lemma reach_conserved {ok : DisplayLoop → LoopAct → Prop} (hs : Reach (step host) Initial ok s) :
    s.Conserved :=
  hs.invariant (by rintro s (rfl | rfl) <;> constructor <;> simp [start, signals, pending, VideoOut.start])
    fun _ _ _ hc _ h => conserved_step hc h

lemma reach_inOrder {ok : DisplayLoop → LoopAct → Prop} (hs : Reach (step host) Initial ok s) :
    s.InOrder :=
  hs.invariant (by rintro s (rfl | rfl) <;> rfl) fun _ _ _ hi _ h => inOrder_step hi h

/-- Each reply is sent at most once. -/
lemma sent_once (hc : s.Conserved) (signal : ℕ) : s.sent.count signal ≤ 1 := by
  have hcount := congrArg (Multiset.count signal) hc.signals
  have hrange : (Multiset.range s.nextSignal).count signal ≤ 1 :=
    Multiset.nodup_iff_count_le_one.mp (Multiset.nodup_range _) signal
  simp only [signals, Multiset.count_add, Multiset.coe_count] at hcount
  omega

/-- Each guest's commands are applied in the order it issued them. -/
lemma applied_inOrder (hi : s.InOrder) (t : ℕ) :
    s.applied.filter (·.1 = t) <+: s.issued.filter (·.1 = t) := by
  rw [hi, List.filter_append]
  exact List.prefix_append _ _

/-- With nothing queued and no redraw due, every reply has been sent. -/
lemma answered_of_redrawn (hc : s.Conserved) (hr : s.Redrawn) (hq : s.queue = [])
    (hpc : s.pc = .events) (hredraw : s.redraw = false) {t signal : ℕ}
    (hwaiting : s.waiting t = some signal) : signal ∈ s.sent := by
  have hnone : s.pending = none := by
    by_contra hsome
    rcases hr (Option.isSome_iff_ne_none.mpr hsome) with hdue | hdraining
    · rw [hredraw] at hdue
      cases hdue
    · rw [hpc] at hdraining
      cases hdraining
  have hmem : signal ∈ s.signals := by
    rw [hc.signals]
    exact Multiset.mem_range.mpr (hc.waiting t signal hwaiting)
  simpa [signals, hq, hnone] using hmem

/-- Every guest is answered, as long as no redraw that finds a flip waiting is given up. -/
theorem presents_answers (hs : Reach (step host) Initial Presents s) : s.Answers := by
  have hc := reach_conserved hs
  have hr : s.Redrawn := hs.invariant
    (by rintro s (rfl | rfl) <;> simp [Redrawn, start, pending, VideoOut.start])
    fun _ _ _ hr hok h => redrawn_step hr hok h
  exact ⟨sent_once hc,applied_inOrder (reach_inOrder hs),
    fun hq hpc hredraw t signal => answered_of_redrawn hc hr hq hpc hredraw⟩

/-- Two guests flip, one of them submits a list first, and both redraws get an image. -/
theorem presents_answers_flips : ∃ s, Reach (step ⟨0,0,false⟩) Initial Presents s ∧ s.Answers ∧
    s.sent = [0,1,2] ∧ s.waiting 1 = some 1 ∧ s.redraw = false := by
  have hrun : ((Transition.exec (Transition.guarded (step ⟨0,0,false⟩) Presents)
      (start (some .start)) [.issue 1 (.runCommandList [.other]), .aboutToWait, .take false, .receive 1,
        .issue 1 (.submitFlip (0,0)), .issue 2 (.submitFlip (0,1)), .take false, .take false,
        .drained, .redrawRequested false true .image]).map fun s =>
      decide (s.sent = [0,1,2] ∧ s.waiting 1 = some 1 ∧ s.redraw = false)) = some true := by
    decide +kernel
  obtain ⟨s,hexec,hend⟩ := Option.map_eq_some_iff.mp hrun
  have hreach : Reach (step ⟨0,0,false⟩) Initial Presents s := Reach.exec (.start (.inr rfl)) hexec
  exact ⟨s,hreach,presents_answers hreach,of_decide_eq_true hend⟩

/-- A flip whose present finds the swapchain out of date is not answered. -/
theorem not_answers_outOfDate : ¬∀ host s, Reach (step host) Initial (fun _ _ => True) s →
    s.Answers := by
  intro hall
  have hrun : ((Transition.exec (Transition.guarded (step ⟨0,0,false⟩) fun _ _ => True)
      (start (some .start)) [.issue 1 (.submitFlip (0,0)), .aboutToWait, .take false, .drained,
        .redrawRequested false true .outOfDate]).map fun s =>
      decide (s.queue = [] ∧ s.pc = .events ∧ s.redraw = false ∧ s.waiting 1 = some 0 ∧
        s.sent = [])) = some true := by
    decide +kernel
  obtain ⟨s,hexec,hend⟩ := Option.map_eq_some_iff.mp hrun
  obtain ⟨hq,hpc,hredraw,hwaiting,hsent⟩ := of_decide_eq_true hend
  have hreach : Reach (step ⟨0,0,false⟩) Initial (fun _ _ => True) s :=
    Reach.exec (.start (.inr rfl)) hexec
  have hmem := (hall _ s hreach).answered hq hpc hredraw 1 0 hwaiting
  rw [hsent] at hmem
  exact absurd hmem List.not_mem_nil

end DisplayLoop

end Unemups4.Gpu

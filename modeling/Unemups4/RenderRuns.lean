import Unemups4.RenderPasses
import Unemups4.Transition

/-! What the log of a run says of its passes: the layout of every render target, and what the
videoout image holds in each guest frame. -/
namespace Unemups4.Gpu
open Transition (Reach)

namespace Event

def touches (id : ℕ) : Event → Bool
  | created i | freed i | copied i _ _ _ => i = id
  | pass cmds _ _ => cmds.target = .renderTarget id
  | flipped | presented _ => false

/-- The layout in which its commands leave the image; a new image has none. -/
def left : Event → Option ImageLayout
  | created _ => some .undefined
  | pass cmds _ _ => some cmds.left
  | copied _ barriers _ _ => barriers.getLast?.map (·.newLayout)
  | freed _ | flipped | presented _ => none

def completes : Event → Bool
  | pass _ completes _ | copied _ _ completes _ => completes
  | created _ | freed _ | flipped | presented _ => true

def isCopy : Event → Bool
  | copied _ _ _ _ => true
  | _ => false

/-- Neither a pass to the videoout image nor a copy over it, nor the end of a frame. -/
def offscreen : Event → Bool
  | pass cmds _ _ => cmds.target ≠ .videoout
  | created _ | freed _ | copied _ _ _ _ => true
  | flipped => false
  | presented copiesGuest => !copiesGuest

end Event

/-- The layout that the last recorded commands leave a render target in. -/
def leftIn (log : List Event) (id : ℕ) : Option ImageLayout :=
  (log.find? (·.touches id)).bind Event.left

/-- The layout that the last completed submit that touches it left it in. -/
def lastCompleted (log : List Event) (id : ℕ) : Option ImageLayout :=
  (log.find? fun e => e.touches id && e.completes).bind Event.left

/-- The last submit that drew into it has completed. -/
def drawnWhole (log : List Event) (id : ℕ) : Bool :=
  (log.find? fun e => e.touches id && !e.isCopy).any Event.completes

def frame (log : List Event) : ℕ := log.count .flipped

/-- What a pixel of the videoout image may come from: a guest framebuffer or nothing at all, or
the pass at a place of the log. -/
inductive Layer where
  | stale
  | drawn (frame pass : ℕ)
  deriving DecidableEq, Repr

def Layer.frame : Layer → Option ℕ
  | stale => none
  | drawn frame _ => some frame

/-- What the videoout image holds. -/
def held : List Event → List Layer
  | [] => [.stale]
  | .pass cmds _ true :: past =>
      if cmds.target = .videoout then
        match cmds.attachment.loadOp with
        | .clear => [.drawn (frame past) past.length]
        | .load => .drawn (frame past) past.length :: held past
      else held past
  | .presented true :: _ => [.stale]
  | _ :: past => held past

/-- The videoout passes of this frame whose submits complete. -/
def thisFrame : List Event → List Layer
  | [] => []
  | .flipped :: _ => []
  | .pass cmds true _ :: past =>
      if cmds.target = .videoout then .drawn (frame past) past.length :: thisFrame past
      else thisFrame past
  | _ :: past => thisFrame past

/-- The image holds what all these passes drew and nothing that is not of this frame. -/
def Accumulates (log : List Event) : Prop :=
  thisFrame log ⊆ held log ∧ ∀ layer ∈ held log, layer.frame = some (frame log)

/-- What is asked of an event after the events before it. -/
def Event.Sound (past : List Event) : Event → Prop
  | pass cmds completes _ =>
      match cmds.target with
      | .renderTarget id =>
          cmds.attachment.loadOp = .clear ∧ cmds.attachment.initialLayout = .undefined ∨
            cmds.attachment.loadOp = .load ∧ leftIn past id = some cmds.attachment.initialLayout
      | .videoout => completes = true →
          (cmds.attachment.loadOp = .clear ↔ thisFrame past = []) ∧
            (cmds.attachment.loadOp = .load → Accumulates past)
  | copied id _ _ _ =>
      lastCompleted past id = some .shaderReadOnlyOptimal ∧ drawnWhole past id = true
  | _ => True

def SoundLog : List Event → Prop
  | [] => True
  | e :: past => e.Sound past ∧ SoundLog past

section Log

variable {log past : List Event} {e : Event} {id : ℕ}

lemma SoundLog.suffix (h : SoundLog log) (hs : e :: past <:+ log) : e.Sound past := by
  induction log with
  | nil => cases List.eq_nil_of_suffix_nil hs
  | cons a log ih =>
    rcases List.suffix_cons_iff.mp hs with heq | hs
    · cases heq
      exact h.1
    · exact ih h.2 hs

lemma leftIn_cons : leftIn (e :: past) id = if e.touches id then e.left else leftIn past id := by
  unfold leftIn
  rw [List.find?_cons]
  cases e.touches id <;> rfl

lemma lastCompleted_cons : lastCompleted (e :: past) id =
    if e.touches id && e.completes then e.left else lastCompleted past id := by
  unfold lastCompleted
  rw [List.find?_cons]
  cases e.touches id && e.completes <;> rfl

lemma drawnWhole_cons : drawnWhole (e :: past) id =
    if e.touches id && !e.isCopy then e.completes else drawnWhole past id := by
  unfold drawnWhole
  rw [List.find?_cons]
  cases e.touches id && !e.isCopy <;> rfl

lemma frame_offscreen (h : e.offscreen) : frame (e :: past) = frame past := by
  have hne : e ≠ .flipped := by
    rintro rfl
    cases h
  exact List.count_cons_of_ne hne

lemma held_offscreen (h : e.offscreen) : held (e :: past) = held past := by
  cases e with
  | pass cmds completes executes =>
    have hne : cmds.target ≠ .videoout := of_decide_eq_true h
    cases executes
    · rfl
    · simp [held,hne]
  | presented copiesGuest =>
    cases copiesGuest
    · rfl
    · cases h
  | _ => rfl

lemma thisFrame_offscreen (h : e.offscreen) : thisFrame (e :: past) = thisFrame past := by
  cases e with
  | pass cmds completes executes =>
    have hne : cmds.target ≠ .videoout := of_decide_eq_true h
    cases completes
    · rfl
    · simp [thisFrame,hne]
  | flipped => cases h
  | _ => rfl

lemma accumulates_offscreen (h : e.offscreen) : Accumulates (e :: past) ↔ Accumulates past := by
  unfold Accumulates
  rw [held_offscreen h,thisFrame_offscreen h,frame_offscreen h]

/-- A render target that can be loaded, sampled and copied. -/
structure Settled (log : List Event) (id : ℕ) : Prop where
  left : leftIn log id = some .shaderReadOnlyOptimal
  completed : lastCompleted log id = some .shaderReadOnlyOptimal
  whole : drawnWhole log id = true

lemma leftIn_untouched (h : e.touches id = false) : leftIn (e :: past) id = leftIn past id := by
  rw [leftIn_cons,h]
  rfl

lemma Settled.untouched (hs : Settled past id) (h : e.touches id = false) :
    Settled (e :: past) id where
  left := by rw [leftIn_untouched h,hs.left]
  completed := by
    rw [lastCompleted_cons,h]
    exact hs.completed
  whole := by
    rw [drawnWhole_cons,h]
    exact hs.whole

/-- A copy puts the image back, whether or not it gets through. -/
lemma Settled.copied (hs : Settled past id) (i : ℕ) (completes : Bool) (use : CopyUse) :
    Settled (.copied i copyBarriers completes use :: past) id where
  left := by
    rw [leftIn_cons,hs.left]
    split_ifs <;> rfl
  completed := by
    rw [lastCompleted_cons,hs.completed]
    split_ifs <;> rfl
  whole := by
    rw [drawnWhole_cons,hs.whole]
    simp [Event.isCopy]

/-- The frame's latch is set when a pass of a completed submit has cleared the image, and the
image then holds what such passes drew. -/
def Latched (latch : Bool) (log : List Event) : Prop :=
  if latch then thisFrame log ≠ [] ∧ Accumulates log else thisFrame log = []

lemma latched_offscreen {latch : Bool} (h : e.offscreen) :
    Latched latch (e :: past) ↔ Latched latch past := by
  unfold Latched
  rw [thisFrame_offscreen h,accumulates_offscreen h]

lemma Latched.eq_nil_iff {latch : Bool} (h : Latched latch log) :
    thisFrame log = [] ↔ latch = false := by
  cases latch
  · exact iff_of_true h rfl
  · exact iff_of_false h.1 (by decide)

lemma thisFrame_pass {cmds : PassCmds} {completes executes : Bool}
    (h : cmds.target = .videoout) :
    thisFrame (.pass cmds completes executes :: past) =
      if completes then .drawn (frame past) past.length :: thisFrame past else thisFrame past := by
  cases completes
  · rfl
  · simp [thisFrame,h]

lemma frame_pass {cmds : PassCmds} {completes executes : Bool} :
    frame (.pass cmds completes executes :: past) = frame past :=
  List.count_cons_of_ne (by simp)

/-- A pass that loads adds to what the image holds of its frame. -/
lemma Accumulates.load {cmds : PassCmds} {completes executes : Bool} (h : Accumulates past)
    (htarget : cmds.target = .videoout) (hload : cmds.attachment.loadOp = .load)
    (hran : completes = true → executes = true) :
    Accumulates (.pass cmds completes executes :: past) := by
  obtain ⟨hsub,hframe⟩ := h
  have hheld : held (.pass cmds completes executes :: past) =
      if executes then .drawn (frame past) past.length :: held past else held past := by
    cases executes
    · rfl
    · simp [held,htarget,hload]
  constructor
  · rw [thisFrame_pass htarget,hheld]
    cases completes with
    | false =>
      cases executes
      · exact hsub
      · exact fun layer hl => List.mem_cons_of_mem _ (hsub hl)
    | true =>
      rw [hran rfl]
      exact List.cons_subset_cons _ hsub
  · rw [hheld,frame_pass]
    intro layer hl
    cases executes with
    | false => exact hframe layer hl
    | true =>
      rcases List.mem_cons.mp hl with rfl | hl
      · rfl
      · exact hframe layer hl

/-- The first pass of a frame that completes leaves nothing else in the image. -/
lemma latched_clear {cmds : PassCmds} (h : thisFrame past = []) (htarget : cmds.target = .videoout)
    (hclear : cmds.attachment.loadOp = .clear) : Latched true (.pass cmds true true :: past) := by
  have hthis : thisFrame (.pass cmds true true :: past) = [.drawn (frame past) past.length] := by
    rw [thisFrame_pass htarget,h]
    rfl
  have hheld : held (.pass cmds true true :: past) = [.drawn (frame past) past.length] := by
    simp [held,htarget,hclear]
  refine ⟨by simp [hthis],by rw [hthis,hheld]; exact fun _ hl => hl,?_⟩
  intro layer hl
  rw [hheld] at hl
  rw [List.mem_singleton.mp hl,frame_pass]
  rfl

end Log

/-- Between two steps the layouts and the latch say what the log does. -/
structure AshBackend.Tracked (b : AshBackend) : Prop where
  sound : SoundLog b.log
  layouts : ∀ id rt, b.renderTargets id = some rt → rt.currentLayout = .undefined ∨
    rt.currentLayout = .shaderReadOnlyOptimal ∧ Settled b.log id
  latch : Latched b.videooutClearedThisFrame b.log

lemma AshBackend.Tracked.untouched {b : AshBackend} (h : b.Tracked) {e : Event} {id : ℕ}
    {rt : CacheRenderTarget} (hrt : b.renderTargets id = some rt) (hout : e.touches id = false) :
    rt.currentLayout = .undefined ∨
      rt.currentLayout = .shaderReadOnlyOptimal ∧ Settled (e :: b.log) id :=
  (h.layouts id rt hrt).imp_right fun ⟨hread,hs⟩ => ⟨hread,hs.untouched hout⟩

/-- Nor will a present copy over what the frame has drawn. -/
structure AshBackend.Intact (b : AshBackend) : Prop extends b.Tracked where
  drawn : thisFrame b.log ≠ [] → b.video.embeddedDrawn = true

namespace Recording

/-- The log as it will be once the wait for the submit has ended. -/
def ahead (wait : FenceWait) (r : Recording) : List Event :=
  wait.events r.recorded ++ r.backend.log

/-- While passes of a submit are recorded over a backend. After a timeout what was touched and a
latch that was set meanwhile are not to be trusted. -/
structure Follows (wait : FenceWait) (b : AshBackend) (r : Recording) : Prop where
  sound : SoundLog (r.ahead wait)
  layouts : ∀ id rt, r.backend.renderTargets id = some rt → rt.currentLayout = .undefined ∨
    rt.currentLayout = .shaderReadOnlyOptimal ∧
      leftIn (r.ahead wait) id = some .shaderReadOnlyOptimal ∧
      (wait.completes = true ∨ id ∉ r.touchedRts → Settled (r.ahead wait) id)
  latch : wait.completes = true ∨ b.videooutClearedThisFrame = true →
    Latched r.backend.videooutClearedThisFrame (r.ahead wait)
  kept : b.videooutClearedThisFrame = true → r.backend.videooutClearedThisFrame = true
  seen : r.videooutSeen = true → r.backend.videooutClearedThisFrame = true
  idle : r.videooutDrawn = false →
    r.backend.videooutClearedThisFrame = b.videooutClearedThisFrame
  same : wait.completes = false ∨ r.videooutDrawn = false →
    thisFrame (r.ahead wait) = thisFrame b.log
  video : r.backend.video = b.video

variable {wait : FenceWait} {b : AshBackend} {r : Recording}

lemma Follows.start (h : b.Tracked) (wait : FenceWait) : Follows wait b (.start b) where
  sound := h.sound
  layouts id rt hrt := (h.layouts id rt hrt).imp_right fun ⟨hlayout,hs⟩ =>
    ⟨hlayout,hs.left,fun _ => hs⟩
  latch _ := h.latch
  kept hlatch := hlatch
  seen hseen := by cases hseen
  idle _ := rfl
  same _ := rfl
  video := rfl

lemma executes_of_completes (h : wait.completes = true) (i : ℕ) : wait.executes i = true := by
  cases wait with
  | signalled => rfl
  | timedOut executed => cases h

/-- A pass into a render target leaves it where a later one can load it. -/
lemma leftIn_pass {past : List Event} {cmds : PassCmds} {id : ℕ}
    (htarget : cmds.target = .renderTarget id) (hleft : cmds.left = .shaderReadOnlyOptimal)
    (completes executes : Bool) :
    leftIn (.pass cmds completes executes :: past) id = some .shaderReadOnlyOptimal := by
  rw [leftIn_cons]
  simp [Event.touches,Event.left,htarget,hleft]

lemma settled_pass {past : List Event} {cmds : PassCmds} {id : ℕ}
    (htarget : cmds.target = .renderTarget id) (hleft : cmds.left = .shaderReadOnlyOptimal)
    (executes : Bool) : Settled (.pass cmds true executes :: past) id where
  left := leftIn_pass htarget hleft _ _
  completed := by
    rw [lastCompleted_cons]
    simp [Event.touches,Event.completes,Event.left,htarget,hleft]
  whole := by
    rw [drawnWhole_cons]
    simp [Event.touches,Event.isCopy,Event.completes,htarget]

lemma Follows.recordRenderTarget (h : Follows wait b r) (id : ℕ) :
    Follows wait b (r.recordRenderTarget id) := by
  unfold Recording.recordRenderTarget
  split
  · exact h
  rename_i rt hrt
  have hoff : ∀ cmds completes executes, cmds.target = .renderTarget id →
      (Event.pass cmds completes executes).offscreen = true := by
    intro cmds completes executes htarget
    simp [Event.offscreen,htarget]
  have hsound : (Event.pass ⟨.renderTarget id,[],createRtTarget rt.currentLayout
      (rt.currentLayout = .undefined),[⟨.colorAttachmentOptimal,.shaderReadOnlyOptimal⟩]⟩
      wait.completes (wait.executes r.recorded.length)).Sound (r.ahead wait) := by
    rcases h.layouts id rt hrt with hundef | ⟨hread,hleft,-⟩
    · exact .inl (by simp [createRtTarget,hundef])
    · exact .inr (by simp [createRtTarget,hread,hleft])
  refine ⟨⟨hsound,h.sound⟩,?_,?_,h.kept,h.seen,h.idle,?_,h.video⟩
  · intro i rt' hrt'
    by_cases hi : i = id
    · subst hi
      have hnew : rt'.currentLayout = .shaderReadOnlyOptimal := by
        simp only [AshBackend.setLayout,Function.update_self,hrt,Option.map_some,
          Option.some.injEq] at hrt'
        rw [← hrt']
      refine .inr ⟨hnew,?_,?_⟩
      · exact leftIn_pass rfl rfl _ _
      · intro hor
        rcases hor with hcomplete | hout
        · unfold ahead
          rw [FenceWait.events,hcomplete]
          exact settled_pass rfl rfl _
        · exact absurd (List.mem_append_right _ (List.mem_singleton_self i)) hout
    · have hold : r.backend.renderTargets i = some rt' := by
        simpa [AshBackend.setLayout,Function.update_of_ne hi] using hrt'
      have huntouched : ∀ cmds completes executes, cmds.target = .renderTarget id →
          (Event.pass cmds completes executes).touches i = false := by
        intro cmds completes executes htarget
        simp [Event.touches,htarget,Ne.symm hi]
      refine (h.layouts i rt' hold).imp_right fun ⟨hread,hleft,hs⟩ => ⟨hread,?_,?_⟩
      · exact (leftIn_untouched (huntouched _ _ _ rfl)).trans hleft
      · intro hor
        refine (hs (hor.imp_right fun hout hmem => hout ?_)).untouched (huntouched _ _ _ rfl)
        exact List.mem_append_left _ hmem
  · intro hor
    exact (latched_offscreen (hoff _ _ _ rfl)).mpr (h.latch hor)
  · intro hor
    exact (thisFrame_offscreen (hoff _ _ _ rfl)).trans (h.same hor)

/-- Any pass into the videoout image that is sound and leaves the latch right. -/
lemma Follows.videoout (h : Follows wait b r) {cmds : PassCmds} (htarget : cmds.target = .videoout)
    (hsound : (Event.pass cmds wait.completes (wait.executes r.recorded.length)).Sound
      (r.ahead wait))
    (hlatch : wait.completes = true ∨ b.videooutClearedThisFrame = true → Latched true
      (.pass cmds wait.completes (wait.executes r.recorded.length) :: r.ahead wait)) :
    Follows wait b { r with
      backend := { r.backend with videooutClearedThisFrame := true }
      videooutDrawn := true
      videooutSeen := true
      recorded := cmds :: r.recorded } where
  sound := ⟨hsound,h.sound⟩
  layouts id rt hrt := by
    have huntouched : (Event.pass cmds wait.completes
        (wait.executes r.recorded.length)).touches id = false := by
      simp [Event.touches,htarget]
    exact (h.layouts id rt hrt).imp_right fun ⟨hread,hleft,hs⟩ =>
      ⟨hread,(leftIn_untouched huntouched).trans hleft,fun hor => (hs hor).untouched huntouched⟩
  latch := hlatch
  kept _ := rfl
  seen _ := rfl
  idle hdrawn := by cases hdrawn
  same hor := by
    have hcomplete : wait.completes = false := hor.resolve_right (by simp)
    have hnew : thisFrame (.pass cmds wait.completes (wait.executes r.recorded.length) ::
        r.ahead wait) = thisFrame (r.ahead wait) := by
      rw [thisFrame_pass htarget,hcomplete]
      rfl
    exact hnew.trans (h.same (.inl hcomplete))
  video := h.video

/-- It loads when the frame has drawn already, and clears when it is the frame's first. -/
lemma Follows.recordVideoout (h : Follows wait b r) : Follows wait b r.recordVideoout := by
  unfold Recording.recordVideoout
  by_cases hexists : r.backend.drawTarget = true
  · rw [if_neg (not_not.mpr hexists)]
    cases hlatch : r.backend.videooutClearedThisFrame with
    | true =>
      rw [if_pos (.inr rfl)]
      refine h.videoout rfl ?_ ?_
      · intro hcomplete
        have hdrawn := h.latch (.inl hcomplete)
        rw [hlatch] at hdrawn
        exact ⟨iff_of_false (by decide) hdrawn.1,fun _ => hdrawn.2⟩
      · intro hor
        have hdrawn := h.latch hor
        rw [hlatch] at hdrawn
        refine ⟨?_,hdrawn.2.load rfl rfl fun hc => executes_of_completes hc _⟩
        rw [thisFrame_pass rfl]
        split_ifs
        · exact List.cons_ne_nil _ _
        · exact hdrawn.1
    | false =>
      have hseen : r.videooutSeen = false := by
        by_contra hs
        rw [h.seen (by simpa using hs)] at hlatch
        cases hlatch
      rw [if_neg (by simp [hseen])]
      have hfirst : wait.completes = true → thisFrame (r.ahead wait) = [] := by
        intro hcomplete
        exact (h.latch (.inl hcomplete)).eq_nil_iff.mpr hlatch
      refine h.videoout rfl ?_ ?_
      · intro hcomplete
        exact ⟨iff_of_true rfl (hfirst hcomplete),fun hload => by cases hload⟩
      · intro hor
        have hcomplete : wait.completes = true := by
          refine hor.resolve_right fun hentry => ?_
          rw [h.kept hentry] at hlatch
          cases hlatch
        rw [executes_of_completes hcomplete,hcomplete]
        exact latched_clear (hfirst hcomplete) rfl rfl
  · rw [if_pos hexists]
    exact h

lemma Follows.recordPass (h : Follows wait b r) (pass : Gnm.RecordedPass) :
    Follows wait b (r.recordPass pass) := by
  unfold Recording.recordPass
  split
  · exact h.recordVideoout
  · exact h.recordRenderTarget _

lemma Follows.recordPasses (h : Follows wait b r) (passes : List Gnm.RecordedPass) :
    Follows wait b (passes.foldl Recording.recordPass r) := by
  induction passes generalizing r with
  | nil => exact h
  | cons pass passes ih => exact ih (h.recordPass pass)

end Recording

namespace AshBackend

variable {b b' : AshBackend}

lemma rollBack_spec (b : AshBackend) (ids : List ℕ) :
    (b.rollBack ids).log = b.log ∧ (b.rollBack ids).video = b.video ∧
      (b.rollBack ids).videooutClearedThisFrame = b.videooutClearedThisFrame ∧
      ∀ id rt, (b.rollBack ids).renderTargets id = some rt → rt.currentLayout = .undefined ∨
        id ∉ ids ∧ b.renderTargets id = some rt := by
  induction ids generalizing b with
  | nil => exact ⟨rfl,rfl,rfl,fun id rt hrt => .inr ⟨List.not_mem_nil,hrt⟩⟩
  | cons i ids ih =>
    obtain ⟨hlog,hvideo,hlatch,hrts⟩ := ih (b.setLayout .undefined i)
    refine ⟨hlog,hvideo,hlatch,fun id rt hrt => ?_⟩
    rcases hrts id rt hrt with hundef | ⟨hout,hold⟩
    · exact .inl hundef
    · by_cases hi : id = i
      · subst hi
        obtain ⟨rt',-,heq⟩ : ∃ rt', b.renderTargets id = some rt' ∧
            { rt' with currentLayout := .undefined } = rt := by
          simpa [setLayout] using hold
        exact .inl (by rw [← heq])
      · refine .inr ⟨fun hmem => (List.mem_cons.mp hmem).elim hi hout,?_⟩
        simpa [setLayout,Function.update_of_ne hi] using hold

lemma finish_timedOut (r : Recording) (executed : ℕ) (entry : Bool) {b' : AshBackend}
    (hfinish : r.finish (.timedOut executed) entry = b') :
    b'.log = r.ahead (.timedOut executed) ∧ b'.video = r.backend.video ∧
      b'.videooutClearedThisFrame =
        (if r.videooutDrawn ∧ ¬entry then false else r.backend.videooutClearedThisFrame) ∧
      ∀ id rt, b'.renderTargets id = some rt → rt.currentLayout = .undefined ∨
        id ∉ r.touchedRts ∧ r.backend.renderTargets id = some rt := by
  obtain ⟨hlog,hvideo,hlatch,hrts⟩ := rollBack_spec
    { r.backend with log := r.ahead (.timedOut executed) } r.touchedRts
  subst hfinish
  unfold Recording.finish
  split_ifs with hcleared
  · exact ⟨hlog,hvideo,rfl,hrts⟩
  · exact ⟨hlog,hvideo,hlatch,hrts⟩

variable {wait : FenceWait} {r : Recording}

lemma finish_log (entry : Bool) (hfinish : r.finish wait entry = b') :
    b'.log = r.ahead wait ∧ b'.video = r.backend.video := by
  cases wait with
  | signalled =>
    subst hfinish
    exact ⟨rfl,rfl⟩
  | timedOut executed =>
    obtain ⟨hlog,hvideo,-,-⟩ := finish_timedOut r executed entry hfinish
    exact ⟨hlog,hvideo⟩

lemma Tracked.finish (h : b.Tracked) (hr : r.Follows wait b)
    (hfinish : r.finish wait b.videooutClearedThisFrame = b') : b'.Tracked := by
  cases wait with
  | signalled =>
    subst hfinish
    refine ⟨hr.sound,fun id rt hrt => ?_,hr.latch (.inl rfl)⟩
    exact (hr.layouts id rt hrt).imp_right fun ⟨hread,_,hs⟩ => ⟨hread,hs (.inl rfl)⟩
  | timedOut executed =>
    obtain ⟨hlog,-,hlatch,hrts⟩ := finish_timedOut r executed _ hfinish
    refine ⟨by rw [hlog]; exact hr.sound,fun id rt hrt => ?_,?_⟩
    · rw [hlog]
      rcases hrts id rt hrt with hundef | ⟨hout,hold⟩
      · exact .inl hundef
      · exact (hr.layouts id rt hold).imp_right fun ⟨hread,_,hs⟩ => ⟨hread,hs (.inr hout)⟩
    · rw [hlog,hlatch]
      cases hentry : b.videooutClearedThisFrame with
      | true =>
        rw [if_neg (by simp)]
        exact hr.latch (.inr hentry)
      | false =>
        have hnone : thisFrame b.log = [] := h.latch.eq_nil_iff.mpr hentry
        have hoff : (if r.videooutDrawn = true ∧ ¬false = true then false
            else r.backend.videooutClearedThisFrame) = false := by
          cases hdrawn : r.videooutDrawn
          · simp [hr.idle hdrawn,hentry]
          · rfl
        rw [hoff]
        exact (hr.same (.inl rfl)).trans hnone

/-- What a submit records, waits for and rolls back, with the latch of the present. -/
lemma Intact.recordPasses (h : b.Intact) (passes : List Gnm.RecordedPass)
    {videooutDrawn : Bool} (hrec : b.recordPasses passes wait = (b',videooutDrawn)) :
    Intact (if videooutDrawn then { b' with video.embeddedDrawn := true } else b') := by
  have hr := (Recording.Follows.start h.toTracked wait).recordPasses passes
  obtain ⟨hfinish,hdrawn⟩ := Prod.mk.inj hrec
  have ht := h.toTracked.finish hr hfinish
  obtain ⟨hlog,hvideo⟩ := finish_log _ hfinish
  cases videooutDrawn with
  | true => exact ⟨⟨ht.sound,ht.layouts,ht.latch⟩,fun _ => rfl⟩
  | false =>
    rw [if_neg Bool.false_ne_true]
    refine ⟨ht,fun hnew => ?_⟩
    rw [hlog,hr.same (.inr hdrawn)] at hnew
    rw [hvideo,hr.video]
    exact h.drawn hnew

lemma Intact.congr (h : b.Intact) (hlog : b'.log = b.log)
    (hlayouts : ∀ id rt, b'.renderTargets id = some rt → b.renderTargets id = some rt)
    (hlatch : b'.videooutClearedThisFrame = b.videooutClearedThisFrame)
    (hdrawn : b'.video.embeddedDrawn = b.video.embeddedDrawn) : b'.Intact where
  sound := by rw [hlog]; exact h.sound
  layouts id rt hrt := by rw [hlog]; exact h.layouts id rt (hlayouts id rt hrt)
  latch := by rw [hlog,hlatch]; exact h.latch
  drawn hnew := by
    rw [hlog] at hnew
    rw [hdrawn]
    exact h.drawn hnew

/-- An event that leaves the videoout image and the frame alone. -/
lemma Intact.offscreen (h : b.Intact) {e : Event} (hoff : e.offscreen = true)
    (hsound : e.Sound b.log) (hlog : b'.log = e :: b.log)
    (hlayouts : ∀ id rt, b'.renderTargets id = some rt → rt.currentLayout = .undefined ∨
      rt.currentLayout = .shaderReadOnlyOptimal ∧ Settled (e :: b.log) id)
    (hlatch : b'.videooutClearedThisFrame = b.videooutClearedThisFrame)
    (hdrawn : b'.video.embeddedDrawn = b.video.embeddedDrawn) : b'.Intact where
  sound := by rw [hlog]; exact ⟨hsound,h.sound⟩
  layouts := by rw [hlog]; exact hlayouts
  latch := by rw [hlog,hlatch,latched_offscreen hoff]; exact h.latch
  drawn hnew := by
    rw [hlog,thisFrame_offscreen hoff] at hnew
    rw [hdrawn]
    exact h.drawn hnew

lemma Intact.createRenderTarget (h : b.Intact) (id width height : ℕ) (allocated : Bool) :
    (b.createRenderTarget id width height allocated).Intact := by
  unfold AshBackend.createRenderTarget
  split_ifs
  · exact h
  · refine h.offscreen (e := .created id) rfl trivial rfl (fun i rt hrt => ?_) rfl rfl
    by_cases hi : i = id
    · subst hi
      obtain rfl : ⟨width,height,.undefined⟩ = rt := by simpa using hrt
      exact .inl rfl
    · replace hrt : b.renderTargets i = some rt := by simpa [Function.update_of_ne hi] using hrt
      exact h.untouched hrt (decide_eq_false (Ne.symm hi))

lemma Intact.freeResource (h : b.Intact) (id : ℕ) : (b.freeResource id).Intact := by
  have hothers : ∀ i rt, (b.freeResource id).renderTargets i = some rt →
      i ≠ id ∧ b.renderTargets i = some rt := by
    intro i rt hrt
    by_cases hi : i = id
    · subst hi
      simp [AshBackend.freeResource] at hrt
    · exact ⟨hi,by simpa [AshBackend.freeResource,Function.update_of_ne hi] using hrt⟩
  by_cases hlive : (b.renderTargets id).isSome = true
  · refine h.offscreen (e := .freed id) rfl trivial ?_ (fun i rt hrt => ?_) rfl rfl
    · simp [AshBackend.freeResource,hlive]
    · obtain ⟨hi,hold⟩ := hothers i rt hrt
      exact h.untouched hold (decide_eq_false (Ne.symm hi))
  · refine h.congr ?_ (fun i rt hrt => (hothers i rt hrt).2) rfl rfl
    simp [AshBackend.freeResource,hlive]

lemma Intact.replayImport (h : b.Intact) {host : HostMemory} {id addr size : ℕ} {imports : Bool}
    (himport : b.replayImport host id addr size imports = some b') : b'.Intact := by
  unfold AshBackend.replayImport at himport
  split at himport
  · cases himport
  · split_ifs at himport
    cases himport
    exact h.congr rfl (fun _ _ hrt => hrt) rfl rfl

lemma Intact.createPipeline (h : b.Intact) (d : Gnm.Display) (id : ℕ) :
    (b.createPipeline d id).Intact := by
  unfold AshBackend.createPipeline
  split_ifs
  · exact h
  · exact h.congr rfl (fun _ _ hrt => hrt) rfl rfl

/-- A copy of a render target that is where its passes leave it. -/
lemma Intact.copyRtToHost (h : b.Intact) {id : ℕ} {rt : CacheRenderTarget}
    (hrt : b.renderTargets id = some rt) (hread : rt.currentLayout = .shaderReadOnlyOptimal)
    (copy : HostCopy) (use : Gnm.Bytes → CopyUse) : (b.copyRtToHost id copy use).Intact := by
  have hs : Settled b.log id := by
    rcases h.layouts id rt hrt with hundef | ⟨-,hs⟩
    · rw [hread] at hundef
      cases hundef
    · exact hs
  have hcopied : ∀ completes use, Intact
      { b with log := .copied id copyBarriers completes use :: b.log } := by
    intro completes use
    refine h.offscreen (e := .copied id copyBarriers completes use) rfl ⟨hs.completed,hs.whole⟩
      rfl (fun i rt hrt => ?_) rfl rfl
    exact (h.layouts i rt hrt).imp_right fun ⟨hread,hs⟩ => ⟨hread,hs.copied _ _ _⟩
  cases copy with
  | notSubmitted => exact h
  | timedOut => exact hcopied _ _
  | unmapped => exact hcopied _ _
  | pixels linear => exact hcopied _ _

lemma Intact.readback (h : b.Intact) (q : ReadbackRequest) : (b.readback q).Intact := by
  unfold AshBackend.readback
  split
  · exact h
  rename_i rt hrt
  split_ifs with hread
  · exact h
  split
  · exact h.congr rfl (fun _ _ hrt => hrt) rfl rfl
  · exact h.copyRtToHost hrt (not_not.mp hread) _ _

lemma Intact.dumpRenderTargetPng (h : b.Intact) (q : RtDump) :
    (b.dumpRenderTargetPng q).Intact := by
  unfold AshBackend.dumpRenderTargetPng
  split
  · exact h
  rename_i rt hrt
  split_ifs with hread
  · exact h
  · exact h.copyRtToHost hrt (not_not.mp hread) _ _

end AshBackend

lemma ListWalk.step_intact {host : HostMemory} {w w' : ListWalk} {cmd : RenderCmd}
    (h : w.backend.Intact) (hstep : w.step host cmd = some w') : w'.backend.Intact := by
  cases cmd with
  | backend cmd granted =>
    obtain ⟨b,hb,hw⟩ := Option.bind_eq_some_iff.mp hstep
    cases hw
    unfold ListWalk.apply at hb
    split at hb
    · cases hb
      exact h.createRenderTarget _ _ _ _
    · cases hb
      exact h.freeResource _
    · exact h.replayImport hb
    · cases hb
      exact h.createPipeline _ _
    · cases hb
      exact h
  | readbackRenderTarget q =>
    cases hstep
    exact h
  | dumpRenderTargetPng q =>
    cases hstep
    exact h

lemma ListWalk.walk_intact {host : HostMemory} {w w' : ListWalk} {cmds : List RenderCmd}
    (h : w.backend.Intact) (hwalk : cmds.foldlM (ListWalk.step host) w = some w') :
    w'.backend.Intact := by
  induction cmds generalizing w with
  | nil =>
    cases hwalk
    exact h
  | cons cmd cmds ih =>
    rw [List.foldlM_cons] at hwalk
    obtain ⟨w₁,hstep,hrest⟩ := Option.bind_eq_some_iff.mp hwalk
    exact ih (ListWalk.step_intact h hstep) hrest

namespace AshBackend

variable {b b' : AshBackend} {host : HostMemory}

lemma Intact.readbacks (h : b.Intact) (qs : List ReadbackRequest) :
    (qs.foldl AshBackend.readback b).Intact := by
  induction qs generalizing b with
  | nil => exact h
  | cons q qs ih => exact ih (h.readback q)

lemma Intact.rtDumps (h : b.Intact) (qs : List RtDump) :
    (qs.foldl AshBackend.dumpRenderTargetPng b).Intact := by
  induction qs generalizing b with
  | nil => exact h
  | cons q qs ih => exact ih (h.dumpRenderTargetPng q)

lemma Intact.runCommandList (h : b.Intact) {cmds : List RenderCmd} {wait : FenceWait}
    (hrun : b.runCommandList host cmds wait = some b') : b'.Intact := by
  obtain ⟨w,hwalk,hrun⟩ := Option.bind_eq_some_iff.mp hrun
  have hw : w.backend.Intact := ListWalk.walk_intact h hwalk
  split_ifs at hrun
  · cases hrun
    exact hw.congr rfl (fun _ _ hrt => hrt) rfl rfl
  · cases hrun
    have hready : Intact { w.backend with display := w.replay.display, drawTarget := true } :=
      hw.congr rfl (fun _ _ hrt => hrt) rfl rfl
    exact ((hready.recordPasses w.replay.passes rfl).readbacks _).rtDumps _

lemma Intact.submitFlip (h : b.Intact) (key : BufferKey) (signal : ℕ) :
    (b.submitFlip key signal).Intact where
  sound := ⟨trivial,h.sound⟩
  layouts _ _ hrt := h.untouched hrt rfl
  latch := rfl
  drawn hnew := absurd rfl hnew

lemma present_embeddedDrawn (v : VideoOut) (fence : Bool) (acquire : Acquire) :
    (v.present fence acquire).1.embeddedDrawn = v.embeddedDrawn := by
  unfold VideoOut.present
  cases fence
  · rfl
  · cases acquire with
    | image => cases v.zeroCopyKey.isSome <;> rfl
    | outOfDate => rfl
    | failed => rfl

/-- A present copies over the image only while nothing has been drawn into it. -/
lemma Intact.present (h : b.Intact) (fence : Bool) (acquire : Acquire) :
    (b.present fence acquire).Intact := by
  have hvideo := present_embeddedDrawn b.video fence acquire
  by_cases hshown : fence ∧ acquire = .image
  · have hlog : (b.present fence acquire).log = .presented (!b.video.embeddedDrawn) :: b.log := by
      simp [AshBackend.present,hshown]
    cases hdrawn : b.video.embeddedDrawn with
    | true =>
      rw [hdrawn] at hlog
      refine h.offscreen (e := .presented false) rfl trivial hlog (fun id rt hrt => ?_) rfl hvideo
      exact h.untouched hrt rfl
    | false =>
      rw [hdrawn] at hlog
      have hnone : thisFrame b.log = [] := by
        by_contra hnew
        rw [h.drawn hnew] at hdrawn
        cases hdrawn
      have hlatch : (b.present fence acquire).videooutClearedThisFrame = false :=
        h.latch.eq_nil_iff.mp hnone
      refine ⟨⟨?_,fun id rt hrt => ?_,?_⟩,fun hnew => ?_⟩
      · rw [hlog]
        exact ⟨trivial,h.sound⟩
      · rw [hlog]
        exact h.untouched hrt rfl
      · rw [hlog,hlatch]
        exact hnone
      · rw [hlog] at hnew
        exact absurd hnone hnew
  · refine h.congr ?_ (fun _ _ hrt => hrt) rfl hvideo
    simp [AshBackend.present,hshown]

lemma registerBuffer_embeddedDrawn (v : VideoOut) (imports : Bool) (ptr w h pixelFormat : ℕ)
    (key : BufferKey) :
    (v.registerBuffer host imports ptr w h pixelFormat key).embeddedDrawn = v.embeddedDrawn := by
  unfold VideoOut.registerBuffer
  dsimp only
  split
  · rfl
  · split_ifs <;> rfl

lemma Intact.step (h : b.Intact) {act : RenderAct} (hstep : b.step host act = some b') :
    b'.Intact := by
  cases act with
  | runCommandList cmds wait => exact h.runCommandList hstep
  | submitFlip key signal =>
    cases hstep
    exact h.submitFlip key signal
  | present fence acquire =>
    cases hstep
    exact h.present fence acquire
  | registerBuffer imports ptr w h' pixelFormat key =>
    cases hstep
    exact h.congr rfl (fun _ _ hrt => hrt) rfl (registerBuffer_embeddedDrawn _ _ _ _ _ _ _)
  | signalVsync =>
    cases hstep
    exact h.congr rfl (fun _ _ hrt => hrt) rfl rfl

theorem Intact.start : AshBackend.start.Intact where
  sound := trivial
  layouts id rt hrt := by cases hrt
  latch := rfl
  drawn hnew := absurd rfl hnew

/-- In every run: a pass into a render target clears it from nothing or loads it from where the
last commands leave it, a copy is of one that its last submits left to be read, and of the
videoout passes whose submits complete the first of each frame clears and the others load what
the frame has drawn. -/
theorem passes_clear_or_load
    (h : Reach (AshBackend.step host) Initial (fun _ _ => True) b) :
    (∀ cmds completes executes past id, .pass cmds completes executes :: past <:+ b.log →
      cmds.target = .renderTarget id →
      cmds.attachment.loadOp = .clear ∧ cmds.attachment.initialLayout = .undefined ∨
        cmds.attachment.loadOp = .load ∧ leftIn past id = some cmds.attachment.initialLayout) ∧
    (∀ id barriers completes use past, .copied id barriers completes use :: past <:+ b.log →
      lastCompleted past id = some .shaderReadOnlyOptimal ∧ drawnWhole past id = true) ∧
    (∀ cmds executes past, .pass cmds true executes :: past <:+ b.log →
      cmds.target = .videoout → (cmds.attachment.loadOp = .clear ↔ thisFrame past = []) ∧
        (cmds.attachment.loadOp = .load → Accumulates past)) := by
  have hintact : b.Intact := by
    refine h.invariant (fun s hs => ?_) fun s l s' hs _ hstep => hs.step hstep
    cases hs
    exact .start
  refine ⟨fun cmds completes executes past id hs htarget => ?_,
    fun id barriers completes use past hs => hintact.sound.suffix hs,
    fun cmds executes past hs htarget => ?_⟩
  · have hsound := hintact.sound.suffix hs
    rw [Event.Sound,htarget] at hsound
    exact hsound
  · have hsound := hintact.sound.suffix hs
    rw [Event.Sound,htarget] at hsound
    exact hsound rfl

/-- A pipeline that fetches nothing. -/
def plainPipeline : Gnm.HostPipeline :=
  ⟨[],[],⟨0,0,⟨.r8g8b8a8Unorm,false,0,15,false,0,.triangleList⟩,none,none,none,none,[]⟩,[],none,[],
    none,none⟩

/-- Draws into render target 5 and into the videoout by turns, and a readback. -/
def drawList : List RenderCmd :=
  [.backend (.setRenderTarget 5) true,.backend (.bindPipeline 1) true,
    .backend (.drawAuto 3) true,.backend (.drawAuto 3) true,
    .backend (.setRenderTarget 5) true,.backend (.drawAuto 3) true,
    .backend (.drawAuto 3) true,
    .readbackRenderTarget ⟨5,0x1000,16,2,.linear,.pixels (List.replicate 16 7)⟩]

/-- A first submit that times out, a whole one, and one in the next frame. -/
def frameRun : List RenderAct :=
  [.runCommandList ([.backend (.createPipeline 1 plainPipeline) true,
      .backend (.resource (.createRenderTarget 5 2 2 .r8g8b8a8Unorm)) true] ++ drawList)
      (.timedOut 1),
    .runCommandList drawList .signalled,.present true .image,.submitFlip (0,0) 0,
    .runCommandList drawList .signalled]

theorem passes_clear_or_load_frameRun : ∃ b : AshBackend, b.log.length = 17 ∧
    thisFrame b.log = [.drawn 1 15,.drawn 1 13] ∧ leftIn b.log 5 = some .shaderReadOnlyOptimal ∧
    ∀ cmds executes past, .pass cmds true executes :: past <:+ b.log → cmds.target = .videoout →
      (cmds.attachment.loadOp = .clear ↔ thisFrame past = []) ∧
        (cmds.attachment.loadOp = .load → Accumulates past) := by
  have hrun : ((Transition.exec (Transition.guarded (AshBackend.step ⟨0x10000,0x40000000,true⟩)
      fun _ _ => True) start frameRun).map fun b => decide (b.log.length = 17 ∧
      thisFrame b.log = [.drawn 1 15,.drawn 1 13] ∧
      leftIn b.log 5 = some .shaderReadOnlyOptimal)) = some true := by
    decide +kernel
  obtain ⟨b,hexec,hend⟩ := Option.map_eq_some_iff.mp hrun
  obtain ⟨hlength,hframe,hleft⟩ := of_decide_eq_true hend
  have hreach : Reach (AshBackend.step ⟨0x10000,0x40000000,true⟩) Initial (fun _ _ => True) b :=
    Reach.exec (.start rfl) hexec
  exact ⟨b,hlength,hframe,hleft,(passes_clear_or_load hreach).2.2⟩

end AshBackend

end Unemups4.Gpu

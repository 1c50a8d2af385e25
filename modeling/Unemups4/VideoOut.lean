import Unemups4.Transition

/-! The scanout side of the display backend: guest framebuffers registered under a handle and an
index, the imports of their pages that spare the copy, the flip target with the reply that its
guest waits for, and where a present takes its pixels from. The import map is shared with the
resource cache, which files its own imports under a handle of minus one. -/
namespace Unemups4.Gpu
open Transition (Reach)

structure DisplayBuffer where
  guestPtr : ℕ
  width : ℕ
  height : ℕ
  pixelFormat : ℕ
  deriving DecidableEq, Repr

/-- `forCache` tells whose import it is; the backend does not keep it. -/
structure ImportedBuf where
  hostPtr : ℕ
  size : ℕ
  forCache : Bool
  deriving DecidableEq, Repr

/-- A handle and an index. -/
abbrev BufferKey := ℤ × ℕ

/-- The arena that is identity-mapped, and whether the device imports host memory. -/
structure HostMemory where
  guestBase : ℕ
  span : ℕ
  extMemHost : Bool

def HostMemory.getHostPtr (host : HostMemory) (addr : ℕ) : Option ℕ :=
  if host.guestBase ≤ addr ∧ addr < host.span then some addr else none

def resW : ℕ := 1920
def resH : ℕ := 1080

structure VideoOut where
  buffers : BufferKey → Option DisplayBuffer
  imported : BufferKey → Option ImportedBuf
  currentTarget : Option BufferKey
  embeddedDrawn : Bool
  pendingVsyncSignal : Option ℕ

/-- What the swapchain answers to an acquire. -/
inductive Acquire where
  | image
  | outOfDate
  | failed
  deriving DecidableEq, Repr

/-- Where the pixels of a present come from: an import, a copy of guest memory into the staging
buffer, or the staging buffer as it was. -/
inductive PixelSource where
  | imported (buf : ImportedBuf)
  | staged (addr len : ℕ)
  | unchanged
  deriving DecidableEq, Repr

/-- The commands of a list that matter here. -/
inductive BackendCmd where
  | importBuffer (id hostPtr size : ℕ) (imports : Bool)
  | freeResource (id : ℕ)
  | draw
  | other
  deriving DecidableEq, Repr

namespace VideoOut

variable (host : HostMemory) (v : VideoOut)

/-- `imports` tells whether the driver takes the import. -/
def registerBuffer (imports : Bool) (ptr w h pixelFormat : ℕ) (key : BufferKey) : VideoOut :=
  let v := { v with buffers := Function.update v.buffers key (some ⟨ptr,w,h,pixelFormat⟩) }
  let fullFrame : Bool := w = resW ∧ h = resH
  match host.getHostPtr ptr with
  | none => v
  | some hostPtr =>
      if fullFrame ∧ host.extMemHost then
        let stale := (v.imported key).any fun buf => buf.hostPtr ≠ hostPtr
        let imported := if stale then Function.update v.imported key none else v.imported
        if (imported key).isNone ∧ imports then
          { v with imported := Function.update imported key (some ⟨hostPtr,w*h*4,false⟩) }
        else { v with imported := imported }
      else v

/-- The flip before this one is answered at once. -/
def submitFlip (key : BufferKey) (signal : ℕ) : VideoOut × Option ℕ :=
  ({ v with currentTarget := some key, pendingVsyncSignal := some signal },v.pendingVsyncSignal)

def signalVsync : VideoOut × Option ℕ := ({ v with pendingVsyncSignal := none },v.pendingVsyncSignal)

def tryImportHostRange (id hostPtr size : ℕ) (imports : Bool) : VideoOut :=
  if imports then
    { v with imported := Function.update v.imported (-1,id) (some ⟨hostPtr,size,true⟩) }
  else v

def freeResource (id : ℕ) : VideoOut :=
  { v with imported := Function.update v.imported (-1,id) none }

def runCommand : BackendCmd → VideoOut
  | .importBuffer id hostPtr size imports => v.tryImportHostRange id hostPtr size imports
  | .freeResource id => v.freeResource id
  | .draw => { v with embeddedDrawn := true }
  | .other => v

def runCommandList (cmds : List BackendCmd) : VideoOut := cmds.foldl runCommand v

/-- The target to present without a copy. -/
def zeroCopyKey : Option BufferKey :=
  if v.embeddedDrawn then none else v.currentTarget.filter fun key => (v.imported key).isSome

/-- `vmaEnd` is the end of the guest mapping that the buffer starts in, if it is tracked. -/
def pixelSource (vmaEnd : Option ℕ) : PixelSource :=
  match v.zeroCopyKey.bind v.imported with
  | some buf => .imported buf
  | none =>
      if v.embeddedDrawn then .unchanged
      else
        match v.currentTarget.bind v.buffers with
        | none => .unchanged
        | some buf =>
            match host.getHostPtr buf.guestPtr with
            | none => .unchanged
            | some guestPtr =>
                let copySize := min (buf.width*buf.height*4) (2^64-1)
                let maxSize := resW*resH*4
                let mapped := (vmaEnd.map fun vmaEnd => vmaEnd-buf.guestPtr).getD maxSize
                .staged guestPtr (min (min copySize maxSize) mapped)

/-- A present that waits for its fence and gets an image takes its pixels and answers the guest,
before the submit when they were copied and after it when they were imported. -/
def present (fence : Bool) (acquire : Acquire) : VideoOut × Option ℕ :=
  if ¬fence then (v,none)
  else
    match acquire with
    | .outOfDate | .failed => (v,none)
    | .image =>
        let zeroCopy := v.zeroCopyKey.isSome
        let (v,early) := if zeroCopy then (v,none) else v.signalVsync
        let (v,late) := if zeroCopy then v.signalVsync else (v,none)
        (v,early <|> late)

end VideoOut

/-- What happens to the scanout side. -/
inductive VideoAct where
  | registerBuffer (imports : Bool) (ptr w h pixelFormat : ℕ) (key : BufferKey)
  | submitFlip (key : BufferKey) (signal : ℕ)
  | runCommand (cmd : BackendCmd)
  | signalVsync
  | present (fence : Bool) (acquire : Acquire)

namespace VideoOut

def step (host : HostMemory) (v : VideoOut) : VideoAct → Option VideoOut
  | .registerBuffer imports ptr w h pixelFormat key =>
      some (v.registerBuffer host imports ptr w h pixelFormat key)
  | .submitFlip key signal => some (v.submitFlip key signal).1
  | .runCommand cmd => some (v.runCommand cmd)
  | .signalVsync => some v.signalVsync.1
  | .present fence acquire => some (v.present fence acquire).1

def start : VideoOut := ⟨fun _ => none,fun _ => none,none,false,none⟩

def Initial (v : VideoOut) : Prop := v = start


end VideoOut

/-- The pixels are those of the guest range of a registration. -/
def PixelSource.Of (source : PixelSource) (buf : DisplayBuffer) : Prop :=
  match source with
  | .imported taken => taken.forCache = false ∧ taken.hostPtr = buf.guestPtr ∧
      taken.size = buf.width*buf.height*4
  | .staged addr len => addr = buf.guestPtr ∧ len ≤ buf.width*buf.height*4
  | .unchanged => False

namespace VideoOut

/-- As long as nothing was drawn, a present shows the latest registration of the flipped buffer. -/
def ShowsRegistration (host : HostMemory) (v : VideoOut) : Prop :=
  v.embeddedDrawn = false → ∀ key buf, v.currentTarget = some key → v.buffers key = some buf →
    ∀ vmaEnd, (v.pixelSource host vmaEnd).Of buf

/-- A registration lies in the arena and, where its key has an import, is full-frame and not of
a key that the cache uses; the cache imports under no key that the guest registered. -/
def Careful (host : HostMemory) (v : VideoOut) : VideoAct → Prop
  | .registerBuffer _ ptr w h _ key => (host.getHostPtr ptr).isSome ∧
      ∀ buf ∈ v.imported key, buf.forCache = false ∧ w = resW ∧ h = resH
  | .runCommand (.importBuffer id _ _ imports) => imports = true → v.buffers (-1,id) = none
  | _ => True

instance (host : HostMemory) (v : VideoOut) (act : VideoAct) : Decidable (v.Careful host act) :=
  match act with
  | .registerBuffer _ _ _ _ _ _ => inferInstanceAs (Decidable (_ ∧ _))
  | .runCommand (.importBuffer _ _ _ _) => inferInstanceAs (Decidable (_ → _))
  | .runCommand (.freeResource _) | .runCommand .draw | .runCommand .other => .isTrue trivial
  | .submitFlip _ _ | .signalVsync | .present _ _ => .isTrue trivial

/-- What the imports and the registrations have to do with each other. -/
structure Matched (host : HostMemory) (v : VideoOut) : Prop where
  own : ∀ key taken, v.imported key = some taken → taken.forCache = false →
    host.extMemHost = true ∧ taken.size = resW*resH*4 ∧ ∃ buf, v.buffers key = some buf ∧
      taken.hostPtr = buf.guestPtr ∧ buf.width = resW ∧ buf.height = resH
  cache : ∀ key taken, v.imported key = some taken → taken.forCache = true → v.buffers key = none
  resolved : ∀ key buf, v.buffers key = some buf → (host.getHostPtr buf.guestPtr).isSome

variable {host : HostMemory} {v v' : VideoOut}

lemma getHostPtr_eq {addr hostPtr : ℕ} (h : host.getHostPtr addr = some hostPtr) :
    hostPtr = addr := by
  unfold HostMemory.getHostPtr at h
  split_ifs at h
  exact (Option.some.inj h).symm

section Register

variable {imports : Bool} {ptr w h pixelFormat : ℕ} {key : BufferKey}

lemma registerBuffer_buffers : (v.registerBuffer host imports ptr w h pixelFormat key).buffers =
    Function.update v.buffers key (some ⟨ptr,w,h,pixelFormat⟩) := by
  simp only [registerBuffer]
  split
  · rfl
  · split_ifs <;> rfl

lemma registerBuffer_imported_other {other : BufferKey} (hne : other ≠ key) :
    (v.registerBuffer host imports ptr w h pixelFormat key).imported other = v.imported other := by
  simp only [registerBuffer]
  split
  · rfl
  · split_ifs <;> simp [Function.update_of_ne hne]

/-- A registration in the arena leaves its key without an import or with one of its pages. -/
lemma registerBuffer_imported_self (hm : v.Matched host)
    (hc : v.Careful host (.registerBuffer imports ptr w h pixelFormat key)) {taken : ImportedBuf}
    (ht : (v.registerBuffer host imports ptr w h pixelFormat key).imported key = some taken) :
    host.extMemHost = true ∧ taken.forCache = false ∧ taken.hostPtr = ptr ∧
      taken.size = resW*resH*4 ∧ w = resW ∧ h = resH := by
  obtain ⟨hsome,himport⟩ := hc
  obtain ⟨hostPtr,hptr⟩ := Option.isSome_iff_exists.mp hsome
  obtain rfl := getHostPtr_eq hptr
  simp only [registerBuffer, hptr] at ht
  by_cases hfull : (decide (w = resW ∧ h = resH) = true) ∧ host.extMemHost = true
  · obtain ⟨hw,hh⟩ := of_decide_eq_true hfull.1
    rw [if_pos hfull] at ht
    split_ifs at ht with hstale himports himports
    · simp only [Function.update_self, Option.some.injEq] at ht
      subst ht
      exact ⟨hfull.2,rfl,rfl,by rw [hw, hh],hw,hh⟩
    · simp at ht
    · simp only [Function.update_self, Option.some.injEq] at ht
      subst ht
      exact ⟨hfull.2,rfl,rfl,by rw [hw, hh],hw,hh⟩
    · simp only at ht
      obtain ⟨hcache,-,-⟩ := himport taken ht
      obtain ⟨hext,hsize,-⟩ := hm.own key taken ht hcache
      refine ⟨hext,hcache,?_,hsize,hw,hh⟩
      simpa [ht] using hstale
  · rw [if_neg hfull] at ht
    obtain ⟨hcache,hw,hh⟩ := himport taken ht
    obtain ⟨hext,-⟩ := hm.own key taken ht hcache
    exact absurd ⟨by simp [hw, hh],hext⟩ hfull

end Register

lemma matched_registerBuffer {imports : Bool} {ptr w h pixelFormat : ℕ} {key : BufferKey}
    (hm : v.Matched host) (hc : v.Careful host (.registerBuffer imports ptr w h pixelFormat key)) :
    (v.registerBuffer host imports ptr w h pixelFormat key).Matched host := by
  constructor
  · intro other taken ht hcache
    rw [registerBuffer_buffers]
    by_cases heq : other = key
    · subst heq
      obtain ⟨hext,-,hptr,hsize,hw,hh⟩ := registerBuffer_imported_self hm hc ht
      exact ⟨hext,hsize,_,Function.update_self ..,hptr,hw,hh⟩
    · rw [registerBuffer_imported_other heq] at ht
      rw [Function.update_of_ne heq]
      exact hm.own other taken ht hcache
  · intro other taken ht hcache
    rw [registerBuffer_buffers]
    by_cases heq : other = key
    · subst heq
      obtain ⟨-,hnot,-⟩ := registerBuffer_imported_self hm hc ht
      rw [hcache] at hnot
      cases hnot
    · rw [registerBuffer_imported_other heq] at ht
      rw [Function.update_of_ne heq]
      exact hm.cache other taken ht hcache
  · intro other buf hbuf
    rw [registerBuffer_buffers] at hbuf
    by_cases heq : other = key
    · subst heq
      rw [Function.update_self] at hbuf
      obtain rfl := Option.some.inj hbuf
      exact hc.1
    · rw [Function.update_of_ne heq] at hbuf
      exact hm.resolved other buf hbuf

/-- An import goes or comes under a key of the cache. -/
lemma matched_update {key : BufferKey} {entry : Option ImportedBuf} (hm : v.Matched host)
    (hbuffers : v'.buffers = v.buffers)
    (himported : v'.imported = Function.update v.imported key entry)
    (hentry : ∀ taken, entry = some taken → taken.forCache = true ∧ v.buffers key = none) :
    v'.Matched host := by
  constructor
  · intro other taken ht hcache
    rw [himported] at ht
    rw [hbuffers]
    by_cases heq : other = key
    · subst heq
      rw [Function.update_self] at ht
      rw [(hentry taken ht).1] at hcache
      cases hcache
    · rw [Function.update_of_ne heq] at ht
      exact hm.own other taken ht hcache
  · intro other taken ht hcache
    rw [himported] at ht
    rw [hbuffers]
    by_cases heq : other = key
    · subst heq
      rw [Function.update_self] at ht
      exact (hentry taken ht).2
    · rw [Function.update_of_ne heq] at ht
      exact hm.cache other taken ht hcache
  · rw [hbuffers]
    exact hm.resolved

lemma matched_congr (hm : v.Matched host) (hbuffers : v'.buffers = v.buffers)
    (himported : v'.imported = v.imported) : v'.Matched host := by
  constructor
  · rw [hbuffers, himported]
    exact hm.own
  · rw [hbuffers, himported]
    exact hm.cache
  · rw [hbuffers]
    exact hm.resolved

lemma matched_runCommand {cmd : BackendCmd} (hm : v.Matched host)
    (hc : v.Careful host (.runCommand cmd)) : (v.runCommand cmd).Matched host := by
  cases cmd with
  | importBuffer id hostPtr size imports =>
    cases imports with
    | false => exact hm
    | true =>
      refine matched_update hm rfl rfl fun taken ht => ?_
      cases ht
      exact ⟨rfl,hc rfl⟩
  | freeResource id =>
    refine matched_update hm rfl rfl fun taken ht => ?_
    cases ht
  | draw => exact matched_congr hm rfl rfl
  | other => exact hm

/-- A present changes nothing but the reply that is owed. -/
lemma present_same (fence : Bool) (acquire : Acquire) :
    ∃ signal, (v.present fence acquire).1 = { v with pendingVsyncSignal := signal } := by
  unfold present signalVsync
  cases fence with
  | false => exact ⟨_,rfl⟩
  | true =>
    cases acquire with
    | outOfDate | failed => exact ⟨_,rfl⟩
    | image => cases v.zeroCopyKey.isSome <;> exact ⟨_,rfl⟩

lemma matched_step {act : VideoAct} (hm : v.Matched host) (hc : v.Careful host act)
    (h : v.step host act = some v') : v'.Matched host := by
  cases act with
  | registerBuffer imports ptr w height pixelFormat key =>
    cases h
    exact matched_registerBuffer hm hc
  | submitFlip key signal => cases h; exact matched_congr hm rfl rfl
  | runCommand cmd => cases h; exact matched_runCommand hm hc
  | signalVsync => cases h; exact matched_congr hm rfl rfl
  | present fence acquire =>
    cases h
    obtain ⟨signal,hsame⟩ := v.present_same fence acquire
    rw [hsame]
    exact matched_congr hm rfl rfl

lemma showsRegistration_of_matched (hm : v.Matched host) : v.ShowsRegistration host := by
  intro hdrawn key buf htarget hbuf vmaEnd
  unfold pixelSource
  cases himport : v.imported key with
  | some taken =>
    have hsource : v.zeroCopyKey.bind v.imported = some taken := by
      simp [zeroCopyKey, hdrawn, htarget, himport, Option.filter]
    simp only [hsource]
    cases hcache : taken.forCache with
    | true =>
      have hnone := hm.cache key taken himport hcache
      rw [hbuf] at hnone
      cases hnone
    | false =>
      obtain ⟨-,hsize,buf',hbuf',hptr,hw,hh⟩ := hm.own key taken himport hcache
      obtain rfl : buf = buf' := Option.some.inj (hbuf.symm.trans hbuf')
      exact ⟨hcache,hptr,by rw [hsize, hw, hh]⟩
  | none =>
    have hsource : v.zeroCopyKey.bind v.imported = none := by
      simp [zeroCopyKey, hdrawn, htarget, himport]
    obtain ⟨hostPtr,hptr⟩ := Option.isSome_iff_exists.mp (hm.resolved key buf hbuf)
    simp only [hsource, hdrawn, htarget, hbuf, hptr, Bool.false_eq_true, if_false,
      Option.bind_some]
    exact ⟨getHostPtr_eq hptr,(min_le_left _ _).trans ((min_le_left _ _).trans (min_le_left _ _))⟩

/-- A present shows the latest registration, as long as no key with an import is registered again
but in full and the guest and the cache use different keys. -/
theorem careful_showsRegistration (hv : Reach (step host) Initial (Careful host) v) :
    v.ShowsRegistration host := by
  have hm : v.Matched host := hv.invariant
    (by rintro v rfl; constructor <;> simp [start])
    fun _ _ _ hm hc h => matched_step hm hc h
  exact showsRegistration_of_matched hm

/-- Both buffers of a guest in full, one of them registered anew elsewhere, an import of the
cache, and a flip. -/
theorem careful_showsRegistration_flip : ∃ v, Reach (step ⟨0x10000,0x40000000,true⟩) Initial
    (Careful ⟨0x10000,0x40000000,true⟩) v ∧ v.ShowsRegistration ⟨0x10000,0x40000000,true⟩ ∧
      v.pixelSource ⟨0x10000,0x40000000,true⟩ none = .imported ⟨0x3000000,1920*1080*4,false⟩ := by
  have hrun : ((Transition.exec (Transition.guarded (step ⟨0x10000,0x40000000,true⟩)
      (Careful ⟨0x10000,0x40000000,true⟩)) start
      [.registerBuffer true 0x1000000 1920 1080 0x80000000 (0,0),
        .registerBuffer true 0x2000000 1920 1080 0x80000000 (0,1),
        .runCommand (.importBuffer 7 0x5000000 4096 true),
        .registerBuffer true 0x3000000 1920 1080 0x80000000 (0,1),
        .submitFlip (0,1) 0]).map fun v =>
      decide (v.pixelSource ⟨0x10000,0x40000000,true⟩ none =
        .imported ⟨0x3000000,1920*1080*4,false⟩)) = some true := by
    decide +kernel
  obtain ⟨v,hexec,hend⟩ := Option.map_eq_some_iff.mp hrun
  have hreach : Reach (step ⟨0x10000,0x40000000,true⟩) Initial
      (Careful ⟨0x10000,0x40000000,true⟩) v := Reach.exec (.start rfl) hexec
  exact ⟨v,hreach,careful_showsRegistration hreach,of_decide_eq_true hend⟩

/-- A buffer registered in full and then anew, smaller and elsewhere: the flip still shows the
pages of the first registration. -/
theorem not_showsRegistration_smaller : ¬∀ host v, Reach (step host) Initial (fun _ _ => True) v →
    v.ShowsRegistration host := by
  intro hall
  have hrun : ((Transition.exec (Transition.guarded (step ⟨0x10000,0x40000000,true⟩)
      fun _ _ => True) start
      [.registerBuffer true 0x1000000 1920 1080 0x80000000 (0,0),
        .registerBuffer true 0x2000000 1280 720 0x80000000 (0,0),
        .submitFlip (0,0) 0]).map fun v => decide (v.embeddedDrawn = false ∧
      v.currentTarget = some (0,0) ∧ v.buffers (0,0) = some ⟨0x2000000,1280,720,0x80000000⟩ ∧
      v.pixelSource ⟨0x10000,0x40000000,true⟩ none =
        .imported ⟨0x1000000,1920*1080*4,false⟩)) = some true := by
    decide +kernel
  obtain ⟨v,hexec,hend⟩ := Option.map_eq_some_iff.mp hrun
  obtain ⟨hdrawn,htarget,hbuf,hsource⟩ := of_decide_eq_true hend
  have hreach : Reach (step ⟨0x10000,0x40000000,true⟩) Initial (fun _ _ => True) v :=
    Reach.exec (.start rfl) hexec
  have hof := hall _ v hreach hdrawn _ _ htarget hbuf none
  rw [hsource] at hof
  exact absurd hof.2.1 (by decide)

end VideoOut

end Unemups4.Gpu

import Unemups4.HostMaps
import Unemups4.Replay

/-! The objects behind the backend's maps. A bind captures the object it finds; a free
destroys it at once or leaves it for the next list to recycle; a submission names its
objects until a wait shows it complete. -/
namespace Unemups4.Gnm

namespace Binds

/-- The buffers and views the next draw will name. -/
def objects (b : Binds) : List ℕ :=
  b.vertexBuffers.map (·.buffer) ++ b.storageBinds.map (·.buffer) ++ b.constBinds.map (·.buffer) ++
    b.textureBinds.map (·.image)

end Binds

def DrawCall.objects : DrawCall → List ℕ
  | .auto _ => []
  | .indexed buffer _ _ => [buffer]

def RecordedPass.objects (p : RecordedPass) : List ℕ :=
  p.vertexBuffers.map (·.buffer) ++ p.storageBinds.map (·.buffer) ++ p.constBinds.map (·.buffer) ++
    p.textureBinds.map (·.image) ++ p.draw.objects

/-- A pass that still has to be recorded, with the object its target id stood for when the
draw closed it; the recording looks the id up again. -/
structure WaitingPass where
  pass : RecordedPass
  target : Option ℕ
  deriving DecidableEq, Repr

def WaitingPass.names (p : WaitingPass) : List ℕ := p.pass.objects ++ p.target.toList

/-- A submission that no wait has shown complete. -/
structure Submission where
  names : List ℕ
  isDraw : Bool
  deriving DecidableEq, Repr

/-- How the copy of a target to the host went; it may not be submitted at all. -/
inductive CopyFate where
  | skipped
  | signalled
  | timedOut
  deriving DecidableEq, Repr

structure HostGpu where
  pipelines : ℕ → Option HostPipeline
  held : HostMap → ℕ → Option ℕ
  samplers : ℕ → Bool
  next : ℕ
  pendingRecycle : List ℕ
  drawFence : Bool
  walking : Bool
  binds : Binds
  passes : List WaitingPass
  readbacks : List ℕ
  inFlight : List Submission
  gone : List ℕ

/-- What the display thread does. The allocation of a command may fail, for an image upload that of
its staging buffer, and there is none for an image of size zero; a wait of a present may show earlier
submissions complete. -/
inductive DisplayEvent where
  | start
  | cmd (cmd : BackendCmd) (allocated : Bool)
  | readbackRenderTarget (id : ℕ)
  | finish (signalled : Bool) (copies : List CopyFate)
  | settle (done : Submission → Bool)

namespace HostGpu

def boot : HostGpu where
  pipelines _ := none
  held _ _ := none
  samplers _ := false
  next := 0
  pendingRecycle := []
  drawFence := false
  walking := false
  binds := .empty
  passes := []
  readbacks := []
  inFlight := []
  gone := []

def lookups (g : HostGpu) : Lookups where
  pipeline := g.pipelines
  buffer := g.held .resources
  view id := g.held .images id <|> g.held .renderTargets id
  sampler id := if g.samplers id then some id else none

def insert (g : HostGpu) (m : HostMap) (id : ℕ) : HostGpu :=
  if m.keepsFirst && (g.held m id).isSome then g
  else { g with
    held := Function.update g.held m (Function.update (g.held m) id (some g.next))
    next := g.next+1 }

/-- What `free_resource` destroys on the spot. -/
def destroyedBy (g : HostGpu) (id : ℕ) : List ℕ :=
  (g.held .imported id).toList ++ (g.held .renderTargets id).toList

/-- `free_resource`. Its wait is for a fence already seen signalled (`drawFence_settled`), so
it goes on whatever that wait says. -/
def freeResource (g : HostGpu) (id : ℕ) : HostGpu := { g with
  held := fun m => if m.isFreed then Function.update (g.held m) id none else g.held m
  pendingRecycle := g.pendingRecycle ++ (g.held .resources id).toList
  gone := g.gone ++ g.destroyedBy id }

/-- An image upload waits without bound on a fence of its own, behind everything submitted; but
nothing is submitted, and nothing waited for, without a staging buffer. -/
def applyResource (g : HostGpu) (cmd : ResourceCmd) (allocated : Bool) : HostGpu :=
  match cmd.files with
  | some (m,id,_) => if allocated then g.insert m id else g
  | none =>
      match cmd with
      | .freeResource id => g.freeResource id
      | .createSampler id _ => { g with samplers := Function.update g.samplers id true }
      | .uploadImage id _ =>
          if allocated && (g.held .images id).isSome then { g with inFlight := [] } else g
      | _ => g

def update (g : HostGpu) (cmd : BackendCmd) (allocated : Bool) : HostGpu :=
  match cmd with
  | .resource cmd => g.applyResource cmd allocated
  | .createPipeline id p =>
      if (g.pipelines id).isSome then g
      else { g with pipelines := Function.update g.pipelines id (some p) }
  | _ => g

def await (g : HostGpu) (p : RecordedPass) : WaitingPass :=
  ⟨p,p.target.bind (g.held .renderTargets)⟩

/-- The pass that a command closes, if it is a draw. -/
def closes (g : HostGpu) : BackendCmd → Option WaitingPass
  | .drawAuto count => (g.binds.record (.auto count)).map g.await
  | .drawIndexed id count t =>
      (g.held .resources id).bind fun o => (g.binds.record (.indexed o count t)).map g.await
  | _ => none

def walkCmd (g : HostGpu) (cmd : BackendCmd) (allocated : Bool) : HostGpu :=
  { g.update cmd allocated with
    binds := g.binds.accept g.lookups cmd
    passes := g.passes ++ (g.closes cmd).toList }

/-- What recording a pass puts in the command buffer; a pass whose target is gone is skipped. -/
def recorded (g : HostGpu) (p : WaitingPass) : List ℕ :=
  match p.pass.target with
  | none => p.pass.objects
  | some id =>
      match g.held .renderTargets id with
      | some o => o :: p.pass.objects
      | none => []

/-- A copy of a target that timed out stays in flight; one that did not shows that all is
complete. -/
def copyOut (g : HostGpu) (inFlight : List Submission) (copy : ℕ × CopyFate) : List Submission :=
  match g.held .renderTargets copy.1, copy.2 with
  | some _, .signalled => []
  | some o, .timedOut => inFlight ++ [⟨[o],false⟩]
  | _, _ => inFlight

/-- `record_passes` and the copies after it. When the draws time out, their fence is
dropped. -/
def submit (g : HostGpu) (signalled : Bool) (copies : List CopyFate) : HostGpu :=
  let afterDraws :=
    if signalled then [] else g.inFlight ++ [⟨g.passes.flatMap g.recorded,true⟩]
  { g with
    drawFence := signalled
    inFlight := (g.readbacks.zip copies).foldl g.copyOut afterDraws }

/-- The list ends with its accumulators. -/
def endList (g : HostGpu) : HostGpu :=
  { g with walking := false, binds := .empty, passes := [], readbacks := [] }

def step (g : HostGpu) : DisplayEvent → HostGpu
  | .start => { g with
      walking := true
      pendingRecycle := []
      gone := g.gone ++ g.pendingRecycle }
  | .cmd cmd allocated => g.walkCmd cmd allocated
  | .readbackRenderTarget id => { g with readbacks := g.readbacks ++ [id] }
  | .finish signalled copies =>
      if g.passes = [] then g.endList else (g.submit signalled copies).endList
  | .settle done => { g with inFlight := g.inFlight.filter fun s => !done s }

/-- Lists do not overlap, and their commands come in between. -/
def enabled (g : HostGpu) : DisplayEvent → Bool
  | .start => !g.walking
  | .cmd _ _ | .readbackRenderTarget _ | .finish _ _ => g.walking
  | .settle _ => true

end HostGpu

/-- The states of the display thread, over steps that are all `ok`. -/
inductive DisplayRun (ok : HostGpu → DisplayEvent → Prop) : HostGpu → Prop
  | boot : DisplayRun ok .boot
  | step {g : HostGpu} (e : DisplayEvent) : DisplayRun ok g → g.enabled e → ok g e →
      DisplayRun ok (g.step e)

namespace HostGpu

/-- A pass that waits to be recorded or a submission in flight names the object. -/
def Names (g : HostGpu) (o : ℕ) : Prop :=
  (∃ p ∈ g.passes, o ∈ p.names) ∨ ∃ s ∈ g.inFlight, o ∈ s.names

/-- Nothing destroyed or recycled is still named. -/
def Sound (g : HostGpu) : Prop := ∀ o ∈ g.gone, ¬g.Names o

/-- A target or an import is not freed while it is named; a draw comes before the frees of
what it binds; and a list that cannot be shown complete leaves nothing to recycle that is
named. -/
def Careful (g : HostGpu) : DisplayEvent → Prop
  | .cmd (.resource (.freeResource id)) _ => ∀ o ∈ g.destroyedBy id, ¬g.Names o
  | .cmd cmd _ => (g.closes cmd).isSome → ∀ o ∈ g.binds.objects, o ∉ g.gone
  | .finish signalled _ => g.passes = [] ∨ signalled = false → ∀ o ∈ g.pendingRecycle, ¬g.Names o
  | _ => True

/-- An object is filed once, and what is filed is neither gone nor about to be recycled. -/
structure Filed (g : HostGpu) : Prop where
  held_lt : ∀ {m id o}, g.held m id = some o → o < g.next
  pending_lt : ∀ o ∈ g.pendingRecycle, o < g.next
  gone_lt : ∀ o ∈ g.gone, o < g.next
  once : ∀ {m id m' id' o}, g.held m id = some o → g.held m' id' = some o → m = m' ∧ id = id'
  alive : ∀ {m id o}, g.held m id = some o → o ∉ g.gone ∧ o ∉ g.pendingRecycle

lemma insert_held (g : HostGpu) (m : HostMap) (id : ℕ) {k : HostMap} {x o : ℕ}
    (h : (g.insert m id).held k x = some o) :
    g.held k x = some o ∨ (o = g.next ∧ k = m ∧ x = id ∧ (g.insert m id).next = g.next+1) := by
  unfold insert at h ⊢
  split_ifs at h ⊢ with hkept
  · exact .inl h
  · by_cases hk : k = m
    · subst hk
      by_cases hx : x = id
      · subst hx
        simp only [Function.update_self, Option.some.injEq] at h
        exact .inr ⟨h.symm,rfl,rfl,rfl⟩
      · exact .inl (by simpa [hx] using h)
    · exact .inl (by simpa [hk] using h)

lemma insert_next (g : HostGpu) (m : HostMap) (id : ℕ) : g.next ≤ (g.insert m id).next := by
  unfold insert
  split_ifs <;> simp

@[simp] lemma insert_pendingRecycle (g : HostGpu) (m : HostMap) (id : ℕ) :
    (g.insert m id).pendingRecycle = g.pendingRecycle := by
  unfold insert
  split_ifs <;> rfl

@[simp] lemma insert_gone (g : HostGpu) (m : HostMap) (id : ℕ) :
    (g.insert m id).gone = g.gone := by
  unfold insert
  split_ifs <;> rfl

@[simp] lemma insert_inFlight (g : HostGpu) (m : HostMap) (id : ℕ) :
    (g.insert m id).inFlight = g.inFlight := by
  unfold insert
  split_ifs <;> rfl

namespace Filed

variable {g : HostGpu}

lemma boot : Filed boot where
  held_lt h := by cases h
  pending_lt o h := by cases h
  gone_lt o h := by cases h
  once h := by cases h
  alive h := by cases h

lemma insert (h : g.Filed) (m : HostMap) (id : ℕ) : (g.insert m id).Filed where
  held_lt hheld := by
    rcases insert_held g m id hheld with hold | ⟨rfl,-,-,hnext⟩
    · exact (h.held_lt hold).trans_le (insert_next g m id)
    · omega
  pending_lt o ho := (h.pending_lt o (by simpa using ho)).trans_le (insert_next g m id)
  gone_lt o ho := (h.gone_lt o (by simpa using ho)).trans_le (insert_next g m id)
  once hheld hheld' := by
    rcases insert_held g m id hheld with hold | ⟨rfl,rfl,rfl,-⟩ <;>
      rcases insert_held g _ _ hheld' with hold' | ⟨heq,rfl,rfl,-⟩
    · exact h.once hold hold'
    · exact absurd (h.held_lt hold) (by omega)
    · exact absurd (h.held_lt hold') (lt_irrefl _)
    · exact ⟨rfl,rfl⟩
  alive hheld := by
    rw [insert_gone, insert_pendingRecycle]
    rcases insert_held g m id hheld with hold | ⟨rfl,-,-,-⟩
    · exact h.alive hold
    · exact ⟨fun hgone => lt_irrefl _ (h.gone_lt _ hgone),
        fun hpending => lt_irrefl _ (h.pending_lt _ hpending)⟩

lemma destroyedBy_held {id o : ℕ} (ho : o ∈ g.destroyedBy id) :
    ∃ m, m.isFreed ∧ m ≠ .resources ∧ g.held m id = some o := by
  simp only [destroyedBy, List.mem_append, Option.mem_toList] at ho
  rcases ho with ho | ho
  · exact ⟨.imported,rfl,by decide,ho⟩
  · exact ⟨.renderTargets,rfl,by decide,ho⟩

lemma freeResource_held {id x o : ℕ} {k : HostMap} (ho : (g.freeResource id).held k x = some o) :
    g.held k x = some o ∧ ¬(k.isFreed ∧ x = id) := by
  simp only [HostGpu.freeResource] at ho
  split_ifs at ho with hk
  · by_cases hx : x = id
    · simp [hx] at ho
    · exact ⟨by simpa [hx] using ho,fun hne => hx hne.2⟩
  · exact ⟨ho,fun hne => hk hne.1⟩

lemma freeResource (h : g.Filed) (id : ℕ) : (g.freeResource id).Filed where
  held_lt hheld := h.held_lt (freeResource_held hheld).1
  pending_lt o ho := by
    rcases List.mem_append.mp ho with hold | hnew
    · exact h.pending_lt o hold
    · exact h.held_lt (Option.mem_toList.mp hnew)
  gone_lt o ho := by
    rcases List.mem_append.mp ho with hold | hnew
    · exact h.gone_lt o hold
    · obtain ⟨m,-,-,hheld⟩ := destroyedBy_held hnew
      exact h.held_lt hheld
  once hheld hheld' := h.once (freeResource_held hheld).1 (freeResource_held hheld').1
  alive hheld := by
    obtain ⟨hold,hkept⟩ := freeResource_held hheld
    obtain ⟨hgone,hpending⟩ := h.alive hold
    refine ⟨fun hmem => ?_,fun hmem => ?_⟩
    · rcases List.mem_append.mp hmem with hmem | hnew
      · exact hgone hmem
      · obtain ⟨m,hfreed,-,hheld'⟩ := destroyedBy_held hnew
        obtain ⟨rfl,rfl⟩ := h.once hold hheld'
        exact hkept ⟨hfreed,rfl⟩
    · rcases List.mem_append.mp hmem with hmem | hnew
      · exact hpending hmem
      · obtain ⟨rfl,rfl⟩ := h.once hold (Option.mem_toList.mp hnew)
        exact hkept ⟨rfl,rfl⟩

/-- Filing looks at the maps, the objects handed out, freed and gone only. -/
lemma congr {g' : HostGpu} (h : g.Filed) (hheld : g'.held = g.held) (hnext : g'.next = g.next)
    (hpending : g'.pendingRecycle = g.pendingRecycle) (hgone : g'.gone = g.gone) : g'.Filed where
  held_lt ho := hnext ▸ h.held_lt (hheld ▸ ho)
  pending_lt := by simpa only [hpending, hnext] using h.pending_lt
  gone_lt := by simpa only [hgone, hnext] using h.gone_lt
  once ho ho' := h.once (hheld ▸ ho) (hheld ▸ ho')
  alive ho := by
    rw [hgone, hpending]
    exact h.alive (hheld ▸ ho)

lemma update (h : g.Filed) (cmd : BackendCmd) (allocated : Bool) :
    (g.update cmd allocated).Filed := by
  cases cmd with
  | resource cmd =>
    simp only [HostGpu.update, applyResource]
    cases cmd.files with
    | some f =>
      simp only
      split_ifs
      · exact h.insert f.1 f.2.1
      · exact h
    | none =>
      cases cmd with
      | freeResource id => exact h.freeResource id
      | createSampler => exact h.congr rfl rfl rfl rfl
      | uploadImage =>
        simp only
        split_ifs
        · exact h.congr rfl rfl rfl rfl
        · exact h
      | _ => exact h
  | createPipeline id p =>
    simp only [HostGpu.update]
    split_ifs
    · exact h
    · exact h.congr rfl rfl rfl rfl
  | _ => exact h

lemma start (h : g.Filed) : (g.step .start).Filed where
  held_lt := h.held_lt
  pending_lt o ho := by cases ho
  gone_lt o ho := by
    rcases List.mem_append.mp ho with hold | hnew
    · exact h.gone_lt o hold
    · exact h.pending_lt o hnew
  once := h.once
  alive hheld := by
    obtain ⟨hgone,hpending⟩ := h.alive hheld
    exact ⟨by simp [step, hgone, hpending],by simp [step]⟩

end Filed

/-- A pass holds what was bound for it, an index buffer and a target. -/
lemma closes_names {g : HostGpu} {cmd : BackendCmd} {p : WaitingPass} {o : ℕ}
    (hcloses : g.closes cmd = some p) (ho : o ∈ p.names) :
    o ∈ g.binds.objects ∨ ∃ m id, g.held m id = some o := by
  have hrecord : ∀ {draw q}, g.binds.record draw = some q →
      q.objects = g.binds.objects ++ draw.objects := by
    intro draw q hq
    simp only [Binds.record] at hq
    split at hq
    · cases hq
    · split_ifs at hq
      cases hq
      rfl
  have hawait : ∀ {draw q}, g.binds.record draw = some q → o ∈ (g.await q).names →
      o ∈ g.binds.objects ∨ o ∈ draw.objects ∨ ∃ m id, g.held m id = some o := by
    intro draw q hq hmem
    simp only [WaitingPass.names, await, List.mem_append, hrecord hq, Option.mem_toList] at hmem
    rcases hmem with (hbound | hindex) | htarget
    · exact .inl hbound
    · exact .inr (.inl hindex)
    · obtain ⟨id,-,hheld⟩ := Option.bind_eq_some_iff.mp htarget
      exact .inr (.inr ⟨_,id,hheld⟩)
  cases cmd with
  | drawAuto count =>
    obtain ⟨q,hq,rfl⟩ := Option.map_eq_some_iff.mp hcloses
    rcases hawait hq ho with hbound | hindex | hheld
    · exact .inl hbound
    · cases hindex
    · exact .inr hheld
  | drawIndexed id count t =>
    obtain ⟨b,hb,hcloses⟩ := Option.bind_eq_some_iff.mp hcloses
    obtain ⟨q,hq,rfl⟩ := Option.map_eq_some_iff.mp hcloses
    rcases hawait hq ho with hbound | hindex | hheld
    · exact .inl hbound
    · obtain rfl := List.mem_singleton.mp hindex
      exact .inr ⟨_,id,hb⟩
    · exact .inr hheld
  | _ => cases hcloses

/-- The maps' commands leave the phase and the fence, an upload may settle what is in flight, and
only a free makes anything go. -/
lemma update_frame (g : HostGpu) (cmd : BackendCmd) (allocated : Bool) :
    (g.update cmd allocated).walking = g.walking ∧
    (g.update cmd allocated).drawFence = g.drawFence ∧
    ((g.update cmd allocated).inFlight = g.inFlight ∨ (g.update cmd allocated).inFlight = []) ∧
    ((∀ id, cmd ≠ .resource (.freeResource id)) → (g.update cmd allocated).gone = g.gone) := by
  cases cmd with
  | resource cmd =>
    simp only [update, applyResource]
    cases cmd.files with
    | some f =>
      simp only [insert]
      split_ifs <;> simp
    | none =>
      cases cmd with
      | freeResource id => exact ⟨rfl,rfl,.inl rfl,fun hcmd => absurd rfl (hcmd id)⟩
      | uploadImage =>
        simp only
        split_ifs <;> simp
      | _ => exact ⟨rfl,rfl,.inl rfl,fun _ => rfl⟩
  | createPipeline id p =>
    simp only [update]
    split_ifs <;> simp
  | _ => exact ⟨rfl,rfl,.inl rfl,fun _ => rfl⟩

/-- What a command of a list newly names. -/
lemma walkCmd_names {g : HostGpu} {cmd : BackendCmd} {allocated : Bool} {o : ℕ}
    (h : (g.walkCmd cmd allocated).Names o) :
    g.Names o ∨ ∃ p, g.closes cmd = some p ∧ o ∈ p.names := by
  rcases h with ⟨p,hp,ho⟩ | ⟨s,hs,ho⟩
  · rcases List.mem_append.mp hp with hp | hp
    · exact .inl (.inl ⟨p,hp,ho⟩)
    · exact .inr ⟨p,Option.mem_toList.mp hp,ho⟩
  · rcases (update_frame g cmd allocated).2.2.1 with heq | heq
    · exact .inl (.inr ⟨s,heq ▸ hs,ho⟩)
    · rw [show (g.walkCmd cmd allocated).inFlight = [] from heq] at hs
      cases hs

lemma Sound.walkCmd {g : HostGpu} (h : g.Sound) (hfiled : g.Filed) {cmd : BackendCmd}
    {allocated : Bool} (hok : g.Careful (.cmd cmd allocated)) :
    (g.walkCmd cmd allocated).Sound := by
  intro o ho hnames
  by_cases hcmd : ∃ id, cmd = .resource (.freeResource id)
  · obtain ⟨id,rfl⟩ := hcmd
    have hold : g.Names o := by
      rcases walkCmd_names hnames with hold | ⟨p,hp,-⟩
      · exact hold
      · cases hp
    rcases List.mem_append.mp ho with hgone | hnew
    · exact h o hgone hold
    · exact hok o hnew hold
  · have hne : ∀ id, cmd ≠ .resource (.freeResource id) := fun id heq => hcmd ⟨id,heq⟩
    have hgone : o ∈ g.gone := (update_frame g cmd allocated).2.2.2 hne ▸ ho
    rcases walkCmd_names hnames with hold | ⟨p,hp,hmem⟩
    · exact h o hgone hold
    · rcases closes_names hp hmem with hbound | ⟨m,id,hheld⟩
      · have hbinds : (g.closes cmd).isSome → ∀ o ∈ g.binds.objects, o ∉ g.gone := by
          cases cmd with
          | drawAuto | drawIndexed => exact hok
          | _ => cases hp
        exact hbinds (by simp [hp]) o hbound hgone
      · exact (hfiled.alive hheld).1 hgone

lemma recorded_names {g : HostGpu} {p : WaitingPass} {o : ℕ} (ho : o ∈ g.recorded p) :
    o ∈ p.names ∨ ∃ m id, g.held m id = some o := by
  unfold recorded at ho
  split at ho
  · exact .inl (List.mem_append_left _ ho)
  · split at ho
    next ht =>
      rcases List.mem_cons.mp ho with rfl | ho
      · exact .inr ⟨_,_,ht⟩
      · exact .inl (List.mem_append_left _ ho)
    next => cases ho

lemma copyOut_names {g : HostGpu} {copies : List (ℕ × CopyFate)} {inFlight : List Submission}
    {s : Submission} (hs : s ∈ copies.foldl g.copyOut inFlight) :
    s ∈ inFlight ∨ (s.isDraw = false ∧ ∀ o ∈ s.names, ∃ m id, g.held m id = some o) := by
  induction copies generalizing inFlight with
  | nil => exact .inl hs
  | cons copy copies ih =>
    rcases ih hs with hmem | hcopy
    · unfold copyOut at hmem
      split at hmem
      · cases hmem
      next o _ ho _ =>
        rcases List.mem_append.mp hmem with hmem | hnew
        · exact .inl hmem
        · obtain rfl := List.mem_singleton.mp hnew
          refine .inr ⟨rfl,fun x hx => ?_⟩
          obtain rfl := List.mem_singleton.mp hx
          exact ⟨_,_,ho⟩
      · exact .inl hmem
    · exact .inr hcopy

/-- After a submission only what has not been shown complete, or is still held, is named. -/
lemma submit_names {g : HostGpu} {signalled : Bool} {copies : List CopyFate} {o : ℕ}
    (h : (g.submit signalled copies).endList.Names o) :
    (signalled = false ∧ g.Names o) ∨ ∃ m id, g.held m id = some o := by
  rcases h with ⟨p,hp,-⟩ | ⟨s,hs,ho⟩
  · cases hp
  rcases copyOut_names hs with hmem | ⟨-,hheld⟩
  · cases signalled with
    | true => cases hmem
    | false =>
      rcases List.mem_append.mp hmem with hold | hnew
      · exact .inl ⟨rfl,.inr ⟨s,hold,ho⟩⟩
      · obtain rfl := List.mem_singleton.mp hnew
        obtain ⟨p,hp,hrec⟩ := List.mem_flatMap.mp ho
        rcases recorded_names hrec with hmem | hheld
        · exact .inl ⟨rfl,.inl ⟨p,hp,hmem⟩⟩
        · exact .inr hheld
  · exact .inr (hheld o ho)

/-- Between two lists no pass waits, and nothing that will be recycled is named. -/
structure Kept (g : HostGpu) : Prop where
  filed : g.Filed
  sound : g.Sound
  resting : g.walking = false → g.passes = []
  unnamed : g.walking = false → ∀ o ∈ g.pendingRecycle, ¬g.Names o

namespace Kept

variable {g : HostGpu}

lemma boot : Kept boot where
  filed := .boot
  sound o ho := by cases ho
  resting _ := rfl
  unnamed _ o ho := by cases ho

lemma start (h : g.Kept) (hidle : g.walking = false) : (g.step .start).Kept where
  filed := h.filed.start
  sound o ho hnames := by
    have hold : g.Names o := hnames
    rcases List.mem_append.mp ho with hgone | hpending
    · exact h.sound o hgone hold
    · exact h.unnamed hidle o hpending hold
  resting hwalking := by cases hwalking
  unnamed hwalking := by cases hwalking

lemma walkCmd (h : g.Kept) (hwalking : g.walking) {cmd : BackendCmd} {allocated : Bool}
    (hok : g.Careful (.cmd cmd allocated)) : (g.walkCmd cmd allocated).Kept := by
  have hstill : (g.walkCmd cmd allocated).walking = true :=
    (update_frame g cmd allocated).1.trans hwalking
  refine ⟨(h.filed.update cmd allocated).congr rfl rfl rfl rfl,h.sound.walkCmd h.filed hok,?_,?_⟩ <;>
  · intro hidle
    rw [hstill] at hidle
    cases hidle

lemma finish (h : g.Kept) {signalled : Bool} {copies : List CopyFate}
    (hok : g.Careful (.finish signalled copies)) : (g.step (.finish signalled copies)).Kept := by
  simp only [step]
  split_ifs with hpasses
  · refine ⟨h.filed.congr rfl rfl rfl rfl,?_,fun _ => rfl,?_⟩
    · rintro o ho (⟨p,hp,-⟩ | hflying)
      · cases hp
      · exact h.sound o ho (.inr hflying)
    · rintro - o ho (⟨p,hp,-⟩ | hflying)
      · cases hp
      · exact hok (.inl hpasses) o ho (.inr hflying)
  · refine ⟨h.filed.congr rfl rfl rfl rfl,fun o ho hnames => ?_,fun _ => rfl,fun _ o ho hnames => ?_⟩
    · rcases submit_names hnames with ⟨-,hold⟩ | ⟨m,id,hheld⟩
      · exact h.sound o ho hold
      · exact (h.filed.alive hheld).1 ho
    · rcases submit_names hnames with ⟨hlate,hold⟩ | ⟨m,id,hheld⟩
      · exact hok (.inr hlate) o ho hold
      · exact (h.filed.alive hheld).2 ho

lemma settle (h : g.Kept) (done : Submission → Bool) : (g.step (.settle done)).Kept := by
  have hfewer : ∀ o, (g.step (.settle done)).Names o → g.Names o := by
    rintro o (hpass | ⟨s,hs,ho⟩)
    · exact .inl hpass
    · exact .inr ⟨s,List.mem_of_mem_filter hs,ho⟩
  exact ⟨h.filed.congr rfl rfl rfl rfl,fun o ho hnames => h.sound o ho (hfewer o hnames),
    h.resting,fun hidle o ho hnames => h.unnamed hidle o ho (hfewer o hnames)⟩

lemma step (h : g.Kept) {e : DisplayEvent} (henabled : g.enabled e) (hok : g.Careful e) :
    (g.step e).Kept := by
  cases e with
  | start => exact h.start (by simpa [enabled] using henabled)
  | cmd cmd allocated => exact h.walkCmd henabled hok
  | readbackRenderTarget id =>
    exact ⟨h.filed.congr rfl rfl rfl rfl,h.sound,h.resting,h.unnamed⟩
  | finish signalled copies => exact h.finish hok
  | settle done => exact h.settle done

end Kept

end HostGpu

namespace DisplayRun

open HostGpu

lemma kept {g : HostGpu} (h : DisplayRun Careful g) : g.Kept := by
  induction h with
  | boot => exact .boot
  | step e _ henabled hok ih => exact ih.step henabled hok

/-- With careful lists nothing is destroyed or recycled while it is named. -/
theorem careful_sound {g : HostGpu} (h : DisplayRun Careful g) : g.Sound := h.kept.sound

/-- The fence that a free waits for guards no draws that are still in flight. -/
theorem drawFence_settled {ok : HostGpu → DisplayEvent → Prop} {g : HostGpu}
    (h : DisplayRun ok g) (hfence : g.drawFence) : ∀ s ∈ g.inFlight, s.isDraw = false := by
  induction h with
  | boot => cases hfence
  | @step g e _ _ _ ih =>
    cases e with
    | start => exact ih hfence
    | cmd cmd allocated =>
      obtain ⟨-,hkept,hflying,-⟩ := update_frame g cmd allocated
      intro s hs
      rcases hflying with heq | heq
      · exact ih (hkept ▸ hfence) s (heq ▸ hs)
      · rw [show (g.step (.cmd cmd allocated)).inFlight = [] from heq] at hs
        cases hs
    | readbackRenderTarget id => exact ih hfence
    | finish signalled copies =>
      simp only [HostGpu.step] at hfence ⊢
      split_ifs at hfence ⊢
      · exact ih hfence
      · intro s hs
        have hsignalled : signalled = true := hfence
        subst hsignalled
        rcases copyOut_names hs with hmem | ⟨hcopy,-⟩
        · cases hmem
        · exact hcopy
    | settle done => exact fun s hs => ih hfence s (List.mem_of_mem_filter hs)

end DisplayRun

namespace HostGpu

def run (g : HostGpu) (es : List DisplayEvent) : HostGpu := es.foldl step g

/-- Every event of the list comes in its phase. -/
def admits (g : HostGpu) : List DisplayEvent → Bool
  | [] => true
  | e :: es => g.enabled e && (g.step e).admits es

lemma run_displayRun {g : HostGpu} (h : DisplayRun (fun _ _ => True) g) {es : List DisplayEvent}
    (hadmits : g.admits es) : DisplayRun (fun _ _ => True) (g.run es) := by
  induction es generalizing g with
  | nil => exact h
  | cons e es ih =>
    simp only [admits, Bool.and_eq_true] at hadmits
    exact ih (h.step e hadmits.1 trivial) hadmits.2

/-- A pipeline of one texture binding. -/
def texturedPipeline : HostPipeline where
  vsSpirv := []
  psSpirv := []
  key := ⟨0,0,⟨.r8g8b8a8Unorm,false,0,0,false,0,.triangleList⟩,none,none,none,none,[]⟩
  vertexStorage := []
  pushConstants := none
  textures := [⟨0,0⟩]
  constStorage := none
  constStorageFragment := none

/-- A draw samples a target that its list frees after it. -/
def sampledThenFreed : List DisplayEvent :=
  [.start,.cmd (.resource (.createRenderTarget 1 1 1 .r8g8b8a8Unorm)) true,
    .cmd (.resource (.createSampler 2 ⟨.linear,.linear,.clampToEdge,.clampToEdge⟩)) true,
    .cmd (.createPipeline 0 texturedPipeline) true,.cmd (.bindPipeline 0) true,
    .cmd (.bindTexture ⟨0,0⟩ 1 2) true,.cmd (.drawAuto 3) true,
    .cmd (.resource (.freeResource 1)) true]

/-- The draws of a list time out; the next list frees their vertices, the one after recycles
them. -/
def freedWhilePending : List DisplayEvent :=
  [.start,.cmd (.resource (.createBuffer 1 4)) true,
    .cmd (.createPipeline 0 { texturedPipeline with textures := [] }) true,
    .cmd (.bindPipeline 0) true,.cmd (.bindVertexBuffer 0 1 4) true,.cmd (.drawAuto 3) true,
    .finish false [],.start,.cmd (.resource (.freeResource 1)) true,.finish true [],.start]

/-- A view is destroyed under a pass, and a buffer is recycled under a pending submission. -/
theorem not_sound_freed :
    (DisplayRun (fun _ _ => True) (boot.run sampledThenFreed) ∧
      ¬(boot.run sampledThenFreed).Sound) ∧
    DisplayRun (fun _ _ => True) (boot.run freedWhilePending) ∧
      ¬(boot.run freedWhilePending).Sound := by
  refine ⟨⟨run_displayRun .boot rfl,fun hsound => ?_⟩,run_displayRun .boot rfl,fun hsound => ?_⟩
  · exact hsound 0 List.mem_cons_self (.inl ⟨_,List.mem_cons_self,List.mem_cons_self⟩)
  · exact hsound 0 List.mem_cons_self (.inr ⟨_,List.mem_cons_self,List.mem_cons_self⟩)

/-- The vertices of a draw seen complete are freed by the next list, recycled by the one
after. -/
theorem careful_sound_recycled : ∃ g, DisplayRun Careful g ∧ g.gone = [0] ∧ g.Sound := by
  have h₀ : DisplayRun Careful boot := .boot
  have h₁ := ((((h₀.step .start rfl trivial).step
    (.cmd (.resource (.createBuffer 1 4)) true) rfl nofun).step
    (.cmd (.createPipeline 0 { texturedPipeline with textures := [] }) true) rfl nofun).step
    (.cmd (.bindPipeline 0) true) rfl nofun).step (.cmd (.bindVertexBuffer 0 1 4) true) rfl nofun
  have h₂ := (h₁.step (.cmd (.drawAuto 3) true) rfl fun _ _ _ => List.not_mem_nil).step
    (.finish true []) rfl fun _ _ hpending => absurd hpending List.not_mem_nil
  have h₃ := (h₂.step .start rfl trivial).step (.cmd (.resource (.freeResource 1)) true) rfl nofun
  have h₄ := h₃.step (.finish true []) rfl (by
    rintro - o - (⟨p,hp,-⟩ | ⟨s,hs,-⟩)
    · exact absurd hp List.not_mem_nil
    · exact absurd hs List.not_mem_nil)
  have h₅ := h₄.step .start rfl trivial
  exact ⟨_,h₅,rfl,h₅.careful_sound⟩

end HostGpu

end Unemups4.Gnm

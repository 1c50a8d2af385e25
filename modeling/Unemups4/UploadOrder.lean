import Unemups4.DisplaySync

/-! Uploads act while the list is walked, the draws only after it: a draw reads what the
whole list leaves in a buffer, not what the list before it did. -/
namespace Unemups4.Gnm
open Gcn Fallible ShaderBinary

/-- The bytes that a command uploads to an id. -/
def ResourceCmd.uploads (id : ℕ) : ResourceCmd → Option Bytes
  | .uploadBuffer x _ data | .uploadImage x data => if x = id then some data else none
  | _ => none

def lastUpload (id : ℕ) : List ResourceCmd → Option Bytes
  | [] => none
  | cmd :: cmds => lastUpload id cmds <|> cmd.uploads id

namespace Display

variable {d : Display} {id : ℕ}

/-- Nothing held is ever lost before the next list. -/
lemma held_apply (d : Display) (cmd : ResourceCmd) (h : (d.held id).isSome) :
    ((d.apply cmd).held id).isSome := by
  by_cases hid : cmd.event.id = id
  · cases cmd with
    | freeResource x =>
      obtain rfl : x = id := hid
      simpa [apply, held, Backend.apply] using h
    | uploadBuffer x offset data | uploadImage x data =>
      obtain rfl : x = id := hid
      cases hlive : d.live x <;> simp_all [apply, held, Backend.apply]
    | _ =>
      subst hid
      simp [apply, held, Backend.apply, ResourceCmd.event, Lifetime.Event.id]
  · rw [d.held_apply_of_ne hid]
    exact h

/-- An upload leaves just its bytes. -/
lemma shows_upload {cmd : ResourceCmd} {data : Bytes} (hw : cmd.Whole d.live)
    (hup : cmd.uploads id = some data) :
    ((d.apply cmd).held id).isSome ∧ (d.apply cmd).shows id = some data := by
  have hmap : ∀ {offset data}, ((d.live id).map (Copy.upload offset data)).bind Copy.data = some data →
      ∃ copy, d.live id = some copy ∧ (copy.upload offset data).data = some data := by
    intro offset data h
    obtain ⟨x,hx,hdata⟩ := Option.bind_eq_some_iff.mp h
    obtain ⟨copy,hcopy,rfl⟩ := Option.map_eq_some_iff.mp hx
    exact ⟨copy,hcopy,hdata⟩
  cases cmd with
  | uploadBuffer x offset bytes | uploadImage x bytes =>
    simp only [ResourceCmd.uploads, Option.ite_none_right_eq_some, Option.some.injEq] at hup
    obtain ⟨rfl,rfl⟩ := hup
    obtain ⟨copy,hlive,hdata⟩ := hmap hw
    simp [shows, held, apply, Backend.apply, hlive, hdata]
  | _ => simp [ResourceCmd.uploads] at hup

/-- Any other command leaves what a held id shows. -/
lemma shows_of_not_upload {cmd : ResourceCmd} (hcreate : ∀ x, cmd.event = .create x → d.held x = none)
    (hup : cmd.uploads id = none) (h : (d.held id).isSome) : (d.apply cmd).shows id = d.shows id := by
  by_cases hid : cmd.event.id = id
  · cases cmd with
    | freeResource x =>
      obtain rfl : x = id := hid
      simp [shows, apply, held, Backend.apply]
    | uploadBuffer x offset data | uploadImage x data =>
      obtain rfl : x = id := hid
      simp [ResourceCmd.uploads] at hup
    | _ =>
      obtain rfl := hid
      simp [hcreate _ rfl, ResourceCmd.event, Lifetime.Event.id] at h
  · rw [shows, shows, d.held_apply_of_ne hid]

lemma shows_applyAll {cmds : List ResourceCmd} (hw : d.Whole cmds) (h : (d.held id).isSome) :
    (d.applyAll cmds).shows id = (lastUpload id cmds <|> d.shows id) := by
  induction cmds generalizing d with
  | nil => rfl
  | cons cmd cmds ih =>
    have hrest := ih hw.2 (d.held_apply cmd h)
    rw [applyAll, List.foldl_cons, ← applyAll, hrest, lastUpload]
    cases hlast : lastUpload id cmds with
    | some data => rfl
    | none =>
      cases hup : cmd.uploads id with
      | some data => simpa using (shows_upload hw.1.1 hup).2
      | none => simpa using shows_of_not_upload hw.1.2 hup h

/-- The last upload is what is held, also of an id that the list creates. -/
lemma shows_of_lastUpload {cmds : List ResourceCmd} {data : Bytes} (hw : d.Whole cmds)
    (h : lastUpload id cmds = some data) : (d.applyAll cmds).shows id = some data := by
  induction cmds generalizing d with
  | nil => cases h
  | cons cmd cmds ih =>
    rw [applyAll, List.foldl_cons, ← applyAll]
    cases hlast : lastUpload id cmds with
    | some x =>
      have heq : x = data := by simpa [lastUpload, hlast] using h
      exact ih hw.2 (heq ▸ hlast)
    | none =>
      have hup : cmd.uploads id = some data := by simpa [lastUpload, hlast] using h
      obtain ⟨hheld,hshows⟩ := shows_upload hw.1.1 hup
      rw [shows_applyAll hw.2 hheld, hlast]
      simpa using hshows

end Display

def Binds.reads (b : Binds) : List ℕ :=
  b.vertexBuffers.map (·.buffer) ++ b.storageBinds.map (·.buffer) ++ b.constBinds.map (·.buffer) ++
    b.textureBinds.map (·.image)

def DrawCall.reads : DrawCall → List ℕ
  | .auto _ => []
  | .indexed buffer _ _ => [buffer]

lemma Binds.record_reads {b : Binds} {draw : DrawCall} {pass : RecordedPass}
    (h : b.record draw = some pass) : pass.reads = b.reads ++ draw.reads := by
  unfold Binds.record at h
  split at h
  · cases h
  · split_ifs at h
    cases h
    cases draw <;> rfl

lemma Binds.bindTexture_reads {b : Binds} {t : TextureBind} {id : ℕ}
    (h : id ∈ (b.bindTexture t).reads) : id ∈ b.reads ∨ id = t.image := by
  have himage : ∀ x ∈ (b.bindTexture t).textureBinds, x ∈ b.textureBinds ∨ x = t := by
    intro x hx
    simp only [Binds.bindTexture] at hx
    split_ifs at hx
    · obtain ⟨y,hy,heq⟩ := List.mem_map.mp hx
      split_ifs at heq <;> subst heq <;> simp [hy]
    · simpa using hx
  simp only [Binds.reads, List.mem_append] at h ⊢
  rcases h with h | h
  · exact .inl (.inl h)
  · obtain ⟨x,hx,rfl⟩ := List.mem_map.mp h
    rcases himage x hx with hold | rfl
    · exact .inl (.inr (List.mem_map_of_mem hold))
    · exact .inr rfl

namespace Replay

variable {r : Replay} {id : ℕ}

lemma isBuffer_held {d : Display} (h : d.isBuffer id) : (d.held id).isSome := by
  cases hlive : d.live id with
  | none => simp [Display.isBuffer, hlive] at h
  | some copy => simp [Display.held, hlive]

lemma isSampled_held {d : Display} (h : d.isSampled id) : (d.held id).isSome := by
  cases hheld : d.held id with
  | none => simp [Display.isSampled, hheld] at h
  | some copy => rfl

/-- What a command adds to the binds is held by the display. -/
lemma bind_reads {d : Display} {b : Binds} {cmd : BackendCmd} (h : id ∈ (bind d b cmd).reads) :
    id ∈ b.reads ∨ (d.held id).isSome := by
  cases cmd with
  | bindVertexBuffer slot x stride
  | bindConstBuffer slot x
  | bindStorageBuffer slot x numRecords stride dstSel format pcOffset =>
    simp only [bind_vertexBuffer, bind_storageBuffer, bind_constBuffer] at h
    split_ifs at h with hbuf
    · have hcases : id ∈ b.reads ∨ id = x := by
        simp only [Binds.reads, List.map_append, List.mem_append, List.map_cons, List.map_nil,
          List.mem_singleton] at h ⊢
        tauto
      rcases hcases with hold | rfl
      · exact .inl hold
      · exact .inr (isBuffer_held hbuf)
    · exact .inl h
  | bindTexture slot imageId samplerId =>
    rw [bind_texture] at h
    split_ifs at h with hboth
    · rcases Binds.bindTexture_reads h with hold | rfl
      · exact .inl hold
      · exact .inr (isSampled_held (Bool.and_eq_true_iff.mp hboth).1)
    · exact .inl h
  | drawAuto count | drawIndexed x count t => simp [bind, Binds.accept, Binds.clear, Binds.empty, Binds.reads] at h
  | _ => exact .inl h

lemma held_update {d : Display} (cmd : BackendCmd) (h : (d.held id).isSome) :
    ((update d cmd).held id).isSome := by
  cases cmd with
  | resource c => exact d.held_apply c h
  | createPipeline x p =>
    simp only [update]
    split_ifs <;> exact h
  | _ => exact h

/-- Everything bound is held. -/
def BindsHeld (r : Replay) : Prop := ∀ id ∈ r.binds.reads, (r.display.held id).isSome

lemma BindsHeld.step (h : r.BindsHeld) (cmd : BackendCmd) : (r.step cmd).BindsHeld := by
  intro id hid
  apply held_update
  rcases bind_reads hid with hold | hheld
  · exact h id hold
  · exact hheld

lemma BindsHeld.run (h : r.BindsHeld) (cmds : List BackendCmd) : (r.run cmds).BindsHeld := by
  induction cmds generalizing r with
  | nil => exact h
  | cons cmd cmds ih => exact ih (h.step cmd)

lemma bindsHeld_start (d : Display) : (start d).BindsHeld := by
  intro id hid
  simp [start, Binds.empty, Binds.reads] at hid

lemma BindsHeld.closes (h : r.BindsHeld) {cmd : BackendCmd} {pass : RecordedPass}
    (hpass : r.closes cmd = some pass) (hid : id ∈ pass.reads) : (r.display.held id).isSome := by
  cases cmd with
  | drawAuto count =>
    rw [Binds.record_reads hpass] at hid
    exact h id (by simpa [DrawCall.reads] using hid)
  | drawIndexed x count t =>
    simp only [Replay.closes] at hpass
    split_ifs at hpass with hbuf
    rw [Binds.record_reads hpass] at hid
    rcases List.mem_append.mp hid with hbound | hindex
    · exact h id hbound
    · obtain rfl := List.mem_singleton.mp hindex
      exact isBuffer_held hbuf
  | _ => cases hpass

/-- Every recorded draw reads what is held. -/
def PassesHeld (r : Replay) : Prop :=
  ∀ pass ∈ r.passes, ∀ id ∈ pass.reads, (r.display.held id).isSome

lemma PassesHeld.run (h : r.PassesHeld) (hbinds : r.BindsHeld) (cmds : List BackendCmd) :
    (r.run cmds).PassesHeld := by
  induction cmds generalizing r with
  | nil => exact h
  | cons cmd cmds ih =>
    refine ih ?_ (hbinds.step cmd)
    intro pass hpass id hid
    apply held_update
    rcases List.mem_append.mp hpass with hold | hnew
    · exact h pass hold id hid
    · exact hbinds.closes (Option.mem_toList.mp hnew) hid

lemma passesHeld_replay (d : Display) (cmds : List BackendCmd) : (replayCommandList d cmds).PassesHeld :=
  PassesHeld.run (r := start d) (fun _ h => absurd h List.not_mem_nil) (bindsHeld_start d) cmds

lemma passes_run (r : Replay) (cmds : List BackendCmd) {pass : RecordedPass} (h : pass ∈ r.passes) :
    pass ∈ (r.run cmds).passes := by
  induction cmds generalizing r with
  | nil => exact h
  | cons cmd cmds ih => exact ih _ (List.mem_append_left _ h)

lemma closes_isDraw {cmd : BackendCmd} {pass : RecordedPass} (h : r.closes cmd = some pass) :
    ∀ c, cmd ≠ .resource c := by
  rintro c rfl
  cases h

lemma shows_run (r : Replay) (cmds : List BackendCmd) (id : ℕ) :
    (r.run cmds).display.shows id = (r.display.applyAll (resourceCmds cmds)).shows id := by
  obtain ⟨hlive,hretired⟩ := run_held r cmds
  simp only [Display.shows, Display.held, hlive, hretired]

end Replay

/-- What the list gave an id before a draw: its last upload, or else what the display
held by then. -/
def givenBefore (d : Display) (pre : List BackendCmd) (id : ℕ) : Option Bytes :=
  match lastUpload id (resourceCmds pre) with
  | some data => some data
  | none => (replayCommandList d pre).display.shows id

/-- Every draw reads what the list gave before it. -/
def ReadsInOrder (d : Display) (cmds : List BackendCmd) : Prop :=
  ∀ pre cmd post pass, cmds = pre ++ cmd :: post → (replayCommandList d pre).closes cmd = some pass →
    ∀ id ∈ pass.reads, (replayCommandList d cmds).display.shows id = givenBefore d pre id

lemma Display.Whole.split {d : Display} {as bs : List ResourceCmd} (h : d.Whole (as ++ bs)) :
    d.Whole as ∧ (d.applyAll as).Whole bs := by
  induction as generalizing d with
  | nil => exact ⟨trivial,h⟩
  | cons a as ih =>
    obtain ⟨has,hbs⟩ := ih h.2
    exact ⟨⟨h.1,has⟩,hbs⟩

lemma givenBefore_eq {d : Display} {pre : List BackendCmd} (hw : d.Whole (resourceCmds pre)) (id : ℕ) :
    givenBefore d pre id = (d.applyAll (resourceCmds pre)).shows id := by
  unfold givenBefore
  split
  · next data hlast => exact (Display.shows_of_lastUpload hw hlast).symm
  · exact (Replay.start d).shows_run pre id

/-- The uploads after a draw decide what it reads. -/
lemma shows_after_draw {d : Display} {pre post : List BackendCmd} {cmd : BackendCmd}
    {pass : RecordedPass} (hw : d.Whole (resourceCmds (pre ++ cmd :: post)))
    (hpass : (replayCommandList d pre).closes cmd = some pass) {id : ℕ} (hid : id ∈ pass.reads) :
    (replayCommandList d (pre ++ cmd :: post)).display.shows id =
      (lastUpload id (resourceCmds post) <|> givenBefore d pre id) := by
  have hheld : ((d.applyAll (resourceCmds pre)).held id).isSome := by
    have h := ((Replay.bindsHeld_start d).run pre).closes hpass hid
    obtain ⟨hlive,hretired⟩ := run_held (Replay.start d) pre
    rw [Display.held, hlive, hretired] at h
    exact h
  have hcmds : resourceCmds (pre ++ cmd :: post) = resourceCmds pre ++ resourceCmds post := by
    have hdraw := Replay.closes_isDraw hpass
    rw [resourceCmds_append]
    cases cmd with
    | resource c => exact absurd rfl (hdraw c)
    | _ => rfl
  rw [hcmds] at hw
  obtain ⟨hpre,hpost⟩ := hw.split
  rw [givenBefore_eq hpre, replayCommandList, Replay.shows_run, hcmds, Display.applyAll_append]
  exact Display.shows_applyAll hpost hheld

/-- Commands without a draw that leave alone what the draws before them read. -/
lemma ReadsInOrder.append {d : Display} {cmds new : List BackendCmd} (h : ReadsInOrder d cmds)
    (hnew : ∀ cmd ∈ new, Replay.isDraw cmd = false)
    (hshows : ∀ pass ∈ (replayCommandList d cmds).passes, ∀ id ∈ pass.reads,
      (replayCommandList d (cmds ++ new)).display.shows id = (replayCommandList d cmds).display.shows id) :
    ReadsInOrder d (cmds ++ new) := by
  intro pre cmd post pass hsplit hpass id hid
  rcases List.append_eq_append_iff.mp hsplit with ⟨as,rfl,has⟩ | ⟨bs,rfl,hbs⟩
  · have hmem : cmd ∈ new := by simp [has]
    have hdraw := hnew cmd hmem
    cases cmd <;> simp_all [Replay.isDraw, Replay.closes]
  · cases bs with
    | nil =>
      have hmem : cmd ∈ new := by simp [show new = cmd :: post by simpa using hbs.symm]
      have hdraw := hnew cmd hmem
      cases cmd <;> simp_all [Replay.isDraw, Replay.closes]
    | cons b bs =>
      obtain ⟨rfl,rfl⟩ := List.cons.inj hbs
      have hrecorded : pass ∈ (replayCommandList d (pre ++ cmd :: bs)).passes := by
        rw [replayCommandList, Replay.run_append, Replay.run_cons]
        refine Replay.passes_run _ _ ?_
        simp [Replay.step, replayCommandList] at hpass ⊢
        exact .inr hpass
      rw [hshows pass hrecorded id hid]
      exact h pre cmd bs pass rfl hpass id hid

/-- A draw reads what the list gave before it if nothing comes after. -/
lemma ReadsInOrder.draw {d : Display} {cmds : List BackendCmd} {cmd : BackendCmd}
    (h : ReadsInOrder d cmds) (hw : d.Whole (resourceCmds (cmds ++ [cmd]))) (hcmd : Replay.isDraw cmd) :
    ReadsInOrder d (cmds ++ [cmd]) := by
  have hcmds : resourceCmds (cmds ++ [cmd]) = resourceCmds cmds := by
    rw [resourceCmds_append]
    cases cmd <;> simp_all [Replay.isDraw, resourceCmds]
  intro pre cmd' post pass hsplit hpass id hid
  rcases List.eq_nil_or_concat post with rfl | ⟨post,last,rfl⟩
  · rw [hsplit] at hw ⊢
    rw [shows_after_draw hw hpass hid]
    rfl
  · have hpre : cmds = pre ++ cmd' :: post := by
      have hdrop := congrArg List.dropLast hsplit
      rw [List.dropLast_concat, List.concat_eq_append, ← List.cons_append, ← List.append_assoc,
        List.dropLast_concat] at hdrop
      exact hdrop
    have hshows : (replayCommandList d (cmds ++ [cmd])).display.shows id =
        (replayCommandList d cmds).display.shows id := by
      simp only [replayCommandList, Replay.shows_run, hcmds]
    rw [hshows]
    exact h pre cmd' post pass hpre hpass id hid

section Demo

/-- What a move of the demonstration programs moves. -/
def movedOperand (word : UInt32) : Operand :=
  if word = 0x7e0002f2 then .inlineFloat 0x3f800000
  else if word = 0x7e0002f4 then .inlineFloat 0x40000000 else .inlineInt 0

def movedConstant (d : Decoded) : Option UInt32 :=
  match d.inst with
  | .vop1 .vMovB32 _ (.inlineFloat bits) => some bits.toNat.toUInt32
  | .vop1 .vMovB32 _ (.inlineInt i) => some i.toNat.toUInt32
  | _ => none

/-- A vertex shader fetches one stream; a pixel shader samples a texture if it moves 2.0. -/
def movesIo (constants : List UInt32) : ShaderStage → IoLayout
  | .vertex => ⟨.vertex,[⟨0,0,16,4,.inlineVSharp 0⟩],[],[],[⟨0,16,0⟩]⟩
  | .pixel => ⟨.pixel,[],[],if 0x40000000 ∈ constants then [⟨0,4,.inlineVSharp 0,8⟩] else [],[]⟩

/-- A decoder and recompiler of programs that move inline constants to v0: each constant is a
word of the module. -/
def moveRecompiler : Recompiler Unit where
  decodeAll words := words.zipIdx.map fun w =>
    ⟨if w.1 = sEndpgm then .sopp .sEndpgm 0 else .vop1 .vMovB32 (.vgpr 0) (movedOperand w.1),1,w.2⟩
  resolveFetchCall _ _ := none
  recompileWith insts stage _ :=
    .ok (0x07230203 :: insts.filterMap movedConstant,movesIo (insts.filterMap movedConstant) stage)

def moveTools : Toolchain := ⟨Unit,moveRecompiler,[0x07230203],[0x07230203],fun bytes _ => some bytes⟩

/-- A binary of one move, under the stage that its header names. -/
def moveBinary (mType src : UInt8) : Bytes :=
  [src,2,0,0x7e,0,0,0x81,0xbf] ++ orbshdrMagic ++
    [0,mType*4,8,0,0,0,0,0,0,1,0,0,0,2,0,0,0,3,0,0,0]

/-- The vertex shader that fetches a stream. -/
def streamVs : HostShader := ⟨[0x07230203,0],some (movesIo [] .vertex)⟩

def embeddedPs : HostShader := ⟨[0x07230203],none⟩

def screenState : DrawState where
  target := ⟨1920,1080,.videoout⟩
  pipeline := ⟨.b8g8r8a8Unorm,false,0,0xf,false,0,.triangleList⟩
  viewport := ⟨0,0,0x44f00000,0x44870000⟩
  scissor := ⟨0,0,1920,1080⟩

/-- A draw of the vertex shader at 0x100 from a buffer of four bytes. -/
def streamDraw : DrawInputs where
  now := 0
  bound := ⟨some (.gcnBinary ⟨0x100,none,[]⟩),some (.embedded .pixel 1)⟩
  drawState := some screenState
  vertexRanges := fun _ => [⟨0x1000,4,16,1,0xfac,14⟩]
  vertexLayout := fun _ => some none
  constRange := fun _ _ => none
  texture := fun _ => none

/-- At boot, with a vertex and a pixel shader, zeros from 0x1000 on and sevens from 0x2000 on. -/
def bootExec : Exec where
  cache := .new
  shaders := []
  pipelines := []
  nextPipeline := 1
  renderTargets := []
  index := ⟨.u16,0,0⟩
  bytes := fun addr =>
    if addr < 0x200 then (moveBinary 1 0x80).getD (addr-0x100) 0
    else if addr < 0x300 then (moveBinary 0 0xf4).getD (addr-0x200) 0
    else if addr < 0x2000 then 0 else 7
  readable := fun addr size =>
    0x1000 ≤ addr || (0x100 ≤ addr && addr+size ≤ 0x124) || (0x200 ≤ addr && addr+size ≤ 0x224)
  cmds := []

def emptyDisplay : Display := ⟨fun _ => none,fun _ => none,fun _ => none⟩

lemma session_bootExec (T : Toolchain) : Session T bootExec emptyDisplay := .boot _ _ _

def streamPipeline : HostPipeline :=
  hostPipeline streamDraw.bound streamVs embeddedPs screenState ⟨none,none,[],none⟩

/-- The commands before a draw from the buffer. -/
def streamCmds (fill : List ResourceCmd) : List BackendCmd :=
  .bindPipeline 1 :: fill.map .resource ++ [.bindStorageBuffer ⟨0,0⟩ 1 1 16 0xfac 14 0,
    .setViewport screenState.viewport,.setScissor screenState.scissor]

/-- A draw from the buffer, a copy of other vertices over it, and the draw again. -/
def redraw : List Packet :=
  [.drawIndexAuto streamDraw 3,.dmaData 0x2000 0x1000 4,.drawIndexAuto streamDraw 3]

lemma walk_redraw :
    ∃ e', bootExec.walk moveTools redraw = some e' ∧
      e'.cmds = (.createPipeline 1 streamPipeline ::
          streamCmds [.createBuffer 1 4,.uploadBuffer 1 0 [0,0,0,0]]) ++ .drawAuto 3 ::
        (streamCmds [.uploadBuffer 1 0 [7,7,7,7]] ++ [.drawAuto 3]) := by
  have hcmds : (bootExec.walk moveTools redraw).map (·.cmds) =
      some ((.createPipeline 1 streamPipeline ::
          streamCmds [.createBuffer 1 4,.uploadBuffer 1 0 [0,0,0,0]]) ++ .drawAuto 3 ::
        (streamCmds [.uploadBuffer 1 0 [7,7,7,7]] ++ [.drawAuto 3])) := by decide +kernel
  exact Option.map_eq_some_iff.mp hcmds

end Demo

end Unemups4.Gnm

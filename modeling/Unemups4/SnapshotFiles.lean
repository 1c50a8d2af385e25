import Unemups4.PipelineKeys
import Unemups4.Pm4
import Unemups4.Transition

/-! The shader files of a snapshot: what a draw or a deferred draw queues for writing, and the names
that the record of a draw gives. A shader is dumped once in a session, under the hash that its
first dump found, by a draw or by a defer. -/
namespace Unemups4.Gnm.Dump
open Gcn
open Transition (Reach)

/-- A dump that the seen-set holds the hash of: the stage it was named for, and whether it wrote a
module and a guest binary's text. -/
structure Seen where
  hash : UInt64
  tag : String
  compiled : Bool
  gcn : Bool
  deriving DecidableEq, Repr

/-- Sixteen digits. -/
def hex16 (hash : UInt64) : String :=
  String.ofList ((List.range 16).map fun i => Nat.digitChar (hash.toNat/16^(15-i) % 16))

def shaderKey (tag : String) (hash : UInt64) : String := tag ++ "-" ++ hex16 hash

/-- A file under the root of the dumps. -/
def shaderFile (key extension : String) : String := "shaders/" ++ key ++ "." ++ extension

def stageTag : ShaderStage → String
  | .vertex => "vs"
  | .pixel => "ps"

/-- A deferred draw names the hardware's stage. -/
def deferredTag (stage : String) : String :=
  if stage = "VS" then "vs" else if stage = "PS" then "ps" else stage

def isGcn : ShaderRef → Bool
  | .embedded _ _ => false
  | .gcnBinary _ => true

structure ShaderDumpRef where
  key : String
  sb : Bool
  disasm : Bool
  deriving DecidableEq, Repr

/-- The files that the record of a draw names for a shader. -/
def ShaderDumpRef.names (d : ShaderDumpRef) : List String :=
  shaderFile d.key "spv" :: ((if d.sb then [shaderFile d.key "sb"] else []) ++
    if d.disasm then [shaderFile d.key "txt"] else [])

/-- A stage of a draw: the shader it binds, the hash under which the pipeline has it, and the code
that can be read at its address. -/
structure BoundStage where
  bound : Option ShaderRef
  hash : UInt64
  code : List Dword
  deriving DecidableEq, Repr

structure DrawRecord where
  vs : Option ShaderDumpRef
  ps : Option ShaderDumpRef
  deriving DecidableEq, Repr

def DrawRecord.names (d : DrawRecord) : List String :=
  d.vs.elim [] ShaderDumpRef.names ++ d.ps.elim [] ShaderDumpRef.names

/-- The recorder, with the files that are queued and the frames that were written. -/
structure Recorder where
  armed : Bool
  seenShaders : List Seen
  shadersWithSb : List UInt64
  queued : List String
  draws : List DrawRecord
  written : List (List DrawRecord)
  deriving DecidableEq, Repr

inductive Act where
  | draw (vs ps : BoundStage)
  | deferred (stage : String) (hash : UInt64) (code : List Dword)
  | frameBoundary (takeFrame : Bool)
  deriving DecidableEq, Repr

namespace Recorder

def start : Recorder := ⟨false,[],[],[],[],[]⟩

variable (r : Recorder)

def hasSeen (hash : UInt64) : Bool := r.seenShaders.any fun e => e.hash = hash

def enqueue (names : List String) : Recorder := { r with queued := r.queued ++ names }

/-- The guest's binary with its text, or a text that says why it is missing. -/
def dumpCode (key : String) (hash : UInt64) (code : List Dword) : Recorder :=
  if code ≠ [] then
    { r.enqueue [shaderFile key "sb",shaderFile key "txt"] with
      shadersWithSb := hash :: r.shadersWithSb }
  else r.enqueue [shaderFile key "txt"]

/-- The module is written, and for a guest binary what it was made from. -/
def dumpShader (stage : ShaderStage) (b : BoundStage) : Recorder × Option ShaderDumpRef :=
  match b.bound with
  | none => (r,none)
  | some bound =>
      let key := shaderKey (stageTag stage) b.hash
      let gcn := isGcn bound
      if r.hasSeen b.hash then
        (r,some ⟨key,gcn && r.shadersWithSb.contains b.hash,gcn⟩)
      else
        let r := { r with seenShaders := ⟨b.hash,stageTag stage,true,gcn⟩ :: r.seenShaders }
        let r := r.enqueue [shaderFile key "spv"]
        (if gcn then r.dumpCode key b.hash b.code else r,some ⟨key,gcn && b.code ≠ [],gcn⟩)

/-- There is no module of a shader that was rejected. -/
def dumpDeferredShader (stage : String) (hash : UInt64) (code : List Dword) : Recorder :=
  if ¬r.armed then r
  else
    let tag := deferredTag stage
    if r.hasSeen hash then r
    else
      { r with seenShaders := ⟨hash,tag,false,true⟩ :: r.seenShaders }.dumpCode
        (shaderKey tag hash) hash code

def recordDraw (vs ps : BoundStage) : Recorder :=
  if ¬r.armed then r
  else
    let (r,vsKey) := r.dumpShader .vertex vs
    let (r,psKey) := r.dumpShader .pixel ps
    { r with draws := r.draws ++ [⟨vsKey,psKey⟩] }

def recordDeferredGcn (stage : String) (hash : UInt64) (code : List Dword) : Recorder :=
  if ¬r.armed then r else r.dumpDeferredShader stage hash code

def onFrameBoundary (takeFrame : Bool) : Recorder :=
  let r := if r.armed then { r with armed := false, draws := [], written := r.written ++ [r.draws] }
    else r
  if takeFrame then { r with armed := true, draws := [] } else r

end Recorder

def step (r : Recorder) : Act → Option Recorder
  | .draw vs ps => some (r.recordDraw vs ps)
  | .deferred stage hash code => some (r.recordDeferredGcn stage hash code)
  | .frameBoundary takeFrame => some (r.onFrameBoundary takeFrame)

/-- Every file that a record names is queued. -/
def NamesQueued (r : Recorder) : Prop :=
  ∀ draws ∈ r.draws :: r.written, ∀ d ∈ draws, ∀ name ∈ d.names, name ∈ r.queued

/-- The stage finds its hash new, or first dumped by a draw for the same stage, and as a guest binary
if it is one. -/
def Fresh (r : Recorder) (stage : ShaderStage) (b : BoundStage) : Prop :=
  ∀ bound ∈ b.bound, ∀ e ∈ r.seenShaders, e.hash = b.hash →
    e.tag = stageTag stage ∧ e.compiled ∧ (isGcn bound → e.gcn)

/-- A draw's two stages find their hashes so, and do not share one. -/
def Consistent (r : Recorder) : Act → Prop
  | .draw vs ps => r.armed → Fresh r .vertex vs ∧ Fresh r .pixel ps ∧
      (vs.bound.isSome → ps.bound.isSome → vs.hash ≠ ps.hash)
  | _ => True

/-- What a dump left in the queue is there, under the name of its stage. -/
structure Filed (r : Recorder) (e : Seen) : Prop where
  spv : e.compiled → shaderFile (shaderKey e.tag e.hash) "spv" ∈ r.queued
  sb : e.hash ∈ r.shadersWithSb → shaderFile (shaderKey e.tag e.hash) "sb" ∈ r.queued
  txt : e.gcn → shaderFile (shaderKey e.tag e.hash) "txt" ∈ r.queued

/-- What the steps keep. -/
structure Kept (r : Recorder) : Prop where
  filed : ∀ e ∈ r.seenShaders, Filed r e
  seen : ∀ hash ∈ r.shadersWithSb, r.hasSeen hash
  names : NamesQueued r

/-- Files are queued, and none leaves. -/
structure Grows (r r' : Recorder) : Prop where
  queued : ∀ name ∈ r.queued, name ∈ r'.queued
  draws : r'.draws = r.draws
  written : r'.written = r.written

section Steps

variable {r r' : Recorder} {stage : ShaderStage} {b : BoundStage} {hash : UInt64}

lemma Grows.names (h : Grows r r') (hn : NamesQueued r) : NamesQueued r' := by
  intro draws hdraws d hd name hname
  rw [h.draws,h.written] at hdraws
  exact h.queued name (hn draws hdraws d hd name hname)

lemma hasSeen_iff : r.hasSeen hash ↔ ∃ e ∈ r.seenShaders, e.hash = hash := by
  simp [Recorder.hasSeen]

/-- A dump of a new hash adds to what is seen, and queues its files. -/
lemma Kept.insert (h : Kept r) {e : Seen} (hnew : ¬r.hasSeen e.hash) (hgrows : Grows r r')
    (hseen : r'.seenShaders = e :: r.seenShaders)
    (hsb : ∀ x ∈ r'.shadersWithSb, x ∈ r.shadersWithSb ∨ x = e.hash) (hfiled : Filed r' e) :
    Kept r' where
  filed := by
    intro e' he'
    rw [hseen] at he'
    obtain rfl | he' := List.mem_cons.mp he'
    · exact hfiled
    · have hold := h.filed e' he'
      refine ⟨fun hc => hgrows.queued _ (hold.spv hc),fun hmem => ?_,
        fun hg => hgrows.queued _ (hold.txt hg)⟩
      obtain hmem | heq := hsb _ hmem
      · exact hgrows.queued _ (hold.sb hmem)
      · exact absurd (hasSeen_iff.mpr ⟨e',he',heq⟩) hnew
  seen := by
    intro x hx
    rw [hasSeen_iff,hseen]
    obtain hx | rfl := hsb x hx
    · obtain ⟨e',he',heq⟩ := hasSeen_iff.mp (h.seen x hx)
      exact ⟨e',by simp [he'],heq⟩
    · exact ⟨e,by simp,rfl⟩
  names := hgrows.names h.names

section DumpCode

variable (r : Recorder) (key : String) (hash : UInt64) (code : List Dword)

@[simp] lemma dumpCode_queued : (r.dumpCode key hash code).queued = r.queued ++
    ((if code = [] then [] else [shaderFile key "sb"]) ++ [shaderFile key "txt"]) := by
  unfold Recorder.dumpCode
  by_cases hcode : code = [] <;> simp [hcode,Recorder.enqueue]

@[simp] lemma dumpCode_draws : (r.dumpCode key hash code).draws = r.draws := by
  unfold Recorder.dumpCode
  split_ifs <;> rfl

@[simp] lemma dumpCode_written : (r.dumpCode key hash code).written = r.written := by
  unfold Recorder.dumpCode
  split_ifs <;> rfl

@[simp] lemma dumpCode_armed : (r.dumpCode key hash code).armed = r.armed := by
  unfold Recorder.dumpCode
  split_ifs <;> rfl

@[simp] lemma dumpCode_seenShaders : (r.dumpCode key hash code).seenShaders = r.seenShaders := by
  unfold Recorder.dumpCode
  split_ifs <;> rfl

@[simp] lemma dumpCode_shadersWithSb : (r.dumpCode key hash code).shadersWithSb =
    if code = [] then r.shadersWithSb else hash :: r.shadersWithSb := by
  unfold Recorder.dumpCode
  by_cases hcode : code = [] <;> simp [hcode,Recorder.enqueue]

lemma dumpCode_grows (seen : List Seen) (names : List String) : Grows r
    (({ r with seenShaders := seen }.enqueue names).dumpCode key hash code) where
  queued := fun name hname => by simp [Recorder.enqueue,hname]
  draws := by simp [Recorder.enqueue]
  written := by simp [Recorder.enqueue]

end DumpCode

/-- A guest binary's files behind those of its dump that are queued already. -/
lemma Kept.dumpCode (h : Kept r) (code : List Dword) {e : Seen} (hnew : ¬r.hasSeen e.hash)
    (names : List String) (hspv : e.compiled → shaderFile (shaderKey e.tag e.hash) "spv" ∈ names) :
    Kept (({ r with seenShaders := e :: r.seenShaders }.enqueue names).dumpCode
      (shaderKey e.tag e.hash) e.hash code) := by
  refine h.insert hnew (dumpCode_grows r _ _ code _ names) (by simp [Recorder.enqueue]) ?_ ⟨?_,?_,?_⟩
  · intro x hx
    by_cases hcode : code = []
    · exact .inl (by simpa [hcode,Recorder.enqueue] using hx)
    · simpa [hcode,Recorder.enqueue,or_comm] using hx
  · intro hc
    simp [Recorder.enqueue,hspv hc]
  · have hold : e.hash ∉ r.shadersWithSb := fun hmem => hnew (h.seen _ hmem)
    by_cases hcode : code = [] <;> simp [hcode,Recorder.enqueue,hold]
  · simp

/-- What a dump of a shader leaves, and what the record then names. -/
structure Dumped (r : Recorder) (b : BoundStage) (result : Recorder × Option ShaderDumpRef) : Prop where
  kept : Kept result.1
  grows : Grows r result.1
  names : ∀ d ∈ result.2, ∀ name ∈ d.names, name ∈ result.1.queued
  seen : ∀ e ∈ result.1.seenShaders, e ∈ r.seenShaders ∨ e.hash = b.hash ∧ b.bound.isSome

lemma dumpShader_dumped (h : Kept r) (hfresh : Fresh r stage b) :
    Dumped r b (r.dumpShader stage b) := by
  unfold Recorder.dumpShader
  cases hbound : b.bound with
  | none => exact ⟨h,⟨fun _ hn => hn,rfl,rfl⟩,by simp,fun e he => .inl he⟩
  | some bound =>
    dsimp only
    split_ifs with hseen hgcn
    · refine ⟨h,⟨fun _ hn => hn,rfl,rfl⟩,?_,fun e he => .inl he⟩
      obtain ⟨e,he,hhash⟩ := hasSeen_iff.mp hseen
      obtain ⟨htag,hcompiled,hgcn⟩ := hfresh bound hbound e he hhash
      have hfiled := h.filed e he
      have hspv := hfiled.spv hcompiled
      have hsb := hfiled.sb
      have htxt := fun hg => hfiled.txt (hgcn hg)
      rw [htag,hhash] at hspv hsb htxt
      intro d hd name hname
      obtain rfl := Option.mem_some_iff.mp hd
      simp only [ShaderDumpRef.names,List.mem_cons,List.mem_append] at hname
      obtain rfl | hname | hname := hname
      · exact hspv
      · split_ifs at hname with hboth
        · obtain rfl := List.mem_singleton.mp hname
          exact hsb (by simpa using (Bool.and_eq_true_iff.mp hboth).2)
        · simp at hname
      · split_ifs at hname with hgcn
        · obtain rfl := List.mem_singleton.mp hname
          exact htxt hgcn
        · simp at hname
    · have hnew : ¬r.hasSeen (Seen.mk b.hash (stageTag stage) true (isGcn bound)).hash := hseen
      refine ⟨h.dumpCode b.code hnew _ fun _ => List.mem_singleton_self _,?_,?_,?_⟩
      · exact dumpCode_grows r _ _ b.code _ _
      · intro d hd
        obtain rfl := Option.mem_some_iff.mp hd
        by_cases hcode : b.code = [] <;> simp [ShaderDumpRef.names,Recorder.enqueue,hgcn,hcode]
      · intro e he
        have hmem : e = ⟨b.hash,stageTag stage,true,isGcn bound⟩ ∨ e ∈ r.seenShaders := by
          simpa [Recorder.enqueue] using he
        obtain rfl | he := hmem
        · exact .inr ⟨rfl,by simp [hbound]⟩
        · exact .inl he
    · have hnew : ¬r.hasSeen (Seen.mk b.hash (stageTag stage) true (isGcn bound)).hash := hseen
      have hgrows : Grows r ({ r with seenShaders := ⟨b.hash,stageTag stage,true,isGcn bound⟩ ::
          r.seenShaders }.enqueue [shaderFile (shaderKey (stageTag stage) b.hash) "spv"]) :=
        ⟨fun name hname => by simp [Recorder.enqueue,hname],rfl,rfl⟩
      refine ⟨h.insert hnew hgrows rfl (fun x hx => .inl hx) ⟨?_,?_,?_⟩,hgrows,?_,?_⟩
      · simp [Recorder.enqueue]
      · exact fun hmem => absurd (h.seen _ hmem) hnew
      · exact fun hg => absurd hg hgcn
      · intro d hd
        obtain rfl := Option.mem_some_iff.mp hd
        simp [ShaderDumpRef.names,Recorder.enqueue,hgcn]
      · intro e he
        obtain rfl | he := List.mem_cons.mp he
        · exact .inr ⟨rfl,by simp [hbound]⟩
        · exact .inl he

lemma dumpDeferredShader_kept (h : Kept r) (stage : String) (hash : UInt64) (code : List Dword) :
    Kept (r.dumpDeferredShader stage hash code) := by
  unfold Recorder.dumpDeferredShader
  by_cases hseen : r.hasSeen hash
  · simpa [hseen] using h
  · have hnew : ¬r.hasSeen (Seen.mk hash (deferredTag stage) false true).hash := hseen
    have hdump := h.dumpCode code hnew [] (by simp)
    simp only [Recorder.enqueue,List.append_nil] at hdump
    split_ifs
    · exact hdump
    · exact h

/-- Only the other stage of a draw comes between. -/
lemma Dumped.fresh {result : Recorder × Option ShaderDumpRef} {b' : BoundStage}
    (h : Dumped r b result) (hfresh : Fresh r stage b')
    (hne : b.bound.isSome → b'.bound.isSome → b.hash ≠ b'.hash) : Fresh result.1 stage b' := by
  intro bound hbound e he hhash
  obtain he | ⟨heq,hsome⟩ := h.seen e he
  · exact hfresh bound hbound e he hhash
  · have hsome' : b'.bound.isSome := Option.isSome_iff_exists.mpr ⟨bound,hbound⟩
    exact absurd (heq.symm.trans hhash) (hne hsome hsome')

lemma mem_names {d : DrawRecord} {name : String} (h : name ∈ d.names) :
    (∃ ref ∈ d.vs, name ∈ ref.names) ∨ ∃ ref ∈ d.ps, name ∈ ref.names := by
  obtain ⟨vs,ps⟩ := d
  cases vs <;> cases ps <;> simp_all [DrawRecord.names]

lemma recordDraw_kept (h : Kept r) {vs ps : BoundStage} (hok : Consistent r (.draw vs ps)) :
    Kept (r.recordDraw vs ps) := by
  unfold Recorder.recordDraw
  split_ifs with harmed
  · obtain ⟨hvs,hps,hne⟩ := hok harmed
    have hfirst := dumpShader_dumped h hvs
    have hsecond := dumpShader_dumped hfirst.kept (hfirst.fresh hps hne)
    refine ⟨fun e he => ?_,hsecond.kept.seen,?_⟩
    · obtain ⟨hspv,hsb,htxt⟩ := hsecond.kept.filed e he
      exact ⟨hspv,hsb,htxt⟩
    · intro draws hdraws d hd name hname
      obtain rfl | hdraws := List.mem_cons.mp hdraws
      · obtain hd | hd := List.mem_append.mp hd
        · exact hsecond.kept.names _ (by simp) d hd name hname
        · obtain rfl := List.mem_singleton.mp hd
          obtain ⟨ref,href,hname⟩ | ⟨ref,href,hname⟩ := mem_names hname
          · exact hsecond.grows.queued name (hfirst.names ref href name hname)
          · exact hsecond.names ref href name hname
      · exact hsecond.kept.names _ (List.mem_cons_of_mem _ hdraws) d hd name hname
  · exact h

/-- Draws that were recorded may go or move. -/
lemma Kept.moved (h : Kept r) (armed : Bool) {draws : List DrawRecord} {written : List (List DrawRecord)}
    (hmoved : ∀ l ∈ draws :: written, l = [] ∨ l ∈ r.draws :: r.written) :
    Kept { r with armed := armed, draws := draws, written := written } where
  filed := fun e he => ⟨(h.filed e he).spv,(h.filed e he).sb,(h.filed e he).txt⟩
  seen := h.seen
  names := by
    intro l hl d hd
    obtain rfl | hl := hmoved l hl
    · simp at hd
    · exact h.names l hl d hd

lemma onFrameBoundary_kept (h : Kept r) (takeFrame : Bool) : Kept (r.onFrameBoundary takeFrame) := by
  have hclosed : ∀ l ∈ [] :: (r.written ++ [r.draws]), l = [] ∨ l ∈ r.draws :: r.written := by
    intro l hl
    simp only [List.mem_cons,List.mem_append,List.not_mem_nil,or_false] at hl ⊢
    tauto
  have hopened : ∀ l ∈ [] :: r.written, l = [] ∨ l ∈ r.draws :: r.written := by
    intro l hl
    simp only [List.mem_cons] at hl ⊢
    tauto
  unfold Recorder.onFrameBoundary
  cases harmed : r.armed <;> cases takeFrame
  · exact h
  · exact h.moved true hopened
  · exact h.moved false hclosed
  · exact h.moved true hclosed

/-- What a step keeps. -/
lemma Kept.step (h : Kept r) {act : Act} (hok : Consistent r act) (hs : step r act = some r') :
    Kept r' := by
  cases act with
  | draw vs ps =>
    obtain rfl := Option.some.inj hs
    exact recordDraw_kept h hok
  | deferred stage hash code =>
    obtain rfl := Option.some.inj hs
    unfold Recorder.recordDeferredGcn
    split_ifs
    · exact dumpDeferredShader_kept h stage hash code
    · exact h
  | frameBoundary takeFrame =>
    obtain rfl := Option.some.inj hs
    exact onFrameBoundary_kept h takeFrame

end Steps

/-- Where each hash is dumped for the first time by a draw, and drawn again for the same stage only,
every file that the record of a draw names is queued. -/
theorem names_queued {r : Recorder} (hr : Reach step (· = .start) Consistent r) : NamesQueued r := by
  have hkept : Kept r := by
    refine hr.invariant ?_ fun _ _ _ h hok hstep => h.step hok hstep
    rintro _ rfl
    exact ⟨by simp [Recorder.start],by simp [Recorder.start],by simp [NamesQueued,Recorder.start]⟩
  exact hkept.names

instance (r : Recorder) (stage : ShaderStage) (b : BoundStage) : Decidable (Fresh r stage b) := by
  unfold Fresh
  infer_instance

instance (r : Recorder) (act : Act) : Decidable (Consistent r act) := by
  unfold Consistent
  split <;> infer_instance

/-- A guest binary at an address, and the built-in pixel shader. -/
def binaryAt (addr : ℕ) : ShaderRef := .gcnBinary ⟨addr,none,[]⟩

def stageOf (bound : ShaderRef) (code : List Dword) : BoundStage := ⟨some bound,bound.shaderHash,code⟩

private def outline (r : Recorder) : ℕ × List ℕ := (r.queued.length,r.written.map List.length)

theorem names_queued_twice : ∃ r, outline r = (6,[2]) ∧ NamesQueued r := by
  have hrun : ((Transition.exec (Transition.guarded step Consistent) .start
      [.frameBoundary true,.draw (stageOf (binaryAt 0x1000) [0xBF810000]) (stageOf (.embedded .pixel 0) []),
        .draw (stageOf (binaryAt 0x1000) [0xBF810000]) (stageOf (.embedded .pixel 0) []),
        .deferred "PS" (binaryAt 0x2000).shaderHash [0xBF810000],.frameBoundary false]).map outline) =
      some (6,[2]) := by decide +kernel
  obtain ⟨r,hexec,hend⟩ := Option.map_eq_some_iff.mp hrun
  exact ⟨r,hend,names_queued (.exec (.start rfl) hexec)⟩

/-- A shader that was deferred first and then draws is named with a module that is not written. -/
theorem not_names_queued : ¬∀ r, Reach step (· = .start) (fun _ _ => True) r → NamesQueued r := by
  intro hall
  have hrun : ((Transition.exec (Transition.guarded step fun _ _ => True) .start
      [.frameBoundary true,.deferred "VS" (binaryAt 0x1000).shaderHash [0xBF810000],
        .draw (stageOf (binaryAt 0x1000) [0xBF810000]) (stageOf (.embedded .pixel 0) [])]).map
          fun r => decide (∀ d ∈ r.draws, ∀ name ∈ d.names, name ∈ r.queued)) = some false := by
    decide +kernel
  obtain ⟨r,hexec,hend⟩ := Option.map_eq_some_iff.mp hrun
  have hnames := hall r (.exec (.start rfl) hexec) r.draws (by simp)
  exact of_decide_eq_false hend hnames

end Unemups4.Gnm.Dump

import Unemups4.Inst
import Unemups4.ShaderBinary

/-! The provider of recompiled shaders: a cache keyed by header material, whose entries go
when a guest write to their code is drained. The decoder and the recompiler are given. -/
namespace Unemups4.Gnm
open Gcn Fallible ShaderBinary

structure Recompiler (E : Type) where
  decodeAll : List UInt32 → List Decoded
  resolveFetchCall : List Decoded → List Decoded → Option (List Decoded)
  recompileWith : List Decoded → ShaderStage → List UInt8 → Except E (List UInt32 × IoLayout)

def hasFetchCall (insts : List Decoded) : Bool :=
  insts.any fun d => match d.inst with
    | .sop1 .sSwappcB64 _ _ => true
    | _ => false

/-- The words up to the first return that a decode from the start lands on. -/
def fetchAlignedReturnEnd (insts : List Decoded) : Option ℕ :=
  insts.findSome? fun d => match d.inst with
    | .sop1 .sSetpcB64 _ _ | .sop1 .sSwappcB64 _ _ => some (d.offsetDwords+d.sizeDwords)
    | _ => none

/-- The stages that the recompiler models. -/
def recompileStage : SbStage → Option ShaderStage
  | .vertex => some .vertex
  | .pixel => some .pixel
  | .exportStage | .localStage | .domain | .compute | .geometry | .hull => none

def readCodeWords (read : Reader) (codeStart codeEnd : ℕ) : Option (List UInt32) :=
  (read codeStart (codeEnd-codeStart)).bind fun bytes =>
    if bytes.length % 4 ≠ 0 then none else some (wordsOf bytes)

/-- A bound GCN shader: its code, the fetch shader it may call, its input routing. -/
structure GcnRef where
  addr : ℕ
  fetchAddr : Option ℕ
  psInputMap : List UInt8
  deriving DecidableEq, Repr

/-- A resolved shader; a built-in one has no layout. -/
structure HostShader where
  spirv : List UInt32
  io : Option IoLayout
  deriving DecidableEq, Repr

structure GcnShader extends HostShader where
  stage : ShaderStage
  deriving DecidableEq, Repr

structure ShaderCacheKey where
  hash0 : UInt32
  hash1 : UInt32
  crc32 : UInt32
  codeLen : ℕ
  psInputMap : List UInt8
  deriving DecidableEq, Repr

def ShaderCacheKey.fromSb (sb : SbShader) (psInputMap : List UInt8) : ShaderCacheKey :=
  ⟨sb.info.shaderHash0,sb.info.shaderHash1,sb.info.crc32,sb.info.codeLen,psInputMap⟩

/-- A shader with the code range it came from. What was spliced in for its fetch call is kept
beside it; the provider does not look at it. -/
structure CacheEntry where
  host : GcnShader
  codeStart : ℕ
  codeEnd : ℕ
  spliced : Option (List UInt32)
  deriving DecidableEq, Repr

def codeOverlaps (aStart aEnd bStart bLen : ℕ) : Bool :=
  if aEnd ≤ aStart ∨ bLen = 0 then false
  else aStart < saturatingAdd bStart bLen && bStart < aEnd

namespace Recompiler

variable {E : Type} (rc : Recompiler E)

/-- Grow a window until it holds an aligned return; a fault hands back the last one read. -/
def readFetchCode (read : Reader) (fetchAddr : ℕ) :
    ℕ → ℕ → Option (List UInt32) → Option (List UInt32)
  | 0, _, best => best
  | fuel+1, dwords, best =>
      match read fetchAddr (dwords*4) with
      | none => best
      | some bytes =>
          let words := wordsOf bytes
          match fetchAlignedReturnEnd (rc.decodeAll words) with
          | some stop => some (words.take stop)
          | none =>
              if 256 ≤ dwords then some words
              else readFetchCode read fetchAddr fuel (min (dwords*2) 256) (some words)

/-- The fetch code of a bound shader; the window doubles from 8 words to 256. -/
def fetched (read : Reader) (r : GcnRef) : Option (List UInt32) :=
  (r.fetchAddr.filter (· ≠ 0)).bind fun addr => rc.readFetchCode read addr 6 8 none

/-- Recompile code, with its fetch call spliced. Only a failure of the recompiler itself
carries its error. -/
def recompile (code : List UInt32) (fetch : Option (List UInt32)) (stage : ShaderStage)
    (psInputMap : List UInt8) : Except (Option E) (List UInt32 × IoLayout) := do
  let insts := rc.decodeAll code
  let resolved ←
    if hasFetchCall insts then
      (fetch.bind fun words => rc.resolveFetchCall insts (rc.decodeAll words)).elim (.error none) .ok
    else .ok insts
  (rc.recompileWith resolved stage psInputMap).mapError some

/-- What was fetched matters only to code that calls it. -/
lemma recompile_congr {code : List UInt32} {fetch fetch' : Option (List UInt32)}
    (h : hasFetchCall (rc.decodeAll code) → fetch = fetch') (stage : ShaderStage)
    (psInputMap : List UInt8) :
    rc.recompile code fetch stage psInputMap = rc.recompile code fetch' stage psInputMap := by
  unfold recompile
  by_cases hcall : hasFetchCall (rc.decodeAll code)
  · rw [h hcall]
  · simp [hcall]

end Recompiler

/-- The provider beside guest memory and an exact dirty source. -/
structure GcnShaderProvider where
  cache : List (ShaderCacheKey × CacheEntry)
  bytes : ℕ → UInt8
  readable : ℕ → ℕ → Bool
  watched : List (ℕ × ℕ)
  log : List (ℕ × ℕ)

namespace GcnShaderProvider

def boot (bytes : ℕ → UInt8) (readable : ℕ → ℕ → Bool) : GcnShaderProvider :=
  ⟨[],bytes,readable,[],[]⟩

variable {E : Type} (rc : Recompiler E) (p : GcnShaderProvider)

def read : Reader := fun addr size =>
  if p.readable addr size then some (bytesAt p.bytes addr size) else none

/-- The recompile of a miss. -/
def recompileSb (r : GcnRef) (sb : SbShader) : Except (Option E) GcnShader := do
  let stage ← (recompileStage sb.stage).elim (.error none) .ok
  let code ← (readCodeWords p.read sb.codeStart sb.codeEnd).elim (.error none) .ok
  let (spirv,io) ← rc.recompile code (rc.fetched p.read r) stage r.psInputMap
  return ⟨⟨spirv,some io⟩,sb.stage.logicalStage.getD .vertex⟩

/-- `resolve_gcn`: a miss watches the code of what it inserts, an error is not kept. -/
def resolve (r : GcnRef) : Except (Option E) GcnShader × GcnShaderProvider :=
  match parseSb p.read r.addr with
  | .error _ => (.error none,p)
  | .ok sb =>
      let key := ShaderCacheKey.fromSb sb r.psInputMap
      match p.cache.lookup key with
      | some entry => (.ok entry.host,p)
      | none =>
          match p.recompileSb rc r sb with
          | .error e => (.error e,p)
          | .ok host =>
              (.ok host,{ p with
                cache := (key,⟨host,sb.codeStart,sb.codeEnd,rc.fetched p.read r⟩) :: p.cache
                watched := p.watched ++ [(sb.codeStart,sb.codeEnd-sb.codeStart)] })

def isWatched (a : ℕ) : Bool := p.watched.any fun r => r.1 ≤ a && a < r.1+r.2

/-- The watched bytes among those written. -/
def reported (addr len : ℕ) : List (ℕ × ℕ) :=
  ((List.range len).filter fun i => p.isWatched (addr+i)).map fun i => (addr+i,1)

def write (addr : ℕ) (data : Bytes) : GcnShaderProvider :=
  { p with
    bytes := Machine.writeAt p.bytes addr data
    log := p.log ++ p.reported addr data.length }

def touched (entry : CacheEntry) : Bool :=
  p.log.any fun d => codeOverlaps entry.codeStart entry.codeEnd d.1 d.2

/-- Drain the dirty source and drop the entries whose code it touched. -/
def drain : GcnShaderProvider :=
  { p with cache := p.cache.filter fun e => !p.touched e.2, log := [] }

/-- Every sequence of resolves, guest writes and drains. -/
inductive Run : GcnShaderProvider → Prop
  | boot (bytes : ℕ → UInt8) (readable : ℕ → ℕ → Bool) : Run (boot bytes readable)
  | resolve {p : GcnShaderProvider} (r : GcnRef) : Run p → Run (p.resolve rc r).2
  | write {p : GcnShaderProvider} (addr : ℕ) (data : Bytes) : Run p →
      addr+data.length ≤ u64Max → Run (p.write addr data)
  | drain {p : GcnShaderProvider} : Run p → Run p.drain

/-- The answer of a provider with an empty cache. -/
def fresh (r : GcnRef) : Except (Option E) GcnShader := ({ p with cache := [] }.resolve rc r).1

/-- An entry found for a shader was made for its stage, from the code and the fetch code that
the shader has now. -/
def Matches (r : GcnRef) : Prop :=
  ∀ sb entry, parseSb p.read r.addr = .ok sb →
    p.cache.lookup (.fromSb sb r.psInputMap) = some entry →
    recompileStage sb.stage = some entry.host.stage ∧
    readCodeWords p.read sb.codeStart sb.codeEnd =
      readCodeWords p.read entry.codeStart entry.codeEnd ∧
    ∀ code, readCodeWords p.read sb.codeStart sb.codeEnd = some code →
      hasFetchCall (rc.decodeAll code) → rc.fetched p.read r = entry.spliced

/-- The entry is what its code gives, as that was when it was made. -/
structure Built (key : ShaderCacheKey) (entry : CacheEntry) (code : List UInt32) : Prop where
  io : entry.host.io.isSome
  recompiled : ∀ io, entry.host.io = some io →
    rc.recompile code entry.spliced entry.host.stage key.psInputMap = .ok (entry.host.spirv,io)

/-- An entry's code is watched, and unless a write to it waits in the log, the code it was
made from is still there. -/
structure Coherent : Prop where
  bounded : ∀ e ∈ p.cache, e.2.codeStart < e.2.codeEnd ∧ e.2.codeEnd ≤ u64Max
  watched : ∀ e ∈ p.cache, (e.2.codeStart,e.2.codeEnd-e.2.codeStart) ∈ p.watched
  built : ∀ e ∈ p.cache, ∃ code, Built rc e.1 e.2 code ∧
    (p.touched e.2 = false → readCodeWords p.read e.2.codeStart e.2.codeEnd = some code)

lemma codeOverlaps_byte {codeStart codeEnd a : ℕ} (hlo : codeStart ≤ a) (hhi : a < codeEnd)
    (hend : codeEnd ≤ u64Max) : codeOverlaps codeStart codeEnd a 1 := by
  have hsat : a < saturatingAdd a 1 := by
    unfold saturatingAdd
    omega
  simp only [codeOverlaps, Nat.one_ne_zero, or_false]
  rw [if_neg (by omega)]
  simp only [Bool.and_eq_true, decide_eq_true_eq]
  omega

variable {rc p}

lemma recompileStage_logical {s : SbStage} {stage : ShaderStage} (h : recompileStage s = some stage) :
    s.logicalStage.getD .vertex = stage := by
  cases s <;> cases h <;> rfl

/-- A shader whose stage and code are read is what the recompile of the code gives. -/
lemma recompileSb_eq {r : GcnRef} {sb : SbShader} {stage : ShaderStage} {code : List UInt32}
    (hstage : recompileStage sb.stage = some stage)
    (hcode : readCodeWords p.read sb.codeStart sb.codeEnd = some code) :
    p.recompileSb rc r sb = do
      let (spirv,io) ← rc.recompile code (rc.fetched p.read r) stage r.psInputMap
      return ⟨⟨spirv,some io⟩,stage⟩ := by
  unfold recompileSb
  rw [hstage, hcode, recompileStage_logical hstage]
  rfl

lemma recompileSb_ok {r : GcnRef} {sb : SbShader} {host : GcnShader}
    (h : p.recompileSb rc r sb = .ok host) :
    recompileStage sb.stage = some host.stage ∧
    ∃ code io, readCodeWords p.read sb.codeStart sb.codeEnd = some code ∧ host.io = some io ∧
      rc.recompile code (rc.fetched p.read r) host.stage r.psInputMap = .ok (host.spirv,io) := by
  have h' := h
  unfold recompileSb at h'
  obtain ⟨stage,hstage,h'⟩ := bind_eq_ok.mp h'
  obtain ⟨code,hcode,-⟩ := bind_eq_ok.mp h'
  have hstage : recompileStage sb.stage = some stage := by
    cases hs : recompileStage sb.stage <;> simp_all
  have hcode : readCodeWords p.read sb.codeStart sb.codeEnd = some code := by
    cases hc : readCodeWords p.read sb.codeStart sb.codeEnd <;> simp_all
  rw [recompileSb_eq hstage hcode] at h
  obtain ⟨⟨spirv,io⟩,hrecompile,h⟩ := bind_eq_ok.mp h
  cases h
  exact ⟨hstage,code,io,hcode,rfl,hrecompile⟩

lemma lookup_mem {key : ShaderCacheKey} {entry : CacheEntry} (h : p.cache.lookup key = some entry) :
    (key,entry) ∈ p.cache := by
  obtain ⟨l₁,l₂,heq,-⟩ := List.lookup_eq_some_iff.mp h
  simp [heq]

namespace Coherent

lemma boot (bytes : ℕ → UInt8) (readable : ℕ → ℕ → Bool) :
    Coherent rc (boot bytes readable) where
  bounded e he := by cases he
  watched e he := by cases he
  built e he := by cases he

lemma write (h : Coherent rc p) (addr : ℕ) (data : Bytes) : Coherent rc (p.write addr data) := by
  refine ⟨h.bounded,h.watched,fun e he => ?_⟩
  obtain ⟨code,hbuilt,hcode⟩ := h.built e he
  refine ⟨code,hbuilt,fun huntouched => ?_⟩
  obtain ⟨hlt,hend⟩ := h.bounded e he
  have hlog : p.touched e.2 = false := by
    simp only [touched, GcnShaderProvider.write, List.any_append, Bool.or_eq_false_iff] at huntouched
    exact huntouched.1
  have hspared : ∀ i < data.length, e.2.codeStart ≤ addr+i →
      e.2.codeStart+(e.2.codeEnd-e.2.codeStart) ≤ addr+i := by
    intro i hi hlo
    by_contra hhi
    have hwatch : p.isWatched (addr+i) := by
      refine List.any_eq_true.mpr ⟨_,h.watched e he,?_⟩
      simp only [Bool.and_eq_true, decide_eq_true_eq]
      omega
    have hreport : (addr+i,1) ∈ p.log ++ p.reported addr data.length :=
      List.mem_append_right _ (List.mem_map.mpr
        ⟨i,List.mem_filter.mpr ⟨List.mem_range.mpr hi,hwatch⟩,rfl⟩)
    have hover := codeOverlaps_byte hlo (by omega) hend
    have := List.any_eq_false.mp huntouched _ hreport
    exact this hover
  rw [← hcode hlog]
  simp only [readCodeWords, read, GcnShaderProvider.write, Machine.bytesAt_writeAt_spared hspared]

lemma drain (h : Coherent rc p) : Coherent rc p.drain := by
  refine ⟨fun e he => h.bounded e (List.mem_of_mem_filter he),
    fun e he => h.watched e (List.mem_of_mem_filter he),fun e he => ?_⟩
  obtain ⟨code,hbuilt,hcode⟩ := h.built e (List.mem_of_mem_filter he)
  have huntouched : p.touched e.2 = false := by simpa using (List.mem_filter.mp he).2
  exact ⟨code,hbuilt,fun _ => hcode huntouched⟩

lemma resolve (h : Coherent rc p) (r : GcnRef) : Coherent rc (p.resolve rc r).2 := by
  unfold GcnShaderProvider.resolve
  split
  · exact h
  next sb hparse =>
    simp only
    split
    · exact h
    · split
      · exact h
      next host hhost =>
        obtain ⟨-,code,io,hcode,hio,hrecompile⟩ := recompileSb_ok hhost
        obtain ⟨hstart,-,hlong,hend⟩ := parseSb_range hparse
        refine ⟨fun e he => ?_,fun e he => ?_,fun e he => ?_⟩
        · rcases List.mem_cons.mp he with rfl | he
          · have hlt : sb.codeStart < sb.codeEnd := by omega
            exact ⟨hlt,hend⟩
          · exact h.bounded e he
        · rcases List.mem_cons.mp he with rfl | he
          · simp
          · exact List.mem_append_left _ (h.watched e he)
        · rcases List.mem_cons.mp he with rfl | he
          · refine ⟨code,⟨by simp [hio],fun io' hio' => ?_⟩,fun _ => hcode⟩
            obtain rfl : io = io' := by simpa [hio] using hio'
            exact hrecompile
          · exact h.built e he

end Coherent

lemma Run.coherent (h : Run rc p) : Coherent rc p := by
  induction h with
  | boot bytes readable => exact .boot bytes readable
  | resolve r _ ih => exact ih.resolve r
  | write addr data _ _ ih => exact ih.write addr data
  | drain _ ih => exact ih.drain

/-- An entry whose code no waiting write touches, and which matches, is what a recompile gives. -/
lemma Coherent.recompileSb_eq (h : Coherent rc p) {r : GcnRef} {sb : SbShader} {entry : CacheEntry}
    (hparse : parseSb p.read r.addr = .ok sb)
    (hlookup : p.cache.lookup (.fromSb sb r.psInputMap) = some entry)
    (huntouched : p.touched entry = false) (hmatch : p.Matches rc r) :
    p.recompileSb rc r sb = .ok entry.host := by
  obtain ⟨hstage,hsame,hfetch⟩ := hmatch sb entry hparse hlookup
  obtain ⟨code,hbuilt,hcode⟩ := h.built _ (lookup_mem hlookup)
  have hread := hsame.trans (hcode huntouched)
  obtain ⟨io,hio⟩ := Option.isSome_iff_exists.mp hbuilt.io
  have hrecompile : rc.recompile code (rc.fetched p.read r) entry.host.stage r.psInputMap =
      .ok (entry.host.spirv,io) :=
    (rc.recompile_congr (hfetch code hread) _ _).trans (hbuilt.recompiled io hio)
  rw [GcnShaderProvider.recompileSb_eq hstage hread, hrecompile]
  simp [← hio]

/-- With the log drained, a resolve whose entry matches is the answer of an empty cache. -/
theorem resolve_transparent (h : Run rc p) (hdrained : p.log = []) {r : GcnRef}
    (hmatch : p.Matches rc r) : (p.resolve rc r).1 = p.fresh rc r := by
  unfold fresh GcnShaderProvider.resolve
  rw [show ({ p with cache := [] } : GcnShaderProvider).read = p.read from rfl]
  cases hparse : parseSb p.read r.addr with
  | error e => rfl
  | ok sb =>
    simp only [List.lookup_nil]
    rw [show ({ p with cache := [] } : GcnShaderProvider).recompileSb rc r sb =
      p.recompileSb rc r sb from rfl]
    cases hlookup : p.cache.lookup (.fromSb sb r.psInputMap) with
    | none => cases p.recompileSb rc r sb <;> rfl
    | some entry =>
      have huntouched : p.touched entry = false := by simp [touched, hdrained]
      rw [h.coherent.recompileSb_eq hparse hlookup huntouched hmatch]

/-- A decoder and recompiler of scalar control words: a pixel shader of `s_nop` and `s_endpgm`
recompiles, one with any other word is unsupported. -/
def controlRecompiler : Recompiler Unit where
  decodeAll words := words.zipIdx.map fun w =>
    let high := w.1.toNat/2^16
    let op : SoppOp :=
      if high = 0xbf80 then .sNop else if high = 0xbf81 then .sEndpgm else .other (high % 2^7)
    ⟨.sopp op 0,1,w.2⟩
  resolveFetchCall _ _ := none
  recompileWith insts stage _ :=
    if stage = .pixel ∧ insts.all (fun d => d.inst = .sopp .sNop 0 || d.inst = .sopp .sEndpgm 0) then
      .ok ([0x07230203],⟨.pixel,[],[],[],[]⟩)
    else .error ()

/-- Two copies of a pixel shader of two words, at 0x1000 and at 0x2000. -/
def twoCopies : GcnShaderProvider :=
  let container : Bytes := [0,0,0x80,0xbf,0,0,0x81,0xbf] ++ orbshdrMagic ++
    [0,0,8,0,0,0,0,0,0,1,0,0,0,2,0,0,0,3,0,0,0]
  boot (fun a => if 0x2000 ≤ a then container.getD (a-0x2000) 0 else container.getD (a-0x1000) 0)
    fun a n => (0x1000 ≤ a && a+n ≤ 0x1024) || (0x2000 ≤ a && a+n ≤ 0x2024)

/-- The first copy has been compiled. -/
def firstCompiled : GcnShaderProvider :=
  { twoCopies with
    cache := [(⟨1,2,3,8,[]⟩,⟨⟨⟨[0x07230203],some ⟨.pixel,[],[],[],[]⟩⟩,.pixel⟩,0x1000,0x1008,none⟩)]
    watched := [(0x1000,8)] }

lemma run_twoCopies : Run controlRecompiler twoCopies := .boot _ _

lemma run_firstCompiled : Run controlRecompiler firstCompiled :=
  run_twoCopies.resolve ⟨0x1000,none,[]⟩

/-- The copy that was not compiled is not watched: after a write to it, the other's shader is
still the answer. -/
theorem not_transparent_copy :
    ∃ p : GcnShaderProvider, Run controlRecompiler p ∧ p.log = [] ∧
      (p.resolve controlRecompiler ⟨0x2000,none,[]⟩).1 ≠
        p.fresh controlRecompiler ⟨0x2000,none,[]⟩ := by
  refine ⟨_,.drain (run_firstCompiled.write 0x2002 [0x8a] (by decide)),rfl,fun h => ?_⟩
  have hhit : Except.isOk (GcnShaderProvider.resolve controlRecompiler
    (firstCompiled.write 0x2002 [0x8a]).drain ⟨0x2000,none,[]⟩).1 = true := by decide +kernel
  rw [h] at hhit
  have hfresh : Except.isOk (GcnShaderProvider.fresh controlRecompiler
    (firstCompiled.write 0x2002 [0x8a]).drain ⟨0x2000,none,[]⟩) = false := by decide +kernel
  rw [hfresh] at hhit
  cases hhit

/-- The other copy, not written to, is answered from the entry. -/
theorem resolve_transparent_copy :
    (firstCompiled.resolve controlRecompiler ⟨0x2000,none,[]⟩).1 =
      firstCompiled.fresh controlRecompiler ⟨0x2000,none,[]⟩ := by
  have hsb : parseSb firstCompiled.read 0x2000 = .ok ⟨.pixel,0x2000,0x2008,.pixel,8,1,2,3⟩ := rfl
  have hother : readCodeWords firstCompiled.read 0x2000 0x2008 = some [0xbf800000,0xbf810000] :=
    by decide +kernel
  have hfirst : readCodeWords firstCompiled.read 0x1000 0x1008 = some [0xbf800000,0xbf810000] :=
    by decide +kernel
  refine resolve_transparent run_firstCompiled rfl fun sb entry hparse hlookup => ?_
  rw [hsb] at hparse
  cases hparse
  cases hlookup
  exact ⟨rfl,hother.trans hfirst.symm,fun _ _ _ => rfl⟩

end GcnShaderProvider

end Unemups4.Gnm

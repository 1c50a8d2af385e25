import Unemups4.ShaderCache

/-! The shaders of a draw: how they are bound, the chain of the two providers that resolves
them, and what decides the answer of the chain. -/
namespace Unemups4.Gnm
open Gcn Fallible ShaderBinary

/-- How a shader is bound: built in, or as a binary in guest memory. -/
inductive ShaderRef where
  | embedded (stage : ShaderStage) (id : ℕ)
  | gcnBinary (r : GcnRef)
  deriving DecidableEq, Repr

namespace ShaderRef

def fnvOffset : UInt64 := 0xcbf29ce484222325

def fnvPrime : UInt64 := 0x100000001b3

def mix (h b : UInt64) : UInt64 :=
  (List.range 8).foldl (fun h i => (h ^^^ (b >>> (8*i).toUInt64 &&& 0xff))*fnvPrime) h

def psInputSlots : ℕ := 32

/-- A slot without a routing of its own reads the parameter of its number. -/
def locationFor (psInputMap : List UInt8) (n : ℕ) : ℕ :=
  match psInputMap[n]? with
  | some offset => offset.toNat
  | none => n

/-- What the hash of a shader is taken over: never the code. -/
def identity : ShaderRef → List ℕ
  | embedded stage id => [0,if stage = .vertex then 0 else 1,id]
  | gcnBinary r => 1 :: r.addr :: (List.range psInputSlots).map (locationFor r.psInputMap)

def shaderHash (r : ShaderRef) : UInt64 :=
  r.identity.foldl (fun h b => mix h b.toUInt64) fnvOffset

end ShaderRef

/-- The shader of each stage. -/
structure BoundShaders where
  vs : Option ShaderRef
  ps : Option ShaderRef
  deriving DecidableEq, Repr

namespace BoundShaders

def none : BoundShaders := ⟨.none,.none⟩

def get (b : BoundShaders) : ShaderStage → Option ShaderRef
  | .vertex => b.vs
  | .pixel => b.ps

def put (b : BoundShaders) (r : Option ShaderRef) : ShaderStage → BoundShaders
  | .vertex => { b with vs := r }
  | .pixel => { b with ps := r }

def set (b : BoundShaders) (stage : ShaderStage) (r : ShaderRef) : BoundShaders :=
  b.put (some r) stage

def clear (b : BoundShaders) (stage : ShaderStage) : BoundShaders := b.put .none stage

@[simp] lemma get_put (b : BoundShaders) (r : Option ShaderRef) (stage stage' : ShaderStage) :
    (b.put r stage).get stage' = if stage' = stage then r else b.get stage' := by
  cases stage <;> cases stage' <;> rfl

@[ext] lemma ext_get {b c : BoundShaders} (h : ∀ stage, b.get stage = c.get stage) : b = c := by
  obtain ⟨vs,ps⟩ := b
  obtain ⟨vs',ps'⟩ := c
  have hvs : vs = vs' := h .vertex
  have hps : ps = ps' := h .pixel
  rw [hvs, hps]

end BoundShaders

/-- What the executor is given: the decoder and recompiler, the two built-in modules, and how
a surface is detiled. -/
structure Toolchain where
  Failure : Type
  recompiler : Recompiler Failure
  vsFullscreenQuad : List UInt32
  psRgExport : List UInt32
  detile : Bytes → SurfaceLayout → Option Bytes

/-- What a binary is in guest memory: its header material under an input routing, its stage, its
code, and the fetch code if it calls any. -/
structure ShaderText where
  key : ShaderCacheKey
  stage : SbStage
  code : Option (List UInt32)
  fetch : Option (List UInt32)
  deriving DecidableEq, Repr

/-- What a bound shader is: a built-in module, or a binary that the parser may reject. -/
inductive BoundText where
  | embedded (stage : ShaderStage) (id : ℕ)
  | binary (text : Option ShaderText)
  deriving DecidableEq, Repr

/-- The shaders that a provider's cache answers with. -/
def served (cache : List (ShaderCacheKey × CacheEntry)) (key : ShaderCacheKey) : Option GcnShader :=
  (cache.lookup key).map (·.host)

namespace Toolchain

variable (T : Toolchain)

/-- `EmbeddedShaderProvider::resolve` -/
def embedded : ShaderStage → ℕ → Option HostShader
  | .vertex, 0 => some ⟨T.vsFullscreenQuad,none⟩
  | .pixel, 1 => some ⟨T.psRgExport,none⟩
  | _, _ => none

/-- The chain of the two providers; an error and an unknown id both leave the draw. -/
def resolveRef (p : GcnShaderProvider) : Option ShaderRef → Option HostShader × GcnShaderProvider
  | none => (none,p)
  | some (.embedded stage id) => (T.embedded stage id,p)
  | some (.gcnBinary r) =>
      ((p.resolve T.recompiler r).1.toOption.map GcnShader.toHostShader,(p.resolve T.recompiler r).2)

/-- `resolve_shader_pair`: both stages are resolved before either outcome is looked at. -/
def resolvePair (p : GcnShaderProvider) (b : BoundShaders) :
    Option (HostShader × HostShader) × GcnShaderProvider :=
  let vs := T.resolveRef p b.vs
  let ps := T.resolveRef vs.2 b.ps
  (vs.1.bind fun v => ps.1.map fun f => (v,f),ps.2)

def parsedText (read : Reader) (r : GcnRef) (sb : SbShader) : ShaderText where
  key := .fromSb sb r.psInputMap
  stage := sb.stage
  code := readCodeWords read sb.codeStart sb.codeEnd
  fetch :=
    if (readCodeWords read sb.codeStart sb.codeEnd).any fun words =>
        hasFetchCall (T.recompiler.decodeAll words) then T.recompiler.fetched read r
    else none

def binaryText (read : Reader) (r : GcnRef) : Option ShaderText :=
  (parseSb read r.addr).toOption.map (T.parsedText read r)

def textOf (read : Reader) : ShaderRef → BoundText
  | .embedded stage id => .embedded stage id
  | .gcnBinary r => .binary (T.binaryText read r)

/-- A miss of the provider recompiles the text. -/
def compile (t : ShaderText) : Option GcnShader := do
  let stage ← recompileStage t.stage
  let code ← t.code
  let (spirv,io) ← (T.recompiler.recompile code t.fetch stage t.key.psInputMap).toOption
  return ⟨⟨spirv,some io⟩,stage⟩

/-- The answer of the chain over a cache that answers with `held`. -/
def host (held : ShaderCacheKey → Option GcnShader) : BoundText → Option HostShader
  | .embedded stage id => T.embedded stage id
  | .binary text =>
      (text.bind fun t => held t.key <|> T.compile t).map GcnShader.toHostShader

/-- What the cache answers with once the shader was resolved. -/
def learn (held : ShaderCacheKey → Option GcnShader) : Option BoundText → ShaderCacheKey → Option GcnShader
  | some (.binary (some t)), key => held key <|> if t.key = key then T.compile t else none
  | _, key => held key

/-- What is bound at each stage. -/
def texts (read : Reader) (b : BoundShaders) (stage : ShaderStage) : Option BoundText :=
  (b.get stage).map (T.textOf read)

/-- The pair that the chain answers for two texts. -/
def pairHost (held : ShaderCacheKey → Option GcnShader) (texts : ShaderStage → Option BoundText) :
    Option (HostShader × HostShader) :=
  ((texts .vertex).bind (T.host held)).bind fun v =>
    ((texts .pixel).bind (T.host (T.learn held (texts .vertex)))).map fun f => (v,f)

def pairLearn (held : ShaderCacheKey → Option GcnShader) (texts : ShaderStage → Option BoundText) :
    ShaderCacheKey → Option GcnShader :=
  T.learn (T.learn held (texts .vertex)) (texts .pixel)

variable {T} {p : GcnShaderProvider}

lemma recompileSb_toOption (p : GcnShaderProvider) (r : GcnRef) (sb : SbShader) :
    (p.recompileSb T.recompiler r sb).toOption = T.compile (T.parsedText p.read r sb) := by
  cases hstage : recompileStage sb.stage with
  | none => simp [GcnShaderProvider.recompileSb, compile, parsedText, hstage, Except.toOption]
  | some stage =>
    cases hcode : readCodeWords p.read sb.codeStart sb.codeEnd with
    | none =>
      simp [GcnShaderProvider.recompileSb, compile, parsedText, hstage, hcode, Except.toOption]
    | some code =>
      have hsame : T.recompiler.recompile code (T.recompiler.fetched p.read r) stage r.psInputMap =
          T.recompiler.recompile code (if hasFetchCall (T.recompiler.decodeAll code) then
            T.recompiler.fetched p.read r else none) stage r.psInputMap :=
        T.recompiler.recompile_congr (fun hcall => by simp [hcall]) stage r.psInputMap
      rw [GcnShaderProvider.recompileSb_eq hstage hcode, hsame]
      simp only [compile, parsedText, hstage, hcode, Option.any_some, ShaderCacheKey.fromSb,
        Option.bind_eq_bind, Option.bind_some]
      cases T.recompiler.recompile code _ stage r.psInputMap <;> rfl

lemma learn_binary (held : ShaderCacheKey → Option GcnShader) (t : ShaderText) (key : ShaderCacheKey) :
    T.learn held (some (.binary (some t))) key =
      (held key <|> if t.key = key then T.compile t else none) := rfl

/-- A resolve answers from the cache or with the text's recompile, which the cache then holds. -/
lemma resolveRef_spec (p : GcnShaderProvider) (b : Option ShaderRef) :
    (T.resolveRef p b).1 = (b.map (T.textOf p.read)).bind (T.host (served p.cache)) ∧
      served (T.resolveRef p b).2.cache = T.learn (served p.cache) (b.map (T.textOf p.read)) ∧
      (T.resolveRef p b).2.read = p.read := by
  rcases b with _ | ⟨stage,id⟩ | r
  · exact ⟨rfl,rfl,rfl⟩
  · exact ⟨rfl,rfl,rfl⟩
  · simp only [resolveRef, Option.map_some, textOf, Option.bind_some, host, binaryText]
    unfold GcnShaderProvider.resolve
    cases hparse : parseSb p.read r.addr with
    | error e => exact ⟨rfl,rfl,rfl⟩
    | ok sb =>
      have hcompile := recompileSb_toOption (T := T) p r sb
      have hkey : (T.parsedText p.read r sb).key = .fromSb sb r.psInputMap := rfl
      simp only [Except.toOption, Option.map_some, Option.bind_some, hkey, served] at hcompile ⊢
      cases hlook : p.cache.lookup (.fromSb sb r.psInputMap) with
      | some entry =>
        refine ⟨by simp,funext fun key => ?_,rfl⟩
        rw [learn_binary, hkey]
        split_ifs with heq
        · subst heq
          simp [served, hlook]
        · simp [served]
      | none =>
        cases hrec : p.recompileSb T.recompiler r sb with
        | error e =>
          simp only [hrec] at hcompile
          refine ⟨by simp [← hcompile],funext fun key => ?_,rfl⟩
          rw [learn_binary, ← hcompile]
          simp [served]
        | ok host =>
          simp only [hrec] at hcompile
          refine ⟨by simp [← hcompile],funext fun key => ?_,rfl⟩
          rw [learn_binary, hkey, ← hcompile]
          simp only [served, List.lookup_cons]
          by_cases heq : key = .fromSb sb r.psInputMap
          · subst heq
            simp [hlook]
          · rw [beq_eq_false_iff_ne.mpr heq, if_neg (Ne.symm heq)]
            simp

/-- The pair that a draw gets follows from what the cache answers with and the two texts. -/
lemma resolvePair_spec (p : GcnShaderProvider) (b : BoundShaders) :
    (T.resolvePair p b).1 = T.pairHost (served p.cache) (T.texts p.read b) ∧
      served (T.resolvePair p b).2.cache = T.pairLearn (served p.cache) (T.texts p.read b) := by
  obtain ⟨hvs,hlearnt,hread⟩ := resolveRef_spec (T := T) p b.vs
  obtain ⟨hps,hlearnt',-⟩ := resolveRef_spec (T := T) (T.resolveRef p b.vs).2 b.ps
  rw [hread, hlearnt] at hps hlearnt'
  exact ⟨by rw [resolvePair, hvs, hps]; rfl,hlearnt'⟩

section Learnt

variable {held held' : ShaderCacheKey → Option GcnShader} {texts : ShaderStage → Option BoundText}
  {key : ShaderCacheKey} {host : GcnShader}

/-- What a cache answers with, it goes on answering with. -/
lemma learn_held (h : held key = some host) (b : Option BoundText) :
    T.learn held b key = some host := by
  rcases b with _ | ⟨stage,id⟩ | _ | t <;> simp [learn, h]

/-- A new answer is the recompile of a text that was resolved. -/
lemma learn_new {b : Option BoundText} (h : T.learn held b key = some host) :
    held key = some host ∨ ∃ t, b = some (.binary (some t)) ∧ t.key = key ∧ T.compile t = some host := by
  rcases b with _ | ⟨stage,id⟩ | _ | t
  · exact .inl h
  · exact .inl h
  · exact .inl h
  · rw [learn_binary] at h
    cases hat : held key with
    | some x => exact .inl (by simpa [hat] using h)
    | none =>
      rw [hat] at h
      split_ifs at h with hkey
      · exact .inr ⟨t,rfl,hkey,by simpa using h⟩
      · cases h

lemma pairLearn_new (h : T.pairLearn held texts key = some host) (hnone : held key = none) :
    ∃ stage t, texts stage = some (.binary (some t)) ∧ t.key = key ∧ T.compile t = some host := by
  rcases learn_new h with h | ⟨t,ht,hkey,hcompile⟩
  · rcases learn_new h with h | ⟨t,ht,hkey,hcompile⟩
    · rw [hnone] at h
      cases h
    · exact ⟨.vertex,t,ht,hkey,hcompile⟩
  · exact ⟨.pixel,t,ht,hkey,hcompile⟩

/-- A cache that has learnt the answer gives it. -/
lemma host_learnt {b : Option BoundText} {x : HostShader} (hx : b.bind (T.host held) = some x)
    (hlearnt : ∀ key host, T.learn held b key = some host → held' key = some host) :
    b.bind (T.host held') = some x := by
  rcases b with _ | ⟨stage,id⟩ | _ | t
  · cases hx
  · exact hx
  · cases hx
  · simp only [Option.bind_some, host] at hx ⊢
    obtain ⟨shader,hshader,rfl⟩ := Option.map_eq_some_iff.mp hx
    have hat := hlearnt t.key shader (by rw [learn_binary, if_pos rfl]; exact hshader)
    simp [hat]

lemma pairHost_learnt {pair : HostShader × HostShader} (hpair : T.pairHost held texts = some pair)
    (hlearnt : ∀ key host, T.pairLearn held texts key = some host → held' key = some host) :
    T.pairHost held' texts = some pair := by
  obtain ⟨v,hv,hpair⟩ := Option.bind_eq_some_iff.mp hpair
  obtain ⟨f,hf,rfl⟩ := Option.map_eq_some_iff.mp hpair
  have hv' : (texts .vertex).bind (T.host held') = some v :=
    host_learnt hv fun key host h => hlearnt key host (learn_held h _)
  have hf' : (texts .pixel).bind (T.host (T.learn held' (texts .vertex))) = some f :=
    host_learnt hf fun key host h => learn_held (hlearnt key host h) _
  rw [pairHost, hv', hf']
  rfl

end Learnt

section Beyond

variable {held held' x : ShaderCacheKey → Option GcnShader}

/-- Two caches of which the second also answers with `x`: unless the shader would be another,
both give the same answer and differ as before. -/
lemma learn_beyond (hheld : ∀ key, held' key = (held key <|> x key)) {b : Option BoundText}
    (hb : ∀ t host, b = some (.binary (some t)) → held t.key = none → x t.key = some host →
      T.compile t = some host) :
    b.bind (T.host held') = b.bind (T.host held) ∧
      ∀ key, T.learn held' b key = (T.learn held b key <|> x key) := by
  rcases b with _ | ⟨stage,id⟩ | _ | t
  · exact ⟨rfl,hheld⟩
  · exact ⟨rfl,hheld⟩
  · exact ⟨rfl,hheld⟩
  · have hanswer : (held' t.key <|> T.compile t) = (held t.key <|> T.compile t) := by
      rw [hheld]
      cases hat : held t.key with
      | some host => rfl
      | none =>
        cases hx : x t.key with
        | none => rfl
        | some host => simp [hb t host rfl hat hx]
    refine ⟨by simp only [host, Option.bind_some, hanswer],fun key => ?_⟩
    simp only [learn_binary]
    split_ifs with heq
    · subst heq
      rw [hanswer]
      cases hat : held t.key with
      | some host => rfl
      | none =>
        cases hx : x t.key with
        | none => simp
        | some host => simp [hb t host rfl hat hx]
    · simp [hheld]

lemma pairLearn_beyond (hheld : ∀ key, held' key = (held key <|> x key))
    {texts : ShaderStage → Option BoundText} (htexts : ∀ stage t host,
      texts stage = some (.binary (some t)) → held t.key = none → x t.key = some host →
        T.compile t = some host) :
    T.pairHost held' texts = T.pairHost held texts ∧
      ∀ key, T.pairLearn held' texts key = (T.pairLearn held texts key <|> x key) := by
  obtain ⟨hvs,hlearnt⟩ := learn_beyond hheld (htexts .vertex)
  have hpixel : ∀ t host, texts .pixel = some (.binary (some t)) →
      T.learn held (texts .vertex) t.key = none → x t.key = some host → T.compile t = some host := by
    intro t host ht hnone
    refine htexts .pixel t host ht ?_
    cases hat : held t.key with
    | none => rfl
    | some y =>
      rw [learn_held hat] at hnone
      cases hnone
  obtain ⟨hps,hlearnt'⟩ := learn_beyond hlearnt hpixel
  exact ⟨by rw [pairHost, pairHost, hvs, hps],hlearnt'⟩

end Beyond

end Toolchain

end Unemups4.Gnm

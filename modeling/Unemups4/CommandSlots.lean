import Unemups4.BindOrder

/-! The slots of a command arena. The guest hands each builder a slot of its arena and advances
by the dwords it reserved, whether the builder filled them or not; a slot left open shows the
decoder what an earlier frame left there. -/
namespace Unemups4.Gnm
open Gcn

/-- What a shader-set builder writes at the cursor of its slot. -/
def emitIntoCmdbuf (reserved : BitVec 32) (pm4 : List Dword) : List Dword :=
  if reserved.toNat ≠ 0 ∧ reserved.toNat < pm4.length then [] else padToReserved pm4 reserved

/-- What a draw builder writes; an absurd reservation is dropped. -/
def emitDrawIntoCmdbuf (reserved : BitVec 32) (pm4 : List Dword) : List Dword :=
  if reserved.toNat ≠ 0 ∧ reserved.toNat < pm4.length then []
  else if reserved.toNat > maxDrawReservedDwords then []
  else padToReserved pm4 reserved

namespace Driver

/-- The write of a builder is what its command buffer grows by. -/
lemma emitIntoCmdbuf_buffers (d : Driver) (b : ℕ) (size : BitVec 32) (pm4 : List Dword) :
    (d.emitIntoCmdbuf ⟨some b,size⟩ pm4).buffers b = d.buffers b ++ Gnm.emitIntoCmdbuf size pm4 := by
  have hzero : size ≠ 0 ↔ size.toNat ≠ 0 := by
    rw [ne_eq, ← BitVec.toNat_inj]
    rfl
  unfold emitIntoCmdbuf Gnm.emitIntoCmdbuf
  simp only [hzero]
  split_ifs <;> simp

lemma emitDrawIntoCmdbuf_buffers (d : Driver) (b : ℕ) (size : BitVec 32) (pm4 : List Dword) :
    (d.emitDrawIntoCmdbuf ⟨some b,size⟩ pm4).buffers b =
      d.buffers b ++ Gnm.emitDrawIntoCmdbuf size pm4 := by
  have h := emitIntoCmdbuf_buffers d b size pm4
  unfold emitDrawIntoCmdbuf Gnm.emitDrawIntoCmdbuf
  unfold Gnm.emitIntoCmdbuf at h
  split_ifs at h ⊢ <;> simp_all

end Driver

/-- The builders that take a slot, with what they emit from; a register block that cannot be
read is none. -/
inductive Builder where
  | drawIndexAuto (indexCount : Dword)
  | drawIndexOffset (indexOffset indexCount : Dword)
  | drawIndex (indexCount : Dword) (indexAddr : ℕ)
  | dispatchDirect (threadsX threadsY threadsZ : Dword)
  | setVsShader (regs : Option (List Dword))
  | setPsShader (regs : Option (List Dword))
  | setPsShader350 (regs : Option (List Dword))
  | updatePsShader350 (regs : Option (List Dword))
  | updateVsShader (regs : Option (List Dword))
  | setEmbeddedVsShader (id : Dword)
  | setEmbeddedPsShader (id : Dword)
  | setCsShader
  | setEsShader
  | setGsShader
  | setHsShader
  | setLsShader
  | drawInitDefaultHardwareState
  | drawInitDefaultHardwareState175
  | drawInitDefaultHardwareState200
  | drawInitDefaultHardwareState350
  | drawInitToDefaultContextState
  | drawInitToDefaultContextState400
  | dispatchInitDefaultHardwareState
  | insertPushMarker
  | insertPopMarker
  | insertWaitFlipDone

namespace Builder

/-- The packets emitted into the slot, and whether as a draw; most builders emit none. -/
def emits : Builder → Option (Bool × List Dword)
  | drawIndexAuto count => some (true,Gnm.drawIndexAuto count)
  | drawIndexOffset offset count => some (true,Gnm.drawIndexOffset offset count)
  | setVsShader regs | updateVsShader regs => regs.map fun regs => (false,Gnm.setVsShader regs)
  | setPsShader regs | setPsShader350 regs | updatePsShader350 regs =>
      regs.map fun regs => (false,Gnm.setPsShader regs)
  | _ => none

end Builder

structure BuilderCall where
  builder : Builder
  reserved : BitVec 32

namespace BuilderCall

variable (c : BuilderCall)

/-- The dwords written from the cursor on. -/
def words : List Dword :=
  match c.builder.emits with
  | none => []
  | some (true,pm4) => emitDrawIntoCmdbuf c.reserved pm4
  | some (false,pm4) => emitIntoCmdbuf c.reserved pm4

/-- The packets the call emitted, none if it wrote nothing. -/
def emitted : List Pm4Packet :=
  if c.words = [] then [] else
    match c.builder.emits with
    | none => []
    | some (_,pm4) => decode pm4

end BuilderCall

/-- The builder that a driver call runs, with what the guest reserved for it. -/
def Call.builds : Call → BuilderCall
  | .setEmbeddedVsShader slot id => ⟨.setEmbeddedVsShader (BitVec.ofNat 32 id),slot.size⟩
  | .setEmbeddedPsShader slot id => ⟨.setEmbeddedPsShader (BitVec.ofNat 32 id),slot.size⟩
  | .setVsShader slot regs => ⟨.setVsShader regs,slot.size⟩
  | .setPsShader slot regs => ⟨.setPsShader regs,slot.size⟩
  | .setPsShader350 slot regs => ⟨.setPsShader350 regs,slot.size⟩
  | .updatePsShader350 slot regs => ⟨.updatePsShader350 regs,slot.size⟩
  | .updateVsShader slot regs => ⟨.updateVsShader regs,slot.size⟩
  | .drawIndexAuto slot count => ⟨.drawIndexAuto count,slot.size⟩
  | .drawIndexOffset slot offset count => ⟨.drawIndexOffset offset count,slot.size⟩

def Call.slot : Call → CmdSlot
  | .setEmbeddedVsShader slot _ | .setEmbeddedPsShader slot _ | .setVsShader slot _
  | .setPsShader slot _ | .setPsShader350 slot _ | .updatePsShader350 slot _
  | .updateVsShader slot _ | .drawIndexAuto slot _ | .drawIndexOffset slot _ _ => slot

namespace Driver

lemma setShader_buffers (d : Driver) (stage : ShaderStage) (emit : List Dword → List Dword) (b : ℕ)
    (size : BitVec 32) (regs : List Dword) :
    (d.setShader stage emit ⟨some b,size⟩ (some regs)).buffers b =
      d.buffers b ++ Gnm.emitIntoCmdbuf size (emit regs) :=
  emitIntoCmdbuf_buffers _ b size (emit regs)

/-- A command buffer grows by the words of the calls that are given a slot of it. -/
theorem call_buffers (d : Driver) (c : Call) {b : ℕ} (hb : c.slot.cmdbuf = some b) :
    (d.call c).buffers b = d.buffers b ++ c.builds.words := by
  cases c with
  | drawIndexAuto slot count =>
    obtain ⟨_,size⟩ := slot
    obtain rfl := hb
    exact d.emitDrawIntoCmdbuf_buffers b size _
  | drawIndexOffset slot offset count =>
    obtain ⟨_,size⟩ := slot
    obtain rfl := hb
    exact d.emitDrawIntoCmdbuf_buffers b size _
  | setEmbeddedVsShader slot id | setEmbeddedPsShader slot id => exact (List.append_nil _).symm
  | setVsShader slot regs | setPsShader slot regs | setPsShader350 slot regs
  | updatePsShader350 slot regs | updateVsShader slot regs =>
    obtain ⟨_,size⟩ := slot
    obtain rfl := hb
    cases regs with
    | none => exact (List.append_nil _).symm
    | some regs => exact d.setShader_buffers _ _ b size regs

end Driver

/-- The arena by dwords; its cursor is never null. -/
abbrev Arena := ℕ → Dword

namespace Arena

def lay (mem : Arena) (cursor : ℕ) (words : List Dword) : Arena := fun addr =>
  if cursor ≤ addr then words.getD (addr-cursor) (mem addr) else mem addr

def range (mem : Arena) (cursor n : ℕ) : List Dword := (List.range n).map fun i => mem (cursor+i)

/-- Each builder writes at the cursor, which then advances by what was reserved. -/
def build (mem : Arena) (cursor : ℕ) : List BuilderCall → Arena
  | [] => mem
  | c :: cs => (mem.lay cursor c.words).build (cursor+c.reserved.toNat) cs

def total (calls : List BuilderCall) : ℕ := (calls.map fun c => c.reserved.toNat).sum

/-- The built range as the decoder finds it. -/
def built (mem : Arena) (cursor : ℕ) (calls : List BuilderCall) : List Dword :=
  (mem.build cursor calls).range cursor (total calls)

end Arena

def Pm4Packet.isNop : Pm4Packet → Bool
  | .type2 => true
  | .type3 opcode _ _ => opcode = itNop
  | _ => false

/-- The packets of the calls in order, with nothing but no operations after each. -/
inductive Laid : List BuilderCall → List Pm4Packet → Prop
  | nil : Laid [] []
  | cons {c : BuilderCall} {calls : List BuilderCall} {fill rest : List Pm4Packet} :
      (∀ packet ∈ fill, packet.isNop) → Laid calls rest →
      Laid (c :: calls) (c.emitted ++ fill ++ rest)

/-- Whatever the arena held, the built range decodes to just what was emitted, and no builder
writes outside its slot. -/
def BuildsClean (calls : List BuilderCall) : Prop :=
  (∀ (mem : Arena) (cursor : ℕ), Laid calls (decode (mem.built cursor calls))) ∧
    ∀ c ∈ calls, ∀ (mem : Arena) (cursor addr : ℕ),
      addr < cursor ∨ cursor+c.reserved.toNat ≤ addr → mem.lay cursor c.words addr = mem addr

/-- The slot is for a builder that emits, holds what it emits and is not wider than the
builder pads; a builder that emits nothing is given none. -/
def BuilderCall.Fits (c : BuilderCall) : Prop :=
  match c.builder.emits with
  | none => c.reserved.toNat = 0
  | some (true,pm4) => pm4.length ≤ c.reserved.toNat ∧ c.reserved.toNat ≤ maxDrawReservedDwords
  | some (false,pm4) => pm4.length ≤ c.reserved.toNat ∧ c.reserved.toNat ≤ pm4.length+maxNopFillDwords

/-- The packets a builder may leave in its slot. -/
def Pm4Packet.isBuilt : Pm4Packet → Bool
  | .type2 => true
  | .type3 opcode _ _ => opcode = itNop ∨ opcode = RegBank.sh.opcode ∨
      opcode = RegBank.context.opcode ∨ opcode = itDrawIndexAuto ∨ opcode = itDrawIndexOffset2
  | _ => false

/-- Words of which every packet is one a builder leaves. -/
def Built (words : List Dword) : Prop :=
  1 ≤ words.length ∧ ∀ packet ∈ decode words, packet.isBuilt

lemma Built.complete {words : List Dword} (h : Built words) : Complete words := by
  intro packet hp
  have hbuilt := h.2 packet hp
  cases packet <;> first | rfl | cases hbuilt

lemma built_emitShaderSet {runs : List RegRun} (hlen : ∀ r ∈ runs, r.values.length ≤ 0x3fff)
    (hbank : ∀ r ∈ runs, r.bank = .sh ∨ r.bank = .context) : Built (emitShaderSet runs) := by
  refine ⟨by simp [emitShaderSet]; omega,fun packet hp => ?_⟩
  rw [emitShaderSet, decode_runs runs hlen, List.mem_append] at hp
  rcases hp with hp | hp
  · obtain ⟨r,hr,rfl⟩ := List.mem_map.mp hp
    rcases hbank r hr with hbank | hbank <;> simp [RegRun.packet, Pm4Packet.isBuilt, hbank]
  · have hfill : ∀ packet ∈ decode (t3Header itNop nopDataBlock :: List.replicate nopDataBlock 0),
        packet.isBuilt := by
      decide
    exact hfill packet hp

lemma built_type3 (opcode : BitVec 8) (body : List Dword) (h1 : 1 ≤ body.length)
    (h2 : body.length ≤ 0x3fff+1) (hbuilt : (Pm4Packet.type3 opcode body.length body).isBuilt) :
    Built (t3Header opcode body.length :: body) := by
  refine ⟨by simp,fun packet hp => ?_⟩
  have h : decode (t3Header opcode body.length :: (body ++ [])) = _ := decode_type3 h1 h2 []
  rw [List.append_nil, decode_nil] at h
  rw [h, List.mem_singleton] at hp
  rwa [hp]

lemma built_setVsShader (regs : List Dword) : Built (setVsShader regs) :=
  built_emitShaderSet (by simp [vsRuns, RegRun.run]) (by simp [vsRuns, RegRun.run])

lemma built_setPsShader (regs : List Dword) : Built (setPsShader regs) :=
  built_emitShaderSet (by simp [psRuns, RegRun.run]) (by simp [psRuns, RegRun.run])

lemma built_drawIndexAuto (count : Dword) : Built (drawIndexAuto count) :=
  built_type3 itDrawIndexAuto [count,0] (by simp) (by simp) rfl

lemma built_drawIndexOffset (offset count : Dword) : Built (drawIndexOffset offset count) :=
  built_type3 itDrawIndexOffset2 [_,offset,count,0] (by simp) (by simp) rfl

lemma Builder.built_emits {b : Builder} {draw : Bool} {pm4 : List Dword}
    (h : b.emits = some (draw,pm4)) : Built pm4 := by
  cases b <;> simp only [emits, Option.map_eq_some_iff, Prod.mk.injEq, Option.some.injEq,
    reduceCtorEq] at h
  case drawIndexAuto count =>
    obtain ⟨-,rfl⟩ := h
    exact built_drawIndexAuto count
  case drawIndexOffset offset count =>
    obtain ⟨-,rfl⟩ := h
    exact built_drawIndexOffset offset count
  case setVsShader | updateVsShader =>
    obtain ⟨regs,-,-,rfl⟩ := h
    exact built_setVsShader regs
  all_goals
    obtain ⟨regs,-,-,rfl⟩ := h
    exact built_setPsShader regs

namespace BuilderCall

variable (c : BuilderCall)

lemma length_padToReserved {pm4 : List Dword} (hp : Complete pm4) (reserved : BitVec 32) :
    (padToReserved pm4 reserved).length =
      if pm4.length ≤ reserved.toNat ∧ reserved.toNat ≤ pm4.length+maxNopFillDwords then
        reserved.toNat
      else pm4.length := by
  obtain ⟨hfits,hkeeps⟩ := decode_padToReserved hp reserved []
  split_ifs with hfit
  · exact (hfits ⟨hfit.1,by omega⟩).1
  · rw [hkeeps (by omega)]

/-- The slots that fit are the ones filled to the last dword. -/
lemma fits_iff : c.Fits ↔ c.words.length = c.reserved.toNat := by
  unfold Fits words
  cases hemits : c.builder.emits with
  | none => simp [eq_comm]
  | some emitted =>
    obtain ⟨draw,pm4⟩ := emitted
    have hbuilt := Builder.built_emits hemits
    have hlen := hbuilt.1
    have hpad := length_padToReserved hbuilt.complete c.reserved
    have hempty : ([] : List Dword).length = 0 := rfl
    cases draw with
    | false =>
      simp only [emitIntoCmdbuf]
      split_ifs at hpad ⊢ <;> omega
    | true =>
      simp only [emitDrawIntoCmdbuf]
      have hcap : maxDrawReservedDwords ≤ maxNopFillDwords := by decide
      split_ifs at hpad ⊢ <;> omega

/-- A builder never writes part of its packets. -/
lemma words_cases : c.words = [] ∨ ∃ draw pm4, c.builder.emits = some (draw,pm4) ∧
    c.words = padToReserved pm4 c.reserved := by
  unfold words
  cases hemits : c.builder.emits with
  | none => exact .inl rfl
  | some emitted =>
    obtain ⟨draw,pm4⟩ := emitted
    cases draw with
    | false =>
      simp only [emitIntoCmdbuf]
      split_ifs
      · exact .inl rfl
      · exact .inr ⟨false,pm4,rfl,rfl⟩
    | true =>
      simp only [emitDrawIntoCmdbuf]
      split_ifs
      · exact .inl rfl
      · exact .inl rfl
      · exact .inr ⟨true,pm4,rfl,rfl⟩

/-- What is written decodes to what was emitted and the no operations of the padding. -/
lemma decode_words (s : List Dword) : ∃ fill : List Pm4Packet, (∀ packet ∈ fill, packet.isNop) ∧
    decode (c.words ++ s) = c.emitted ++ fill ++ decode s := by
  rcases c.words_cases with hwords | ⟨draw,pm4,hemits,hwords⟩
  · exact ⟨[],by simp,by simp [emitted, hwords]⟩
  · have hbuilt := Builder.built_emits hemits
    obtain ⟨hfits,hkeeps⟩ := decode_padToReserved hbuilt.complete c.reserved s
    have hpad := length_padToReserved hbuilt.complete c.reserved
    have hne : padToReserved pm4 c.reserved ≠ [] := by
      intro hnil
      have hlen := hbuilt.1
      rw [hnil, List.length_nil] at hpad
      split_ifs at hpad <;> omega
    have hemitted : c.emitted = decode pm4 := by
      rw [emitted, if_neg (hwords ▸ hne), hemits]
    by_cases hfit : pm4.length ≤ c.reserved.toNat ∧ c.reserved.toNat-pm4.length ≤ maxNopFillDwords
    · refine ⟨_,?_,by rw [hwords, hemitted]; exact (hfits hfit).2⟩
      intro packet hp
      split_ifs at hp with hfull
      · exact absurd hp List.not_mem_nil
      · rw [List.mem_singleton.mp hp, filler]
        split_ifs <;> rfl
    · refine ⟨[],by simp,?_⟩
      rw [hwords, hkeeps hfit, decode_append hbuilt.complete, hemitted, List.append_nil]

lemma emitted_built {packet : Pm4Packet} (hp : packet ∈ c.emitted) : packet.isBuilt := by
  unfold emitted at hp
  split_ifs at hp with hwords
  · exact absurd hp List.not_mem_nil
  · cases hemits : c.builder.emits with
    | none => simp [hemits] at hp
    | some emitted =>
      rw [hemits] at hp
      exact (Builder.built_emits hemits).2 packet hp

end BuilderCall

lemma isBuilt_of_isNop {packet : Pm4Packet} (h : packet.isNop) : packet.isBuilt := by
  cases packet with
  | type3 opcode count body =>
    have hop : opcode = itNop := by simpa [Pm4Packet.isNop] using h
    simp [Pm4Packet.isBuilt, hop]
  | type2 => rfl
  | type0 baseIndex count body => cases h
  | truncated header => cases h

lemma Laid.built {calls : List BuilderCall} {packets : List Pm4Packet} (h : Laid calls packets) :
    ∀ packet ∈ packets, packet.isBuilt := by
  induction h with
  | nil => simp
  | @cons c calls fill rest hfill _ ih =>
    intro packet hp
    rw [List.mem_append, List.mem_append] at hp
    rcases hp with (hp | hp) | hp
    · exact c.emitted_built hp
    · exact isBuilt_of_isNop (hfill packet hp)
    · exact ih packet hp

namespace Arena

variable (mem : Arena)

lemma lay_of_lt {cursor addr : ℕ} (words : List Dword) (h : addr < cursor) :
    mem.lay cursor words addr = mem addr :=
  if_neg (by omega)

lemma lay_of_le {cursor addr : ℕ} (words : List Dword) (h : cursor+words.length ≤ addr) :
    mem.lay cursor words addr = mem addr := by
  unfold lay
  split_ifs
  · exact List.getD_eq_default _ _ (by omega)
  · rfl

lemma range_add (cursor m n : ℕ) :
    mem.range cursor (m+n) = mem.range cursor m ++ mem.range (cursor+m) n := by
  simp only [range, List.range_add, List.map_append, List.map_map, Function.comp_def, add_assoc]

lemma range_lay (cursor : ℕ) (words : List Dword) :
    (mem.lay cursor words).range cursor words.length = words := by
  refine List.ext_getElem (by simp [range]) fun i hi hi' => ?_
  simp [range, lay, hi']

lemma range_congr {mem mem' : Arena} {cursor n : ℕ}
    (h : ∀ addr, cursor ≤ addr → addr < cursor+n → mem addr = mem' addr) :
    mem.range cursor n = mem'.range cursor n :=
  List.map_congr_left fun i hi => h _ (by omega) (by rw [List.mem_range] at hi; omega)

/-- No builder writes below its cursor. -/
lemma build_of_lt (calls : List BuilderCall) {cursor addr : ℕ} (h : addr < cursor) :
    mem.build cursor calls addr = mem addr := by
  induction calls generalizing mem cursor with
  | nil => rfl
  | cons c calls ih => rw [build, ih _ (by omega), lay_of_lt _ _ h]

/-- A builder that stays in its slot leaves what it did not fill as it was. -/
lemma built_cons {c : BuilderCall} (calls : List BuilderCall) (cursor : ℕ)
    (h : c.words.length ≤ c.reserved.toNat) :
    mem.built cursor (c :: calls) = c.words ++
      mem.range (cursor+c.words.length) (c.reserved.toNat-c.words.length) ++
      (mem.lay cursor c.words).built (cursor+c.reserved.toNat) calls := by
  have htotal : total (c :: calls) = c.reserved.toNat+total calls := by simp [total]
  have hslot : c.reserved.toNat = c.words.length+(c.reserved.toNat-c.words.length) := by omega
  have hfilled : (mem.build cursor (c :: calls)).range cursor c.reserved.toNat =
      (mem.lay cursor c.words).range cursor c.reserved.toNat :=
    range_congr fun addr _ hlt => build_of_lt _ _ hlt
  have hopen : (mem.lay cursor c.words).range (cursor+c.words.length)
      (c.reserved.toNat-c.words.length) =
      mem.range (cursor+c.words.length) (c.reserved.toNat-c.words.length) :=
    range_congr fun addr hle _ => lay_of_le _ _ hle
  rw [built, htotal, range_add, hfilled, hslot, range_add, range_lay, hopen, ← hslot]
  rfl

end Arena

/-- The first packet of an arena of ones is none a builder leaves. -/
lemma decode_ones (tail : List Dword) :
    ∃ packet ∈ decode (BitVec.allOnes 32 :: tail), packet.isBuilt = false := by
  have hstep (packet : Pm4Packet) (d : Decoder)
      (hnext : (⟨BitVec.allOnes 32 :: tail,false⟩ : Decoder).next = some (packet,d)) :
      packet ∈ decode (BitVec.allOnes 32 :: tail) := by
    rw [decode, Decoder.collect, hnext]
    exact List.mem_cons_self
  have htype : headerType (BitVec.allOnes 32) = .type3 := by decide
  have hnext : (⟨BitVec.allOnes 32 :: tail,false⟩ : Decoder).next =
      if tail.length < bodyLen (BitVec.allOnes 32) then
        some (.truncated (BitVec.allOnes 32),⟨BitVec.allOnes 32 :: tail,true⟩)
      else some (bodied (BitVec.allOnes 32) (tail.take (bodyLen (BitVec.allOnes 32))),
        ⟨tail.drop (bodyLen (BitVec.allOnes 32)),false⟩) := by
    simp only [Decoder.next, htype, reduceCtorEq, Bool.false_eq_true, if_false, false_or]
  split_ifs at hnext
  · exact ⟨_,hstep _ _ hnext,rfl⟩
  · refine ⟨_,hstep _ _ hnext,?_⟩
    rw [bodied, htype]
    rfl

/-- In an arena of ones an open slot shows. -/
lemma built_ones {calls : List BuilderCall} {c : BuilderCall} (hc : c ∈ calls) (hfits : ¬c.Fits)
    (hstays : ∀ c ∈ calls, c.words.length ≤ c.reserved.toNat) (mem : Arena) (cursor : ℕ)
    (hones : ∀ addr, cursor ≤ addr → mem addr = BitVec.allOnes 32) :
    ∃ packet ∈ decode (mem.built cursor calls), packet.isBuilt = false := by
  induction calls generalizing mem cursor with
  | nil => cases hc
  | cons c' calls ih =>
    have hle := hstays c' List.mem_cons_self
    rw [Arena.built_cons mem calls cursor hle, List.append_assoc]
    obtain ⟨fill,-,hdecode⟩ := c'.decode_words
      (mem.range (cursor+c'.words.length) (c'.reserved.toNat-c'.words.length) ++
        (mem.lay cursor c'.words).built (cursor+c'.reserved.toNat) calls)
    rw [hdecode, List.append_assoc]
    by_cases hfits' : c'.Fits
    · have hfull := c'.fits_iff.mp hfits'
      have hmem : c ∈ calls := by
        rcases List.mem_cons.mp hc with rfl | hc
        · exact absurd hfits' hfits
        · exact hc
      obtain ⟨packet,hp,hforeign⟩ := ih hmem (fun k hk => hstays k (List.mem_cons_of_mem _ hk))
        (mem.lay cursor c'.words) (cursor+c'.reserved.toNat) fun addr haddr => by
          rw [Arena.lay_of_le mem _ (by omega)]
          exact hones addr (by omega)
      refine ⟨packet,List.mem_append_right _ (List.mem_append_right _ ?_),hforeign⟩
      rwa [hfull, Nat.sub_self, Arena.range, List.range_zero, List.map_nil, List.nil_append]
    · have hopen : c'.words.length ≠ c'.reserved.toNat := fun h => hfits' (c'.fits_iff.mpr h)
      obtain ⟨gap,hgap⟩ : ∃ gap, c'.reserved.toNat-c'.words.length = 1+gap :=
        ⟨c'.reserved.toNat-c'.words.length-1,by omega⟩
      have hfirst : mem.range (cursor+c'.words.length) 1 = [BitVec.allOnes 32] := by
        simp [Arena.range, hones (cursor+c'.words.length) (by omega)]
      rw [hgap, Arena.range_add, hfirst, List.append_assoc, List.singleton_append]
      obtain ⟨packet,hp,hforeign⟩ := decode_ones
        (mem.range (cursor+c'.words.length+1) gap ++
          (mem.lay cursor c'.words).built (cursor+c'.reserved.toNat) calls)
      exact ⟨packet,List.mem_append_right _ (List.mem_append_right _ hp),hforeign⟩

/-- A builder that writes past its slot changes what follows it. -/
lemma length_of_stays {c : BuilderCall} (h : ∀ (mem : Arena) (cursor addr : ℕ),
    addr < cursor ∨ cursor+c.reserved.toNat ≤ addr → mem.lay cursor c.words addr = mem addr) :
    c.words.length ≤ c.reserved.toNat := by
  by_contra hlen
  push Not at hlen
  have hpast := h (fun _ => c.words.getD c.reserved.toNat 0+1) 0 c.reserved.toNat (.inr (by omega))
  rw [Arena.lay, if_pos (Nat.zero_le _), Nat.sub_zero, List.getD_eq_getElem _ _ hlen,
    List.getD_eq_getElem _ _ hlen] at hpast
  exact absurd (left_eq_add.mp hpast) (by decide)

lemma built_fits {calls : List BuilderCall} (h : ∀ c ∈ calls, c.Fits) (mem : Arena) (cursor : ℕ) :
    Laid calls (decode (mem.built cursor calls)) := by
  induction calls generalizing mem cursor with
  | nil => exact .nil
  | cons c calls ih =>
    have hfull := c.fits_iff.mp (h c List.mem_cons_self)
    obtain ⟨fill,hfill,hdecode⟩ := c.decode_words
      ((mem.lay cursor c.words).built (cursor+c.reserved.toNat) calls)
    have hopen : mem.range (cursor+c.words.length) 0 = [] := rfl
    rw [Arena.built_cons mem calls cursor hfull.le, hfull, Nat.sub_self, ← hfull, hopen,
      List.append_nil, hfull, hdecode]
    exact .cons hfill (ih (fun k hk => h k (List.mem_cons_of_mem _ hk)) _ _)

/-- The slots are clean when each of them fits its builder. -/
theorem buildsClean_iff_fits (calls : List BuilderCall) :
    BuildsClean calls ↔ ∀ c ∈ calls, c.Fits := by
  constructor
  · rintro ⟨hlaid,hstays⟩ c hc
    by_contra hfits
    obtain ⟨packet,hp,hforeign⟩ := built_ones hc hfits (fun k hk => length_of_stays (hstays k hk))
      (fun _ => BitVec.allOnes 32) 0 fun _ _ => rfl
    have hbuilt := (hlaid _ 0).built packet hp
    rw [hforeign] at hbuilt
    cases hbuilt
  · intro h
    refine ⟨built_fits h,fun c hc mem cursor addr haddr => ?_⟩
    have hfull := c.fits_iff.mp (h c hc)
    rcases haddr with haddr | haddr
    · exact mem.lay_of_lt _ haddr
    · exact mem.lay_of_le _ (by omega)

/-- A marker in a slot of three dwords over an arena of ones. -/
theorem not_buildsClean : ¬∀ calls : List BuilderCall, BuildsClean calls := by
  intro h
  obtain ⟨hlaid,-⟩ := h [⟨.insertPushMarker,3⟩]
  have hbuilt := (hlaid (fun _ => BitVec.allOnes 32) 0).built (.truncated (BitVec.allOnes 32))
    (by decide)
  cases hbuilt

end Unemups4.Gnm

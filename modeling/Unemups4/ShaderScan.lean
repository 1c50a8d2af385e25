import Unemups4.Checksums
import Unemups4.ShaderBinary

/-! What the scan for a shader header finds. Windows shrink where the mapping ends and overlap
by less than a magic, so that no position is passed over, and each header that does not describe
the code is left behind by one byte. -/
namespace Unemups4.Gnm.ShaderBinary
open Fallible Checksums

variable {g : GuestBytes} {codeStart : ℕ}

/-- The number of a stage in a header; no stage has six. -/
def SbStage.mType : SbStage → ℕ
  | pixel => 0
  | vertex => 1
  | exportStage => 2
  | localStage => 3
  | compute => 4
  | geometry => 5
  | hull => 7
  | domain => 8

def MagicAt (g : GuestBytes) (a : ℕ) : Prop := g.window a 7 = orbshdrMagic

/-- The little-endian number of some bytes. -/
def numberAt (g : GuestBytes) (a len : ℕ) : ℕ := ofLe (g.window a len)

/-- The bytes at `h` are the header `info`: the magic, a stage that there is, and the fields where
they are stored. -/
structure HeaderAt (g : GuestBytes) (h : ℕ) (info : ShaderBinaryInfo) : Prop where
  magic : MagicAt g h
  stage : info.stage.mType = numberAt g (h+8) 1/4%16
  codeLen : info.codeLen = numberAt g (h+9) 3
  shaderHash0 : info.shaderHash0.toNat = numberAt g (h+16) 4
  shaderHash1 : info.shaderHash1.toNat = numberAt g (h+20) 4
  crc32 : info.crc32.toNat = numberAt g (h+24) 4

/-- A header at `h` that describes the code from `codeStart` on. -/
structure ValidHeader (g : GuestBytes) (codeStart h : ℕ) (sb : SbShader) : Prop where
  header : HeaderAt g h sb.info
  stage : sb.stage = sb.info.stage
  start : sb.codeStart = codeStart
  length : sb.codeEnd = codeStart+sb.info.codeLen
  footer : sb.codeEnd ≤ h ∧ h ≤ sb.codeEnd+maxFooterGap
  code : codeStart+4 ≤ sb.codeEnd
  endpgm : g.window (sb.codeEnd-4) 4 = [0x00,0x00,0x81,0xbf]

section Header

lemma fromMType_iff {n : ℕ} {stage : SbStage} : SbStage.fromMType n = .ok stage ↔ stage.mType = n := by
  constructor
  · intro h
    unfold SbStage.fromMType at h
    split at h <;> cases h <;> rfl
  · rintro rfl
    cases stage <;> rfl

lemma word_toNat (a b c d : UInt8) : (word [a,b,c,d] 0).toNat = ofLe [a,b,c,d] := by
  have ha := a.toNat_lt
  have hb := b.toNat_lt
  have hc := c.toNat_lt
  have hd := d.toNat_lt
  have hor : ∀ x y k : ℕ, x < 2^k → x ||| y <<< k = x+y*2^k := by
    intro x y k hx
    rw [Nat.or_comm, ← Nat.shiftLeft_add_eq_or_of_lt hx, Nat.shiftLeft_eq, Nat.add_comm]
  have hshift : ∀ x k : ℕ, x*2^k < 2^32 → x <<< k % 2^32 = x <<< k := by
    intro x k hx
    rw [Nat.shiftLeft_eq, Nat.mod_eq_of_lt hx]
  have h8 : (8 : UInt32).toNat % 32 = 8 := rfl
  have h16 : (16 : UInt32).toNat % 32 = 16 := rfl
  have h24 : (24 : UInt32).toNat % 32 = 24 := rfl
  simp only [word, List.getD_cons_zero, List.getD_cons_succ, UInt32.toNat_or, UInt32.toNat_shiftLeft,
    UInt8.toNat_toUInt32, Nat.zero_add]
  rw [h8, h16, h24, hshift _ 8 (by omega), hshift _ 16 (by omega), hshift _ 24 (by omega),
    hor _ _ 8 (by omega), hor _ _ 16 (by omega), hor _ _ 24 (by omega)]
  simp only [ofLe, ofBe, List.reverse_cons, List.reverse_nil, List.nil_append, List.cons_append,
    List.foldl_cons, List.foldl_nil]
  omega

/-- A word of a window is the number that its bytes are. -/
lemma word_window {h n offset : ℕ} (hle : offset+4 ≤ n) :
    (word (g.window h n) offset).toNat = numberAt g (h+offset) 4 := by
  have hbyte : ∀ i < 4, (g.window h n).getD (offset+i) 0 = (g.window (h+offset) 4).getD i 0 := by
    intro i hi
    rw [← GuestBytes.take_drop_window hle, List.getD_eq_getElem?_getD, List.getD_eq_getElem?_getD,
      List.getElem?_take_of_lt hi, List.getElem?_drop]
  have hword : word (g.window h n) offset = word (g.window (h+offset) 4) 0 := by
    simp only [word, hbyte 0 (by decide), hbyte 1 (by decide), hbyte 2 (by decide),
      hbyte 3 (by decide), Nat.zero_add]
  rw [hword]
  exact word_toNat _ _ _ _

/-- The first byte of a word, and the other three. -/
lemma numberAt_split (g : GuestBytes) (a : ℕ) :
    numberAt g a 4 = numberAt g a 1+256*numberAt g (a+1) 3 := by
  simp only [numberAt, GuestBytes.window, List.range_succ, List.range_zero, List.nil_append,
    List.cons_append, List.map_cons, List.map_nil, ofLe, ofBe, List.reverse_cons, List.reverse_nil,
    List.foldl_cons, List.foldl_nil, Nat.add_zero]
  have h1 : a+1+1 = a+2 := rfl
  have h2 : a+1+2 = a+3 := rfl
  rw [h1, h2]
  omega

lemma numberAt_one_lt (g : GuestBytes) (a : ℕ) : numberAt g a 1 < 256 := by
  have hbyte := (g.byte a).toNat_lt
  simpa [numberAt, GuestBytes.window, ofLe, ofBe] using hbyte

/-- The fields of the word behind the magic. -/
lemma word_fields (g : GuestBytes) (h : ℕ) :
    ((word (g.window h shaderBinaryInfoSize) 8 >>> 2) &&& 0xf).toNat = numberAt g (h+8) 1/4%16 ∧
      (word (g.window h shaderBinaryInfoSize) 8 >>> 8).toNat = numberAt g (h+9) 3 := by
  have hword := word_window (g := g) (h := h) (by decide : 8+4 ≤ shaderBinaryInfoSize)
  have hsplit := numberAt_split g (h+8)
  have hlow := numberAt_one_lt g (h+8)
  have hand : ∀ n : ℕ, n &&& 15 = n%16 := fun n => Nat.and_two_pow_sub_one_eq_mod n 4
  rw [UInt32.toNat_and, UInt32.toNat_shiftRight, UInt32.toNat_shiftRight, hword, hsplit,
    Nat.shiftRight_eq_div_pow, Nat.shiftRight_eq_div_pow]
  have h2 : (2 : UInt32).toNat % 32 = 2 := rfl
  have h8 : (8 : UInt32).toNat % 32 = 8 := rfl
  have hf : (0xf : UInt32).toNat = 15 := rfl
  have hnext : h+8+1 = h+9 := rfl
  rw [h2, h8, hf, hand, hnext]
  omega

/-- The parser accepts the headers. -/
lemma parse_iff {h : ℕ} {info : ShaderBinaryInfo} :
    ShaderBinaryInfo.parse (g.window h shaderBinaryInfoSize) = .ok info ↔ HeaderAt g h info := by
  have hlen : ¬(g.window h shaderBinaryInfoSize).length < shaderBinaryInfoSize := by
    rw [GuestBytes.length_window]
    exact lt_irrefl _
  have htake : (g.window h shaderBinaryInfoSize).take 7 = g.window h 7 := by
    have hdrop : ((g.window h shaderBinaryInfoSize).drop 0).take 7 = g.window (h+0) 7 :=
      GuestBytes.take_drop_window (by decide)
    rwa [List.drop_zero] at hdrop
  obtain ⟨hstage,hcodeLen⟩ := word_fields g h
  have hword : ∀ offset, offset+4 ≤ shaderBinaryInfoSize →
      (word (g.window h shaderBinaryInfoSize) offset).toNat = numberAt g (h+offset) 4 :=
    fun offset hle => word_window hle
  rw [ShaderBinaryInfo.parse, if_neg hlen, htake]
  constructor
  · intro hparse
    split_ifs at hparse with hmagic
    obtain ⟨stage,hok,hparse⟩ := bind_eq_ok.mp hparse
    cases hparse
    refine ⟨not_not.mp hmagic,?_,hcodeLen,hword 16 (by decide),hword 20 (by decide),
      hword 24 (by decide)⟩
    rw [← hstage]
    exact fromMType_iff.mp hok
  · rintro ⟨hmagic,hs,hc,h0,h1,hcrc⟩
    have hfound : g.window h 7 = orbshdrMagic := hmagic
    rw [if_neg (not_not.mpr hfound)]
    refine bind_eq_ok.mpr ⟨info.stage,fromMType_iff.mpr (hs.trans hstage.symm),?_⟩
    obtain ⟨stage,codeLen,shaderHash0,shaderHash1,crc⟩ := info
    dsimp only at hc h0 h1 hcrc
    rw [hc, ← hcodeLen]
    have e0 := UInt32.toNat_inj.mp (h0.trans (hword 16 (by decide)).symm)
    have e1 := UInt32.toNat_inj.mp (h1.trans (hword 20 (by decide)).symm)
    have e2 := UInt32.toNat_inj.mp (hcrc.trans (hword 24 (by decide)).symm)
    rw [e0, e1, e2]
    rfl

/-- Bytes are what their number says. -/
lemma window_eq_iff {a : ℕ} {bytes : Bytes} (hlen : bytes.length = 4) :
    g.window a 4 = bytes ↔ numberAt g a 4 = ofLe bytes := by
  constructor
  · intro hbytes
    rw [numberAt, hbytes]
  · intro hnumber
    obtain ⟨b0,b1,b2,b3,rfl⟩ := List.length_eq_four.mp hlen
    simp only [numberAt, GuestBytes.window, List.range_succ, List.range_zero, List.nil_append,
      List.cons_append, List.map_cons, List.map_nil, ofLe, ofBe, List.reverse_cons, List.reverse_nil,
      List.foldl_cons, List.foldl_nil] at hnumber ⊢
    have h0 := (g.byte (a+0)).toNat_lt
    have h1 := (g.byte (a+1)).toNat_lt
    have h2 := (g.byte (a+2)).toNat_lt
    have h3 := (g.byte (a+3)).toNat_lt
    have k0 := b0.toNat_lt
    have k1 := b1.toNat_lt
    have k2 := b2.toNat_lt
    have k3 := b3.toNat_lt
    rw [UInt8.toNat_inj.mp (by omega : (g.byte (a+0)).toNat = b0.toNat),
      UInt8.toNat_inj.mp (by omega : (g.byte (a+1)).toNat = b1.toNat),
      UInt8.toNat_inj.mp (by omega : (g.byte (a+2)).toNat = b2.toNat),
      UInt8.toNat_inj.mp (by omega : (g.byte (a+3)).toNat = b3.toNat)]

/-- The word of an end of program by its bytes. -/
lemma endpgm_iff {a : ℕ} : word (g.window a 4) 0 = sEndpgm ↔ g.window a 4 = [0x00,0x00,0x81,0xbf] := by
  have hvalue : (word (g.window a 4) 0).toNat = numberAt g a 4 := word_window le_rfl
  have hnumber : sEndpgm.toNat = ofLe [0x00,0x00,0x81,0xbf] := by decide
  rw [window_eq_iff rfl, ← hnumber, ← hvalue, UInt32.toNat_inj]

end Header

lemma readRanged_of_mapped {addr len : ℕ} (h : g.Mapped addr len) :
    g.readRanged addr len = some (g.window addr len) := if_pos h

lemma readRanged_eq_some {addr len : ℕ} {bytes : Bytes} (h : g.readRanged addr len = some bytes) :
    g.Mapped addr len ∧ bytes = g.window addr len := by
  unfold GuestBytes.readRanged at h
  split_ifs at h with hmapped
  exact ⟨hmapped,(Option.some.inj h).symm⟩

namespace ValidHeader

variable {h : ℕ} {sb : SbShader}

lemma magic (hv : ValidHeader g codeStart h sb) : MagicAt g h := hv.header.magic

lemma le (hv : ValidHeader g codeStart h sb) : codeStart+4 ≤ h := hv.code.trans hv.footer.1

end ValidHeader

lemma elim_eq_ok {α ε : Type} {o : Option α} {e : ε} {a : α} :
    o.elim (.error e) Except.ok = .ok a ↔ o = some a := by
  cases o <;> simp

/-- A candidate is accepted if and only if it is valid and can be read. -/
lemma validateSbCandidate_iff {h : ℕ} {sb : SbShader} (hle : codeStart ≤ h)
    (hcode : g.Mapped codeStart (h-codeStart)) :
    validateSbCandidate g.readRanged codeStart h = .ok sb ↔
      g.Mapped h shaderBinaryInfoSize ∧ ValidHeader g codeStart h sb := by
  constructor
  · intro hok
    have hrange := validateSbCandidate_range hok
    unfold validateSbCandidate at hok
    obtain ⟨raw,hraw,hok⟩ := bind_eq_ok.mp hok
    obtain ⟨info,hinfo,hok⟩ := bind_eq_ok.mp hok
    simp only at hok
    split_ifs at hok with hbad
    obtain ⟨tail,htail,hok⟩ := bind_eq_ok.mp hok
    split_ifs at hok with hend
    cases hok
    obtain ⟨hmapped,rfl⟩ := readRanged_eq_some (elim_eq_ok.mp hraw)
    obtain ⟨-,rfl⟩ := readRanged_eq_some (elim_eq_ok.mp htail)
    simp only [not_or, not_lt] at hbad
    rw [not_not] at hend
    exact ⟨hmapped,parse_iff.mp hinfo,rfl,rfl,rfl,⟨hbad.2.1,by grind⟩,hbad.2.2.2,endpgm_iff.mp hend⟩
  · rintro ⟨hmapped,hv⟩
    -- The code lies below the header, so that its last dword is mapped.
    have htail : g.Mapped (sb.codeEnd-4) 4 := by
      intro i hi
      have hbyte := hcode (sb.codeEnd-4-codeStart+i)
        (by have := hv.code; have := hv.footer.1; omega)
      rwa [show codeStart+(sb.codeEnd-4-codeStart+i) = sb.codeEnd-4+i by
        have := hv.code; omega] at hbyte
    have hword : sb.codeEnd ≤ u64Max := by
      have hlast := g.isWord _ (hmapped 0 (by decide))
      have hfooter := hv.footer.1
      unfold u64Max
      omega
    have hfooter := hv.footer
    have hcodeEnd := hv.code
    have hendpgm := endpgm_iff.mpr hv.endpgm
    rw [hv.length] at hword hfooter hcodeEnd hendpgm htail
    have hgood : ¬ (codeStart+sb.info.codeLen > u64Max ∨ h < codeStart+sb.info.codeLen ∨
        h-(codeStart+sb.info.codeLen) > maxFooterGap ∨
        codeStart+sb.info.codeLen < codeStart+4) := by omega
    have hresult : (⟨sb.info.stage,codeStart,codeStart+sb.info.codeLen,sb.info⟩ : SbShader) = sb := by
      rw [← hv.length, ← hv.stage]
      conv_lhs => rw [← hv.start]
    unfold validateSbCandidate
    refine bind_eq_ok.mpr ⟨_,elim_eq_ok.mpr (readRanged_of_mapped hmapped),
      bind_eq_ok.mpr ⟨_,parse_iff.mpr hv.header,?_⟩⟩
    simp only [if_neg hgood]
    refine bind_eq_ok.mpr ⟨_,elim_eq_ok.mpr (readRanged_of_mapped htail),?_⟩
    rw [if_neg (not_not.mpr hendpgm), hresult]
    rfl

/-- A read that shrinks returns what is mapped, and the floor at least. -/
lemma readShrinking_some {addr floor fuel len : ℕ} {bytes : Bytes} (hfloor : floor ≤ len)
    (h : readShrinking g.readRanged addr floor fuel len = some bytes) :
    ∃ n, floor ≤ n ∧ g.Mapped addr n ∧ bytes = g.window addr n := by
  induction fuel generalizing len with
  | zero => simp [readShrinking] at h
  | succ fuel ih =>
    simp only [readShrinking] at h
    split at h
    next bytes' hread =>
      obtain rfl := Option.some.inj h
      exact ⟨len,hfloor,readRanged_eq_some hread⟩
    next =>
      split_ifs at h
      exact ih (le_max_right _ _) h

/-- Only where not even the floor is mapped does it give up. -/
lemma readShrinking_none {addr floor fuel len : ℕ} (hpos : 0 < floor) (hfloor : floor ≤ len)
    (hfuel : len ≤ fuel) (h : readShrinking g.readRanged addr floor fuel len = none) :
    ¬ g.Mapped addr floor := by
  induction fuel generalizing len with
  | zero => omega
  | succ fuel ih =>
    simp only [readShrinking] at h
    split at h
    next => simp at h
    next hread =>
      split_ifs at h with hlen
      · obtain rfl : len = floor := le_antisymm hlen hfloor
        intro hmapped
        simp [readRanged_of_mapped hmapped] at hread
      · exact ih (le_max_right _ _) (by omega) h

/-- The first magic of a window. -/
lemma findMagic_some {addr len i : ℕ} (h : findMagic (g.window addr len) = some i) :
    i+7 ≤ len ∧ MagicAt g (addr+i) ∧ ∀ j < i, ¬ MagicAt g (addr+j) := by
  simp only [findMagic, List.find?_range_eq_some, GuestBytes.length_window, List.mem_range,
    decide_eq_true_eq, Bool.not_eq_true', decide_eq_false_iff_not] at h
  obtain ⟨hmagic,hlt,hbefore⟩ := h
  have hpiece : ∀ j ≤ i, ((g.window addr len).drop j).take 7 = g.window (addr+j) 7 :=
    fun j hj => GuestBytes.take_drop_window (by omega)
  refine ⟨by omega,(hpiece i le_rfl).symm.trans hmagic,fun j hj hat => ?_⟩
  exact hbefore j hj ((hpiece j hj.le).trans hat)

lemma findMagic_none {addr len : ℕ} (h : findMagic (g.window addr len) = none) {j : ℕ}
    (hj : j+7 ≤ len) : ¬ MagicAt g (addr+j) := by
  simp only [findMagic, List.find?_range_eq_none, GuestBytes.length_window,
    Bool.not_eq_true', decide_eq_false_iff_not] at h
  intro hat
  exact h j (by omega) ((GuestBytes.take_drop_window hj).trans hat)

/-- One window, read as far as the memory is mapped. -/
lemma readShrinking_window (addr : ℕ) {floor len : ℕ} (hpos : 0 < floor) (hfloor : floor ≤ len) :
    (readShrinking g.readRanged addr floor len len = none ∧ ¬ g.Mapped addr floor) ∨
      ∃ n, floor ≤ n ∧ g.Mapped addr n ∧
        readShrinking g.readRanged addr floor len len = some (g.window addr n) := by
  cases hread : readShrinking g.readRanged addr floor len len with
  | none => exact .inl ⟨rfl,readShrinking_none hpos hfloor le_rfl hread⟩
  | some bytes =>
    obtain ⟨n,hn,hmapped,rfl⟩ := readShrinking_some hfloor hread
    exact .inr ⟨n,hn,hmapped,rfl⟩

/-- Past the bound, or where not even a magic can be read, nothing is found. -/
lemma scanForMagic_stuck {fuel offset : ℕ}
    (h : maxScanBytes ≤ offset ∨ ¬ g.Mapped (codeStart+offset) 7) :
    scanForMagic g.readRanged codeStart fuel offset = none := by
  cases fuel with
  | zero => rfl
  | succ fuel =>
    rw [scanForMagic]
    split_ifs with hbound
    · rfl
    · rcases readShrinking_window (g := g) (codeStart+offset) (by decide : 0 < 7)
        (by decide : 7 ≤ 4102) with ⟨hread,-⟩ | ⟨n,hn,hmapped,-⟩
      · rw [hread]
      · rw [not_or, not_le] at hbound
        exact absurd (hmapped.mono hn) (h.resolve_left (by omega))

/-- A window without a magic moves the scan on by all positions that it could hold one at, and
those are passed. -/
lemma scanForMagic_step (fuel : ℕ) {offset : ℕ} (hoffset : offset < maxScanBytes)
    (hmapped : g.Mapped (codeStart+offset) 7) :
    (∃ i, scanForMagic g.readRanged codeStart (fuel+1) offset = some (codeStart+offset+i) ∧
      g.Mapped (codeStart+offset) (i+7) ∧ MagicAt g (codeStart+offset+i) ∧
      ∀ j < i, ¬ MagicAt g (codeStart+offset+j)) ∨
    ∃ step, 0 < step ∧ scanForMagic g.readRanged codeStart (fuel+1) offset =
        scanForMagic g.readRanged codeStart fuel (offset+step) ∧
      g.Mapped (codeStart+offset) step ∧ ∀ j < step, ¬ MagicAt g (codeStart+offset+j) := by
  have hword : codeStart+offset ≤ u64Max := by
    have := g.isWord _ (hmapped 0 (by decide))
    unfold u64Max
    omega
  have hbound : ¬ (maxScanBytes ≤ offset ∨ codeStart+offset > u64Max) := by omega
  rcases readShrinking_window (g := g) (codeStart+offset) (by decide : 0 < 7)
    (by decide : 7 ≤ 4102) with ⟨-,hnot⟩ | ⟨n,hn,hwindow,hread⟩
  · exact absurd hmapped hnot
  · rw [scanForMagic, if_neg hbound, hread]
    cases hfind : findMagic (g.window (codeStart+offset) n) with
    | some i =>
      obtain ⟨hi,hmagic,hbefore⟩ := findMagic_some hfind
      exact .inl ⟨i,by simp only [hfind],hwindow.mono hi,hmagic,hbefore⟩
    | none =>
      refine .inr ⟨n-6,by omega,?_,hwindow.mono (Nat.sub_le _ _),
        fun j hj => findMagic_none hfind (by omega)⟩
      simp only [hfind, GuestBytes.length_window]

/-- What is found is the first magic, and all before it is mapped. -/
lemma scanForMagic_some {fuel offset a : ℕ}
    (h : scanForMagic g.readRanged codeStart fuel offset = some a) :
    codeStart+offset ≤ a ∧ g.Mapped (codeStart+offset) (a+7-(codeStart+offset)) ∧ MagicAt g a ∧
      ∀ p < a, codeStart+offset ≤ p → ¬ MagicAt g p := by
  induction fuel generalizing offset with
  | zero => simp [scanForMagic] at h
  | succ fuel ih =>
    by_cases hstuck : maxScanBytes ≤ offset ∨ ¬ g.Mapped (codeStart+offset) 7
    · simp [scanForMagic_stuck hstuck] at h
    simp only [not_or, not_le, not_not] at hstuck
    rcases scanForMagic_step fuel hstuck.1 hstuck.2 with
      ⟨i,hscan,hmapped,hmagic,hbefore⟩ | ⟨step,hpos,hscan,hmapped,hbefore⟩
    · obtain rfl := Option.some.inj (hscan.symm.trans h)
      refine ⟨Nat.le_add_right _ _,hmapped.mono (by omega),hmagic,fun p hp hle => ?_⟩
      have := hbefore (p-(codeStart+offset)) (by omega)
      rwa [Nat.add_sub_cancel' hle] at this
    · obtain ⟨hle,hrest,hmagic,hfirst⟩ := ih (hscan.symm.trans h)
      refine ⟨by omega,?_,hmagic,fun p hp hp' => ?_⟩
      · rw [← Nat.add_assoc] at hrest
        exact (hmapped.append hrest le_rfl).mono (by omega)
      · rcases lt_or_ge p (codeStart+(offset+step)) with hlt | hge
        · have := hbefore (p-(codeStart+offset)) (by omega)
          rwa [Nat.add_sub_cancel' hp'] at this
        · exact hfirst p hp hge

/-- A scan that finds nothing has passed over no magic that can be read. -/
lemma scanForMagic_none {fuel offset p : ℕ} (hfuel : maxScanBytes ≤ fuel+offset)
    (h : scanForMagic g.readRanged codeStart fuel offset = none) (hp : codeStart+offset ≤ p)
    (hlt : p < codeStart+maxScanBytes)
    (hmapped : g.Mapped (codeStart+offset) (p+7-(codeStart+offset))) : ¬ MagicAt g p := by
  induction fuel generalizing offset with
  | zero => omega
  | succ fuel ih =>
    rcases scanForMagic_step fuel (by omega : offset < maxScanBytes)
      (hmapped.mono (by omega)) with ⟨i,hscan,-⟩ | ⟨step,hpos,hscan,-,hbefore⟩
    · simp [hscan] at h
    · rcases lt_or_ge p (codeStart+(offset+step)) with hlt' | hge
      · have := hbefore (p-(codeStart+offset)) (by omega)
        rwa [Nat.add_sub_cancel' hp] at this
      · refine ih (by omega) (hscan.symm.trans h) hge ?_
        rw [← Nat.add_assoc]
        refine GuestBytes.Mapped.drop (hmapped.mono (by omega))

/-- All bytes from the code through the header can be read. -/
def Reached (g : GuestBytes) (codeStart h : ℕ) : Prop :=
  g.Mapped codeStart (h+shaderBinaryInfoSize-codeStart)

/-- The valid header that lies before every other one. -/
structure FirstHeader (g : GuestBytes) (codeStart h : ℕ) (sb : SbShader) : Prop where
  valid : ValidHeader g codeStart h sb
  reached : Reached g codeStart h
  first : ∀ h' < h, ∀ sb', ¬ ValidHeader g codeStart h' sb'

lemma Reached.mono {h h' : ℕ} (hr : Reached g codeStart h) (hle : h' ≤ h) :
    Reached g codeStart h' := GuestBytes.Mapped.mono hr (by omega)

lemma Reached.mapped {h n : ℕ} (hr : Reached g codeStart h) (hn : codeStart+n ≤ h+28) :
    g.Mapped codeStart n :=
  GuestBytes.Mapped.mono hr (by unfold shaderBinaryInfoSize; omega)

/-- The scan has come to `codeStart+offset` and left no valid header behind that it could have
read. -/
structure Passed (g : GuestBytes) (codeStart offset : ℕ) : Prop where
  mapped : g.Mapped codeStart offset
  none : ∀ h < codeStart+offset, Reached g codeStart h → ∀ sb, ¬ ValidHeader g codeStart h sb

lemma passed_zero : Passed g codeStart 0 where
  mapped := fun i hi => absurd hi (Nat.not_lt_zero i)
  none := fun h hlt _ sb hv => by have := hv.le; omega

namespace Passed

variable {fuel offset a : ℕ}

/-- The scan leaves no valid header behind on its way to the next magic. -/
lemma before (hp : Passed g codeStart offset)
    (hscan : scanForMagic g.readRanged codeStart fuel offset = some a) {h : ℕ} (hlt : h < a)
    (hreach : Reached g codeStart h) (sb : SbShader) : ¬ ValidHeader g codeStart h sb := by
  intro hv
  rcases lt_or_ge h (codeStart+offset) with hbehind | hahead
  · exact hp.none h hbehind hreach sb hv
  · exact (scanForMagic_some hscan).2.2.2 h hlt hahead hv.magic

lemma mapped_magic (hp : Passed g codeStart offset)
    (hscan : scanForMagic g.readRanged codeStart fuel offset = some a) :
    g.Mapped codeStart (a+7-codeStart) := by
  obtain ⟨hle,hmapped,-⟩ := scanForMagic_some hscan
  exact (hp.mapped.append hmapped le_rfl).mono (by omega)

/-- An accepted candidate is the first valid header. -/
lemma accept (hp : Passed g codeStart offset)
    (hscan : scanForMagic g.readRanged codeStart fuel offset = some a) {sb : SbShader}
    (hok : validateSbCandidate g.readRanged codeStart a = .ok sb) :
    FirstHeader g codeStart a sb := by
  have hle := (scanForMagic_some hscan).1
  have hcode := hp.mapped_magic hscan
  obtain ⟨hheader,hv⟩ :=
    (validateSbCandidate_iff (by omega) (hcode.mono (by omega))).mp hok
  have hreach : Reached g codeStart a := by
    have hstart : codeStart+(a-codeStart) = a := by omega
    rw [← hstart] at hheader
    exact ((hcode.mono (by omega)).append hheader le_rfl).mono (by omega)
  exact ⟨hv,hreach,fun h hlt sb' hv' => hp.before hscan hlt (hreach.mono hlt.le) sb' hv'⟩

/-- A rejected candidate is passed by one byte. -/
lemma reject (hp : Passed g codeStart offset)
    (hscan : scanForMagic g.readRanged codeStart fuel offset = some a) {e : SbParseError}
    (herr : validateSbCandidate g.readRanged codeStart a = .error e) :
    Passed g codeStart (a-codeStart+1) := by
  have hle := (scanForMagic_some hscan).1
  have hcode := hp.mapped_magic hscan
  refine ⟨hcode.mono (by omega),fun h hlt hreach sb hv => ?_⟩
  rcases Nat.lt_or_eq_of_le (by omega : h ≤ a) with hbefore | rfl
  · exact hp.before hscan hbefore hreach sb hv
  · have hheader : g.Mapped h shaderBinaryInfoSize := by
      have hstart : codeStart+(h-codeStart) = h := by omega
      rw [← hstart]
      exact GuestBytes.Mapped.drop (hreach.mapped (by unfold shaderBinaryInfoSize; omega))
    have hok := (validateSbCandidate_iff (by omega) (hcode.mono (by omega))).mpr ⟨hheader,hv⟩
    simp [herr] at hok

end Passed

/-- The parser accepts the first valid header, or there is none within its bound. -/
lemma parseFrom_spec {fuel offset : ℕ} (last : SbParseError) (hp : Passed g codeStart offset)
    (hfuel : maxScanBytes ≤ fuel+offset) :
    (∃ h sb, FirstHeader g codeStart h sb ∧
      parseFrom g.readRanged codeStart fuel offset last = .ok sb) ∨
    (∃ e, parseFrom g.readRanged codeStart fuel offset last = .error e) ∧
      ∀ h < codeStart+maxScanBytes, Reached g codeStart h → ∀ sb, ¬ ValidHeader g codeStart h sb := by
  induction fuel generalizing offset last with
  | zero =>
    exact .inr ⟨⟨last,rfl⟩,fun h hlt hreach sb => hp.none h (by omega) hreach sb⟩
  | succ fuel ih =>
    rw [parseFrom]
    cases hscan : scanForMagic g.readRanged codeStart maxScanBytes offset with
    | none =>
      refine .inr ⟨⟨last,rfl⟩,fun h hlt hreach sb hv => ?_⟩
      rcases lt_or_ge h (codeStart+offset) with hbehind | hahead
      · exact hp.none h hbehind hreach sb hv
      · refine scanForMagic_none (by omega) hscan hahead hlt ?_ hv.magic
        exact GuestBytes.Mapped.drop (hreach.mapped (by omega))
    | some a =>
      cases hvalid : validateSbCandidate g.readRanged codeStart a with
      | ok sb => exact .inl ⟨a,sb,hp.accept hscan hvalid,by simp only [hvalid]⟩
      | error e =>
        simp only [hvalid]
        have hle := (scanForMagic_some hscan).1
        exact ih e (hp.reject hscan hvalid) (by omega)

/-- The loop of `readShrinking` as it runs; out of steps, it has no result. -/
def shrinkLoop (read : Reader) (addr floor : ℕ) : ℕ → ℕ → Option (Option Bytes)
  | 0, _ => none
  | steps+1, len =>
      match read addr len with
      | some bytes => some (some bytes)
      | none =>
          if len ≤ floor then some none
          else shrinkLoop read addr floor steps (max (len/2) floor)

/-- The loop of `scanForMagic` as it runs. -/
def scanLoop (read : Reader) (budget codeStart : ℕ) : ℕ → ℕ → Option (Option ℕ)
  | 0, _ => none
  | steps+1, offset =>
      if maxScanBytes ≤ offset ∨ codeStart+offset > u64Max then some none
      else do
        match ← shrinkLoop read (codeStart+offset) 7 budget 4102 with
        | none => return none
        | some bytes =>
            match findMagic bytes with
            | some i => return some (codeStart+offset+i)
            | none => scanLoop read budget codeStart steps (offset+(bytes.length-6))

/-- The loop of `parseSb` as it runs; each loop inside it has the budget of steps for itself. -/
def parseLoop (read : Reader) (budget codeStart : ℕ) :
    ℕ → ℕ → SbParseError → Option (Except SbParseError SbShader)
  | 0, _, _ => none
  | steps+1, offset, last => do
      match ← scanLoop read budget codeStart budget offset with
      | none => return .error last
      | some headerAddr =>
          match validateSbCandidate read codeStart headerAddr with
          | .ok shader => return .ok shader
          | .error e => parseLoop read budget codeStart steps (headerAddr-codeStart+1) e

/-- Every fault makes the window smaller. -/
lemma shrinkLoop_eq {read : Reader} {addr floor steps fuel len : ℕ} (hpos : 0 < floor)
    (hfloor : floor ≤ len) (hsteps : len ≤ steps) (hfuel : len ≤ fuel) :
    shrinkLoop read addr floor steps len = some (readShrinking read addr floor fuel len) := by
  induction steps generalizing fuel len with
  | zero => omega
  | succ steps ih =>
    obtain ⟨fuel,rfl⟩ : ∃ k, fuel = k+1 := ⟨fuel-1,by omega⟩
    rw [shrinkLoop, readShrinking]
    cases read addr len with
    | some bytes => rfl
    | none =>
      by_cases hlen : len ≤ floor
      · simp only [if_pos hlen]
      · simp only [if_neg hlen]
        exact ih (le_max_right _ _) (by omega) (by omega)

/-- Every window is behind the next one. -/
lemma scanLoop_eq {budget steps fuel offset : ℕ} (hbudget : 4102 ≤ budget) (hpos : 0 < steps)
    (hsteps : maxScanBytes < steps+offset) (hfuel : maxScanBytes ≤ fuel+offset) :
    scanLoop g.readRanged budget codeStart steps offset =
      some (scanForMagic g.readRanged codeStart fuel offset) := by
  induction steps generalizing fuel offset with
  | zero => omega
  | succ steps ih =>
    rw [scanLoop]
    by_cases hstuck : maxScanBytes ≤ offset ∨ codeStart+offset > u64Max
    · rw [if_pos hstuck]
      cases fuel with
      | zero => rfl
      | succ fuel => rw [scanForMagic, if_pos hstuck]
    · obtain ⟨fuel,rfl⟩ : ∃ k, fuel = k+1 := ⟨fuel-1,by omega⟩
      rw [scanForMagic, if_neg hstuck, if_neg hstuck,
        shrinkLoop_eq (by decide) (by decide) hbudget le_rfl]
      rcases readShrinking_window (g := g) (codeStart+offset) (by decide : 0 < 7)
        (by decide : 7 ≤ 4102) with ⟨hread,-⟩ | ⟨n,hn,-,hread⟩
      · rw [hread]
        rfl
      · rw [hread]
        cases hfind : findMagic (g.window (codeStart+offset) n) with
        | some i => simp [hfind]
        | none =>
          simp only [hfind, Option.bind_eq_bind, Option.bind_some, GuestBytes.length_window]
          exact ih (by omega) (by omega) (by omega)

/-- Every candidate is behind the next one. -/
lemma parseLoop_eq {budget steps fuel offset : ℕ} {last : SbParseError}
    (hbudget : maxScanBytes < budget) (hpos : 0 < steps) (hsteps : maxScanBytes < steps+offset)
    (hfuel : maxScanBytes ≤ fuel+offset) :
    parseLoop g.readRanged budget codeStart steps offset last =
      some (parseFrom g.readRanged codeStart fuel offset last) := by
  induction steps generalizing fuel offset last with
  | zero => omega
  | succ steps ih =>
    have hloop : scanLoop g.readRanged budget codeStart budget offset =
        some (scanForMagic g.readRanged codeStart maxScanBytes offset) :=
      scanLoop_eq (by unfold maxScanBytes at hbudget; omega) (by omega) (by omega) (by omega)
    rw [parseLoop, hloop]
    cases fuel with
    | zero =>
      rw [scanForMagic_stuck (.inl (by omega))]
      rfl
    | succ fuel =>
      rw [parseFrom]
      cases hscan : scanForMagic g.readRanged codeStart maxScanBytes offset with
      | none => rfl
      | some a =>
        have hle := (scanForMagic_some hscan).1
        have hlt : offset < maxScanBytes := by
          by_contra hge
          simp [scanForMagic_stuck (.inl (not_lt.mp hge))] at hscan
        simp only [Option.bind_eq_bind, Option.bind_some]
        cases validateSbCandidate g.readRanged codeStart a with
        | ok sb => rfl
        | error e => exact ih (by omega) (by omega) (by omega)

/-- The scan finds the first valid header wherever one can be reached, whatever stands before
it; it accepts nothing else, and its loops come to an end. -/
theorem parseSb_finds_first (g : GuestBytes) (codeStart : ℕ) :
    ((∃ h sb, ValidHeader g codeStart h sb ∧ Reached g codeStart h ∧
        h < codeStart+maxScanBytes) →
      ∃ h sb, FirstHeader g codeStart h sb ∧ parseSb g.readRanged codeStart = .ok sb) ∧
    (∀ sb, parseSb g.readRanged codeStart = .ok sb → ∃ h, FirstHeader g codeStart h sb) ∧
    ∀ steps, maxScanBytes < steps →
      parseLoop g.readRanged steps codeStart steps 0 .magicNotFound =
        some (parseSb g.readRanged codeStart) := by
  have hspec := parseFrom_spec .magicNotFound (passed_zero : Passed g codeStart 0)
    (le_refl maxScanBytes)
  refine ⟨?_,?_,fun steps hsteps => parseLoop_eq hsteps (by omega) (by omega) (by omega)⟩
  · rintro ⟨h,sb,hv,hreach,hlt⟩
    exact hspec.resolve_right fun hnone => hnone.2 h hlt hreach sb hv
  · intro sb hok
    rcases hspec with ⟨h,sb',hfirst,hok'⟩ | ⟨⟨e,herr⟩,-⟩
    · obtain rfl := Except.ok.inj (hok.symm.trans hok')
      exact ⟨h,hfirst⟩
    · exact absurd (hok.symm.trans herr) (by simp)

/-- A pixel shader of three words at 0x1000, its first two the magic itself, and its header. -/
def decoyBytes : Bytes :=
  orbshdrMagic ++ [0,0x00,0x00,0x81,0xbf] ++ orbshdrMagic ++
    [0,0,12,0,0,0,0,0,0,1,0,0,0,2,0,0,0,3,0,0,0]

def decoyMemory : GuestBytes where
  mapped a := 0x1000 ≤ a && a < 0x1000+decoyBytes.length
  byte a := decoyBytes.getD (a-0x1000) 0
  isWord a h := by
    have hlen : decoyBytes.length = 40 := rfl
    rw [hlen] at h
    simp only [Bool.and_eq_true, decide_eq_true_eq] at h
    omega

/-- The magic in the code is passed over, and the header behind it is found. -/
theorem parseSb_finds_first_second : MagicAt decoyMemory 0x1000 ∧
    ∃ sb, FirstHeader decoyMemory 0x1000 0x100c sb ∧
      parseSb decoyMemory.readRanged 0x1000 = .ok sb := by
  let sb : SbShader := ⟨.pixel,0x1000,0x100c,⟨.pixel,12,1,2,3⟩⟩
  have hheader : HeaderAt decoyMemory 0x100c sb.info :=
    ⟨rfl,by decide,by decide,by decide,by decide,by decide⟩
  have hvalid : ValidHeader decoyMemory 0x1000 0x100c sb :=
    ⟨hheader,rfl,rfl,rfl,by decide,by decide,by decide⟩
  have hreach : Reached decoyMemory 0x1000 0x100c := by
    unfold Reached
    decide
  obtain ⟨hfinds,-⟩ := parseSb_finds_first decoyMemory 0x1000
  obtain ⟨h,sb',hfirst,hok⟩ := hfinds ⟨0x100c,sb,hvalid,hreach,by decide⟩
  have hle : h ≤ 0x100c := by
    by_contra hlt
    exact hfirst.first 0x100c (not_le.mp hlt) sb hvalid
  have hge : 0x1004 ≤ h := hfirst.valid.code.trans hfirst.valid.footer.1
  -- Between the code and that header no other magic stands.
  have hmagic : decoyMemory.window h 7 = orbshdrMagic := hfirst.valid.header.magic
  have heq : h = 0x100c := by
    have hnone : ∀ i < 8, decoyMemory.window (0x1004+i) 7 ≠ orbshdrMagic := by decide
    by_contra hne
    have hat := hnone (h-0x1004) (by omega)
    rw [Nat.add_sub_cancel' hge] at hat
    exact hat hmagic
  subst heq
  exact ⟨rfl,sb',hfirst,hok⟩

end Unemups4.Gnm.ShaderBinary

import Unemups4.DescriptorFlow
import Unemups4.VertexFetch

/-! The T# and S# words a draw decodes for a sampler binding, against the registers the
interpreter holds when it reaches the sample. -/
namespace Unemups4.Gnm
open Gcn Fallible

/-- The 16 user-SGPR words of a stage. -/
abbrev UserData := Vector Word 16

namespace UserData

def slot (user : UserData) (n : ℕ) : Option Word := user[n]?

def ptrPair (user : UserData) (n : ℕ) : Option (BitVec 64) := do
  let lo ← slot user n
  let hi ← slot user (n+1)
  return lo.setWidth 64 ||| (hi.setWidth 64 <<< 32)

end UserData

structure TextureSlot where
  userSgpr : ℕ
  tOffset : ℕ
  sOffset : ℕ
  deriving DecidableEq, Repr

/-- `texture_slot_of`: the distance of the S# register is taken from the pointer's register. -/
def textureSlotOf (b : SamplerBinding) : Option TextureSlot :=
  let (userSgpr,tOffset) := match b.source with
    | .inlineVSharp sgpr => (sgpr,0)
    | .setPointer sgpr descOffset => (sgpr,descOffset)
  if b.sOffset < userSgpr then none
  else some ⟨userSgpr,tOffset,tOffset+(b.sOffset-userSgpr)*4⟩

/-- The 256-bit and the 128-bit descriptor as words. -/
structure TextureWords where
  texture : Vector Word 8
  sampler : Vector Word 4
  deriving DecidableEq

/-- `TextureDesc::is_null` of the decoded T#; its extents are never zero. -/
def textureIsNull (t : Vector Word 8) : Bool :=
  ((t[0].setWidth 64 <<< 8) ||| ((t[1] &&& 0xff#32).setWidth 64 <<< 40) : BitVec 64) = 0

/-- `read_ranged`, as words. -/
def readWords (g : GuestMemory) (addr : BitVec 64) (n : ℕ) : Option (Vector Word n) :=
  if g.readable addr (n*4) then
    some (Vector.ofFn fun i => readLeU32 (g.bytes addr (n*4)) (i.val*4))
  else none

/-- A null T# is refused. -/
def textureWords (t : Vector Word 8) (s : Vector Word 4) : Option TextureWords :=
  if textureIsNull t then none else some ⟨t,s⟩

def checkedAdd (a : BitVec 64) (n : ℕ) : Option (BitVec 64) :=
  if a.toNat+n < 2^64 then some (a+BitVec.ofNat 64 n) else none

/-- Both descriptors from the set a user-SGPR pair points at. -/
def deriveTexture (g : GuestMemory) (user : UserData) (slot : TextureSlot) : Option TextureWords := do
  let setPtr ← user.ptrPair slot.userSgpr
  if setPtr = 0 then failure
  let tAddr ← checkedAdd setPtr slot.tOffset
  let sAddr ← checkedAdd setPtr slot.sOffset
  let t ← readWords g tAddr 8
  let s ← readWords g sAddr 4
  textureWords t s

/-- Consecutive user-SGPR words. -/
def inlineWords (user : UserData) (n count : ℕ) : Option (Vector Word count) :=
  if n+count ≤ 16 then some (Vector.ofFn fun i => (user.slot (n+i.val)).getD 0) else none

/-- Both descriptors from the user SGPRs themselves. -/
def deriveTextureInline (user : UserData) (tSgpr sSgpr : ℕ) : Option TextureWords := do
  let t ← inlineWords user tSgpr 8
  let s ← inlineWords user sSgpr 4
  textureWords t s

def deriveTextureBinding (g : GuestMemory) (user : UserData) (b : SamplerBinding) :
    Option TextureWords :=
  match b.source with
  | .inlineVSharp sgpr => deriveTextureInline user sgpr b.sOffset
  | .setPointer _ _ => (textureSlotOf b).bind (deriveTexture g user)

/-- Instruction `k` samples through registers `srsrc` and `ssamp`, recorded with this binding. -/
def SampleAt (insts : List Decoded) (k srsrc ssamp : ℕ) (b : SamplerBinding) : Prop :=
  ∃ t t' op vdata vaddr dmask unrm off,
    LiveAt insts k (.mimg op vdata vaddr srsrc ssamp dmask unrm) ∧
    (DescriptorTables.new .pixel).emit (insts.take k) = .ok t ∧
    t.emitMimg op vdata vaddr srsrc ssamp dmask unrm off = .ok (t',b)

lemma SampleAt.binding_eq {insts : List Decoded} {k srsrc ssamp : ℕ} {b : SamplerBinding}
    (h : SampleAt insts k srsrc ssamp b) :
    b.source = resourceSource insts k srsrc ∧ b.sOffset = ssamp := by
  obtain ⟨t,t',op,vdata,vaddr,dmask,unrm,off,hlive,ht,hb⟩ := h
  obtain ⟨hsource,hsOffset,-⟩ := DescriptorTables.emitMimg_ok hb
  exact ⟨hsource.trans (texSource_eq hlive.1 ht srsrc),hsOffset⟩

lemma launch_slot (user : UserData) {n : ℕ} (hn : n < 16) :
    launchSgprs user.toList n = (user.slot n).getD 0 := by
  have hs : n < Gcn.numSgprs := by
    unfold Gcn.numSgprs
    omega
  simp [launchSgprs, hs, UserData.slot, hn]

lemma ptrPair_launch {user : UserData} {n : ℕ} {ptr : BitVec 64} (h : user.ptrPair n = some ptr) :
    ptr = pairPtr (launchSgprs user.toList) n := by
  obtain ⟨lo,hlo,h⟩ := Option.bind_eq_some_iff.mp h
  obtain ⟨hi,hhi,h⟩ := Option.bind_eq_some_iff.mp h
  have hn : n+1 < 16 := by
    by_contra hn
    simp [UserData.slot, hn] at hhi
  unfold pairPtr
  rw [launch_slot user (by omega), launch_slot user hn, hlo, hhi]
  exact (Option.some.inj h).symm

lemma checkedAdd_some {a b : BitVec 64} {n : ℕ} (h : checkedAdd a n = some b) :
    b = a+BitVec.ofNat 64 n := by
  unfold checkedAdd at h
  split_ifs at h
  exact (Option.some.inj h).symm

lemma readWords_get {g : GuestMemory} {addr : BitVec 64} {n : ℕ} {ws : Vector Word n}
    (h : readWords g addr n = some ws) (i : Fin n) : ws[i] = g.word (addr+BitVec.ofNat 64 (i*4)) := by
  unfold readWords at h
  split_ifs at h
  cases h
  have hi : i.val*4+4 ≤ n*4 := by omega
  simpa using g.readLeU32_bytes addr hi

lemma inlineWords_get {user : UserData} {n count : ℕ} {ws : Vector Word count}
    (h : inlineWords user n count = some ws) (i : Fin count) :
    ws[i] = launchSgprs user.toList (n+i) := by
  unfold inlineWords at h
  split_ifs at h with hn
  cases h
  rw [launch_slot user (by omega)]
  simp

lemma textureWords_some {t : Vector Word 8} {s : Vector Word 4} {r : TextureWords}
    (h : textureWords t s = some r) : r.texture = t ∧ r.sampler = s := by
  unfold textureWords at h
  split_ifs at h
  cases h
  exact ⟨rfl,rfl⟩

/-- Dword `i` of the S# in register `ssamp`, counted from the source of the T#. -/
def samplerOrigin (source : DescriptorSource) (ssamp i : ℕ) : Origin :=
  match source with
  | .inlineVSharp _ => .launch (ssamp+i)
  | .setPointer sgpr descOffset => .loaded sgpr (descOffset+(ssamp-sgpr)*4+i*4)

/-- The decoded S# holds the words its origin says. -/
lemma deriveTextureBinding_sampler {g : GuestMemory} {user : UserData} {b : SamplerBinding}
    {r : TextureWords} (h : deriveTextureBinding g user b = some r) (i : Fin 4) :
    (samplerOrigin b.source b.sOffset i).Holds g (launchSgprs user.toList) r.sampler[i] := by
  unfold deriveTextureBinding at h
  unfold samplerOrigin
  cases hsource : b.source with
  | inlineVSharp sgpr =>
    rw [hsource] at h
    obtain ⟨t,-,h⟩ := Option.bind_eq_some_iff.mp h
    obtain ⟨s,hs,h⟩ := Option.bind_eq_some_iff.mp h
    rw [(textureWords_some h).2]
    exact inlineWords_get hs i
  | setPointer sgpr descOffset =>
    rw [hsource] at h
    obtain ⟨slot,hslot,h⟩ := Option.bind_eq_some_iff.mp h
    simp only [textureSlotOf, hsource] at hslot
    split_ifs at hslot
    cases hslot
    obtain ⟨ptr,hptr,h⟩ := Option.bind_eq_some_iff.mp h
    dsimp only at h
    split_ifs at h
    · cases h
    · obtain ⟨tAddr,-,h⟩ := Option.bind_eq_some_iff.mp h
      obtain ⟨sAddr,hsAddr,h⟩ := Option.bind_eq_some_iff.mp h
      obtain ⟨t,-,h⟩ := Option.bind_eq_some_iff.mp h
      obtain ⟨s,hs,h⟩ := Option.bind_eq_some_iff.mp h
      rw [(textureWords_some h).2]
      have hword := readWords_get hs i
      rw [checkedAdd_some hsAddr, ptrPair_launch hptr] at hword
      simpa [Origin.Holds, BitVec.ofNat_add, add_assoc] using hword

/-- The S# a draw decodes is the one the registers of the sample hold, whatever the user data
and the memory. -/
def SamplersExact (F : FloatOps) (insts : List Decoded) : Prop :=
  ∀ g user k srsrc ssamp b r inputs baryI baryJ exec w, SampleAt insts k srsrc ssamp b →
    deriveTextureBinding g user b = some r →
    Reaches F g (.pixel user.toList inputs baryI baryJ exec) insts k w →
    ∀ i : Fin 4, r.sampler[i] = w.sgprs (ssamp+i)

/-- Every sample has its S# in line with its T#: in the launch registers when no load filled
the T#, else loaded through the same pointer from where the register distance leads. -/
def SamplersFollow (insts : List Decoded) : Prop :=
  ∀ k op vdata vaddr srsrc ssamp dmask unrm,
    LiveAt insts k (.mimg op vdata vaddr srsrc ssamp dmask unrm) →
    ∀ i < 4, Origins.before insts k (ssamp+i) = samplerOrigin (resourceSource insts k srsrc) ssamp i

lemma samplerOrigin_unique {g : GuestMemory} {user : ℕ → Word} {source : DescriptorSource}
    {ssamp i : ℕ} {v w : Word} (hv : (samplerOrigin source ssamp i).Holds g user v)
    (hw : (samplerOrigin source ssamp i).Holds g user w) : v = w := by
  cases source with
  | inlineVSharp sgpr => exact hv.trans hw.symm
  | setPointer sgpr descOffset => exact hv.trans hw.symm

theorem samplersExact_of_follow (F : FloatOps) {insts : List Decoded} (h : SamplersFollow insts) :
    SamplersExact F insts := by
  intro g user k srsrc ssamp b r inputs baryI baryJ exec w hsample hr hreach i
  obtain ⟨hsource,hsOffset⟩ := hsample.binding_eq
  have hword := deriveTextureBinding_sampler hr i
  rw [hsource, hsOffset] at hword
  obtain ⟨_,_,op,vdata,vaddr,dmask,unrm,_,hlive,-,-⟩ := hsample
  have hreg := hreach.hold (ssamp+i)
  rw [h k op vdata vaddr srsrc ssamp dmask unrm hlive i i.isLt] at hreg
  exact samplerOrigin_unique hword hreg

/-- T# and S# in one load of a whole set. -/
def packedSet : List Decoded :=
  [⟨.smrd .sLoadDwordx16 (.sgpr 0) 0 true 0,1,0⟩,
   ⟨.mimg .imageSample (.vgpr 0) (.vgpr 0) 0 8 0xf false,2,1⟩,
   ⟨.exp (.mrt 0) [some (.vgpr 0),some (.vgpr 1),some (.vgpr 2),some (.vgpr 3)] true false true,2,3⟩,
   ⟨.sopp .sEndpgm 0,1,5⟩]

/-- T# and S# by a load each, through the same pointer. -/
def splitSet : List Decoded :=
  [⟨.smrd .sLoadDwordx8 (.sgpr 8) 0 true 0,1,0⟩,
   ⟨.smrd .sLoadDwordx4 (.sgpr 16) 0 true 8,1,1⟩,
   ⟨.mimg .imageSample (.vgpr 0) (.vgpr 0) 8 16 0xf false,2,2⟩,
   ⟨.exp (.mrt 0) [some (.vgpr 0),some (.vgpr 1),some (.vgpr 2),some (.vgpr 3)] true false true,2,4⟩,
   ⟨.sopp .sEndpgm 0,1,6⟩]

lemma packedSet_follow : SamplersFollow packedSet := by
  rintro k op vdata vaddr srsrc ssamp dmask unrm ⟨-,hk⟩ i hi
  match k with
  | 0 | 2 | 3 => cases hk
  | k+4 => cases hk
  | 1 =>
    cases hk
    interval_cases i <;> rfl

theorem samplersExact_packedSet : SamplersFollow packedSet ∧
    SampleAt packedSet 1 0 8 ⟨0,1,.setPointer 0 0,8⟩ ∧ ∀ F, SamplersExact F packedSet :=
  ⟨packedSet_follow,⟨_,_,_,_,_,_,_,0,⟨by decide,rfl⟩,rfl,rfl⟩,
    fun F => samplersExact_of_follow F packedSet_follow⟩

/-- User data with a pointer in the first pair. -/
def pointerData : UserData := #v[0x1000,0,0,0,0,0,0,0,0,0,0,0,0,0,0,0]

/-- The pointer is in `s[0:1]`, the T# goes to `s[8:15]` and the S# to `s[16:19]`: the draw counts
the 16 registers from the pointer and reads the S# 32 bytes too far. -/
theorem not_samplersExact_splitSet : ¬∃ F, SamplersExact F splitSet := by
  rintro ⟨F,h⟩
  have hsample : SampleAt splitSet 2 8 16 ⟨0,1,.setPointer 0 0,16⟩ :=
    ⟨_,_,_,_,_,_,_,0,⟨by decide,rfl⟩,rfl,rfl⟩
  have hdraw : (deriveTextureBinding rampMemory pointerData ⟨0,1,.setPointer 0 0,16⟩).map
      (·.sampler[0]) = some 0x43424140#32 := by decide +kernel
  obtain ⟨r,hr,hword⟩ := Option.map_eq_some_iff.mp hdraw
  obtain ⟨w,hw,hreg⟩ : ∃ w, Reaches F rampMemory
      (.pixel pointerData.toList ⟨[]⟩ (fun _ => 0) (fun _ => 0) 1) splitSet 2 w ∧
      w.sgprs 16 = 0x23222120#32 := ⟨_,rfl,by decide +kernel⟩
  have hsame := h rampMemory pointerData 2 8 16 _ r _ _ _ _ w hsample hr hw 0
  exact absurd (hword.symm.trans (hsame.trans hreg)) (by decide)
end Unemups4.Gnm

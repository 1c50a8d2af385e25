import Unemups4.Detile

/-! The ranges that detiling and re-tiling copy. Both go over the same ones, each in its direction;
they stay inside the two buffers, and no two texels share a byte of the guest's layout. -/
namespace Unemups4.Gnm
open Gcn (thin1dTexelOffset)

namespace SurfaceLayout

variable (l : SurfaceLayout)

/-- What one pass over the surface copies, from the guest's layout to the linear view. -/
def copies : List Blit.Copy :=
  match l.tiling with
  | .linearGeneral => [⟨0,0,l.linearSize⟩]
  | .linearAligned => l.overRows fun y =>
      ⟨(l.rowOffsets y).1,(l.rowOffsets y).2,l.width*l.texel.bytes⟩
  | .thin1d => l.overTexels fun x y =>
      ⟨(l.texelOffsets x y).1,(l.texelOffsets x y).2,l.texel.bytes⟩

/-- The bytes of a texel in the guest's layout. -/
def texelRange (x y : ℕ) : Set ℕ := Set.Ico (l.texelAt x y) (l.texelAt x y+l.texel.bytes)

/-- The extents that a resource can describe, and a pitch of 32 bits. -/
structure Buildable : Prop where
  width : l.width ≤ 16384
  height : l.height ≤ 16384
  pitch : l.pitch < 2^32

/-- Tiling and detiling are inverse, and neither leaves its buffers or mixes two texels. -/
structure RoundTrips : Prop where
  detile_tile : ∀ linear, linear.length = l.linearSize →
    ∃ guest, tile linear l = .ok guest ∧ detile guest l = .ok linear
  detile_copies : ∀ tiled, l.tiledSize ≤ tiled.length →
    detile tiled l = copied tiled l.linearSize l.copies
  tile_copies : ∀ linear, l.linearSize ≤ linear.length →
    tile linear l = copied linear l.tiledSize (l.copies.map Blit.Copy.reverse)
  fits : ∀ c ∈ l.copies, c.Fits l.tiledSize l.linearSize
  inside : ∀ x y, x < l.width → y < l.height → l.texelRange x y ⊆ Set.Ico 0 l.tiledSize
  disjoint : ∀ x y x' y', x < l.width → y < l.height → x' < l.width → y' < l.height →
    (x,y) ≠ (x',y') → Disjoint (l.texelRange x y) (l.texelRange x' y')
  /-- The 32-bit count of texels, and the number of each, are the ones that the ranges are made of. -/
  words : (l.width+7)/8*((l.height+7)/8)*64 < 2^32 ∧
    ∀ x y, x < l.width → y < l.height → thin1dTexelOffset x y l.width 1 < 2^32
  sizes : l.linearSize < 2^64 ∧ l.tiledSize < 2^64

end SurfaceLayout

section Copies

variable {l : SurfaceLayout} {tiled linear : Bytes} {x y x' y' : ℕ}

/-- A copy of the whole start of a buffer. -/
lemma copied_take {src : Bytes} {n : ℕ} (h : n ≤ src.length) :
    copied src n [⟨0,0,n⟩] = .ok (src.take n) := by
  have hfits : (⟨0,0,n⟩ : Blit.Copy).Fits src.length n := by simp [Blit.Copy.Fits, h]
  simp [copied, Blit.copyAll, Blit.copySlice, hfits]

lemma detile_copies (h : l.tiledSize ≤ tiled.length) :
    detile tiled l = copied tiled l.linearSize l.copies := by
  unfold detile SurfaceLayout.copies
  rw [if_neg (not_lt.mpr h)]
  cases ht : l.tiling with
  | linearGeneral =>
    simp only [SurfaceLayout.tiledSize, ht] at h
    exact (copied_take h).symm
  | linearAligned => rfl
  | thin1d => rfl

lemma tile_copies (h : l.linearSize ≤ linear.length) :
    tile linear l = copied linear l.tiledSize (l.copies.map Blit.Copy.reverse) := by
  unfold tile SurfaceLayout.copies SurfaceLayout.tiledSize
  rw [if_neg (not_lt.mpr h)]
  cases l.tiling with
  | linearGeneral => exact (copied_take h).symm
  | linearAligned => simp [SurfaceLayout.overRows, Function.comp_def, Blit.Copy.reverse]
  | thin1d => simp [SurfaceLayout.overTexels, List.map_flatMap, Function.comp_def, Blit.Copy.reverse]

lemma copies_fit : ∀ c ∈ l.copies, c.Fits l.tiledSize l.linearSize := by
  intro c hc
  unfold SurfaceLayout.copies at hc
  unfold SurfaceLayout.tiledSize
  cases ht : l.tiling <;> simp only [ht] at hc ⊢
  case linearGeneral =>
    rw [List.mem_singleton] at hc
    subst hc
    simp [Blit.Copy.Fits]
  case linearAligned =>
    obtain ⟨y,hy,rfl⟩ := SurfaceLayout.mem_overRows.mp hc
    exact SurfaceLayout.row_fits hy
  case thin1d =>
    obtain ⟨x,y,hx,hy,rfl⟩ := SurfaceLayout.mem_overTexels.mp hc
    exact SurfaceLayout.texel_fits hx hy

/-- Each layout numbers its texels, and keeps a texel where its number tells. -/
lemma texelAt_number (l : SurfaceLayout) : ∃ number : ℕ → ℕ → ℕ,
    (∀ x y, l.texelAt x y = number x y*l.texel.bytes) ∧
    (∀ x y, x < l.width → y < l.height → (number x y+1)*l.texel.bytes ≤ l.tiledSize) ∧
    ∀ x y x' y', x < l.width → x' < l.width → number x y = number x' y' → x = x' ∧ y = y' := by
  unfold SurfaceLayout.texelAt SurfaceLayout.tiledSize
  cases l.tiling with
  | linearGeneral =>
    refine ⟨fun x y => y*l.width+x,fun _ _ => rfl,fun x y hx hy => ?_,
      fun x y x' y' hx hx' h => Blit.rowMajor_inj hx hx' h⟩
    rw [SurfaceLayout.linearSize, Nat.mul_comm l.width]
    exact Nat.mul_le_mul_right _ (Blit.rowMajor_lt hx hy)
  | linearAligned =>
    have hpitch : l.width ≤ l.alignedPitch := width_le_linearAlignedPitchOr _ _
    refine ⟨fun x y => y*l.alignedPitch+x,fun _ _ => rfl,fun x y hx hy => ?_,
      fun x y x' y' hx hx' h => Blit.rowMajor_inj (hx.trans_le hpitch) (hx'.trans_le hpitch) h⟩
    rw [SurfaceLayout.linearAlignedTiledSize, Nat.mul_comm l.alignedPitch]
    exact Nat.mul_le_mul_right _ (Blit.rowMajor_lt (hx.trans_le hpitch) hy)
  | thin1d =>
    exact ⟨fun x y => (y/8*((l.width+7)/8)+x/8)*64+Gcn.microTileIndex x y,fun _ _ => rfl,
      fun x y hx hy => Nat.mul_le_mul_right _ (thin1d_lt hx hy),
      fun x y x' y' hx hx' h => thin1d_inj hx hx' h⟩

lemma texelRange_subset (hx : x < l.width) (hy : y < l.height) :
    l.texelRange x y ⊆ Set.Ico 0 l.tiledSize := by
  obtain ⟨number,hat,hfits,-⟩ := texelAt_number l
  refine Set.Ico_subset_Ico (Nat.zero_le _) ?_
  rw [hat, ← Nat.succ_mul]
  exact hfits x y hx hy

lemma texelRange_disjoint (hx : x < l.width) (hx' : x' < l.width) (hne : (x,y) ≠ (x',y')) :
    Disjoint (l.texelRange x y) (l.texelRange x' y') := by
  obtain ⟨number,hat,-,hinj⟩ := texelAt_number l
  rw [Set.disjoint_left]
  rintro i ⟨hle,hlt⟩ ⟨hle',hlt'⟩
  rw [hat] at hle hlt hle' hlt'
  -- the texel's number is the byte's quotient by the size of a texel
  have hdiv {n : ℕ} (h : n*l.texel.bytes ≤ i) (h' : i < n*l.texel.bytes+l.texel.bytes) :
      i/l.texel.bytes = n := Nat.div_eq_of_lt_le h (by rwa [Nat.succ_mul])
  obtain ⟨rfl,rfl⟩ := hinj x y x' y' hx hx' ((hdiv hle hlt).symm.trans (hdiv hle' hlt'))
  exact hne rfl

end Copies

section Sizes

variable {l : SurfaceLayout}

lemma bytes_le (t : TexelSize) : t.bytes ≤ 8 := by cases t <;> decide

lemma alignedPitch_lt (h : l.Buildable) : l.alignedPitch < 2^32 := by
  obtain ⟨hw,-,hp⟩ := h
  unfold SurfaceLayout.alignedPitch Gcn.linearAlignedPitchOr
  split_ifs
  · exact hp
  · omega

lemma tiles_lt (h : l.Buildable) : (l.width+7)/8*((l.height+7)/8)*64 < 2^32 := by
  obtain ⟨hw,hh,-⟩ := h
  calc (l.width+7)/8*((l.height+7)/8)*64 ≤ 2048*2048*64 :=
        Nat.mul_le_mul_right 64 (Nat.mul_le_mul (by omega) (by omega))
    _ < 2^32 := by norm_num

/-- A surface of that many texels is addressed in 64 bits. -/
lemma bytes_lt {n : ℕ} (t : TexelSize) (h : n < 2^61) : n*t.bytes < 2^64 :=
  calc n*t.bytes ≤ n*8 := Nat.mul_le_mul_left n (bytes_le t)
    _ < 2^64 := by omega

lemma linearSize_lt (h : l.Buildable) : l.linearSize < 2^64 := by
  refine bytes_lt l.texel ?_
  calc l.width*l.height ≤ 16384*16384 := Nat.mul_le_mul h.width h.height
    _ < 2^61 := by norm_num

lemma tiledSize_lt (h : l.Buildable) : l.tiledSize < 2^64 := by
  unfold SurfaceLayout.tiledSize
  cases l.tiling with
  | linearGeneral => exact linearSize_lt h
  | linearAligned =>
    refine bytes_lt l.texel ?_
    calc l.alignedPitch*l.height ≤ 2^32*16384 := Nat.mul_le_mul (alignedPitch_lt h).le h.height
      _ < 2^61 := by norm_num
  | thin1d => exact bytes_lt l.texel ((tiles_lt h).trans (by norm_num))

end Sizes

lemma masked_le (w m : Gcn.Word) : (w &&& m).toNat ≤ m.toNat := by
  rw [BitVec.toNat_and]
  exact Nat.and_le_right

/-- The fields of an image resource have fourteen bits. -/
theorem textureSurfaceLayout_buildable (w0 w1 w2 w3 w4 : Gcn.Word) :
    (textureSurfaceLayout (TextureDesc.ofWords w0 w1 w2 w3 w4)).Buildable where
  width := Nat.succ_le_succ (masked_le w2 0x3fff#32)
  height := Nat.succ_le_succ (masked_le (w2 >>> 14) 0x3fff#32)
  pitch := by
    have hraw : ((w4 >>> 13) &&& 0x3fff#32).toNat ≤ 0x3fff := masked_le (w4 >>> 13) 0x3fff#32
    simp only [textureSurfaceLayout, TextureDesc.ofWords]
    split_ifs
    · norm_num
    · omega

/-- Every layout that a resource can describe. -/
theorem buildable_roundTrips {l : SurfaceLayout} (h : l.Buildable) : l.RoundTrips where
  detile_tile linear hlen := by
    obtain ⟨guest,hguest⟩ := tile_isOk hlen.ge
    exact ⟨guest,hguest,detile_tile hguest hlen⟩
  detile_copies _ := detile_copies
  tile_copies _ := tile_copies
  fits := copies_fit
  inside _ _ := texelRange_subset
  disjoint _ _ _ _ hx _ hx' _ hne := texelRange_disjoint hx hx' hne
  words := by
    refine ⟨tiles_lt h,fun x y hx hy => ?_⟩
    rw [thin1dTexelOffset, Nat.mul_one]
    exact thin1d_lt_u32 hx hy h.width h.height
  sizes := ⟨linearSize_lt h,tiledSize_lt h⟩

/-- Micro-tiles that the surface does not fill, of texels of eight bytes. -/
theorem buildable_roundTrips_partial :
    SurfaceLayout.RoundTrips ⟨.bpp64,9,3,.thin1d,0⟩ :=
  buildable_roundTrips ⟨by decide,by decide,by decide⟩

end Unemups4.Gnm

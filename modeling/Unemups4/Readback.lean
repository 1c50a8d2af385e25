import Unemups4.Detile

/-! Reading a render target back into guest memory: the content is padded out to the guest's row
stride and re-tiled, and a texture over the same bytes detiles it again. -/
namespace Unemups4.Gpu
open Gcn (tileKind thin1dTexelOffset)
open Gnm (Bytes SurfaceLayout TileError TextureDesc detile tile textureSurfaceLayout)
open Blit (Copy copySlice copyAll)

inductive Tiling where
  | linear
  | tiled (tileModeIndex : ℕ)
  deriving DecidableEq, Repr

/-- A tile mode index is a byte. -/
def Tiling.index : Tiling → Option ℕ
  | linear => some 0
  | tiled tileModeIndex => if tileModeIndex < 256 then some tileModeIndex else none

/-- Once the rows carry their padding, both linear kinds pack alike. -/
def packedTiling : Gcn.TileKind → Option Gnm.Tiling
  | .linear | .linearAligned => some .linearGeneral
  | .thin1d => some .thin1d
  | .macro2d => none

/-- The stride stands for the width; a surface that cannot be expressed is refused. -/
def guestSurfaceLayout (w h pitch : ℕ) (tiling : Tiling) : Option SurfaceLayout :=
  if pitch < w ∨ w = 0 ∨ h = 0 then none
  else do
    let index ← tiling.index
    let packed ← packedTiling (tileKind index)
    return ⟨.bpp32,pitch,h,packed,0⟩

def padRow (content : Bytes) (w h stride : ℕ) (padded : Bytes) (y : ℕ) : Except TileError Bytes :=
  if content.length < y*w*4+w*4 then .error (.shortBuffer content.length (w*h*4))
  else
    match copySlice content padded ⟨y*w*4,y*stride*4,w*4⟩ with
    | some padded => .ok padded
    | none => .error .panicked

def padRows (content : Bytes) (w h stride : ℕ) : Except TileError Bytes :=
  if stride = w then .ok content
  else (List.range h).foldlM (padRow content w h stride) (List.replicate (stride*h*4) 0)

def packGuestSurface (content : Bytes) (w h : ℕ) (layout : SurfaceLayout) :
    Except TileError Bytes := do
  let padded ← padRows content w h layout.width
  tile padded layout

section Pad

variable {content padded : Bytes} {w h stride : ℕ}

/-- The copies that pad the rows out. -/
def rows (w h stride : ℕ) : List Copy := (List.range h).map fun y => ⟨y*w*4,y*stride*4,w*4⟩

lemma row_le {y : ℕ} (hy : y < h) (n : ℕ) : y*n*4+n*4 ≤ n*h*4 :=
  calc y*n*4+n*4 = (y+1)*n*4 := by ring
    _ ≤ h*n*4 := Nat.mul_le_mul_right _ (Nat.mul_le_mul_right _ hy)
    _ = n*h*4 := by rw [Nat.mul_comm h]

/-- Content of the right size is padded row by row. -/
lemma padRow_foldlM (hlen : content.length = w*h*4) (ys : List ℕ) (hys : ∀ y ∈ ys, y < h)
    (out : Bytes) (hout : copyAll content out (ys.map fun y => ⟨y*w*4,y*stride*4,w*4⟩) = some padded) :
    ys.foldlM (padRow content w h stride) out = .ok padded := by
  induction ys generalizing out with
  | nil => cases hout; rfl
  | cons y ys ih =>
    obtain ⟨mid,hmid,hrest⟩ := Blit.copyAll_cons hout
    have hrow : padRow content w h stride out y = .ok mid := by
      rw [padRow, if_neg (by rw [hlen]; exact not_lt.mpr (row_le (hys y (by simp)) w)), hmid]
    rw [List.foldlM_cons, hrow]
    exact ih (fun y' hy' => hys y' (List.mem_cons_of_mem _ hy')) mid hrest

lemma row_covered {x y k : ℕ} (hx : x < w) (hk : k < 4) (hle : w ≤ stride) {c : Copy}
    (hc : c ∈ rows w h stride) (hcovers : c.Covers ((y*stride+x)*4+k)) :
    c.src+((y*stride+x)*4+k-c.dst) = (y*w+x)*4+k := by
  obtain ⟨y',-,rfl⟩ := List.mem_map.mp hc
  simp only [Copy.Covers] at hcovers ⊢
  have hcell : x*4+k < stride*4 := by omega
  have hy : y' = y := Blit.block_eq hcell (by linarith) (by linarith)
  subst hy
  have hsub : (y'*stride+x)*4+k-y'*stride*4 = x*4+k := by
    rw [show (y'*stride+x)*4+k = y'*stride*4+(x*4+k) by ring, Nat.add_sub_cancel_left]
  rw [hsub]
  ring

lemma row_spared {x y k : ℕ} (hx : w ≤ x) (hxs : x < stride) (hk : k < 4) {c : Copy}
    (hc : c ∈ rows w h stride) : ¬c.Covers ((y*stride+x)*4+k) := by
  obtain ⟨y',-,rfl⟩ := List.mem_map.mp hc
  intro hcovers
  simp only [Copy.Covers] at hcovers
  have hcell : x*4+k < stride*4 := by omega
  have hy : y' = y := Blit.block_eq hcell (by linarith) (by nlinarith)
  subst hy
  nlinarith

/-- Content in rows of the stride, with zeros between. -/
structure Padded (content padded : Bytes) (w h stride : ℕ) : Prop where
  length : padded.length = stride*h*4
  content : ∀ {x y k}, x < w → y < h → k < 4 →
    padded[(y*stride+x)*4+k]? = content[(y*w+x)*4+k]?
  zero : ∀ {x y k}, w ≤ x → x < stride → y < h → k < 4 → padded[(y*stride+x)*4+k]? = some 0

lemma padRows_padded (hlen : content.length = w*h*4) (hle : w ≤ stride) :
    ∃ padded, padRows content w h stride = .ok padded ∧ Padded content padded w h stride := by
  unfold padRows
  split_ifs with heq
  · subst heq
    exact ⟨content,rfl,hlen,fun _ _ _ => rfl,fun hx hxs => absurd hx (not_le.mpr hxs)⟩
  · have hfits : ∀ c ∈ rows w h stride,
        c.Fits content.length (List.replicate (stride*h*4) (0 : UInt8)).length := by
      intro c hc
      obtain ⟨y,hy,rfl⟩ := List.mem_map.mp hc
      have hy := List.mem_range.mp hy
      rw [hlen, List.length_replicate]
      refine ⟨row_le hy w,le_trans ?_ (row_le hy stride)⟩
      exact Nat.add_le_add_left (Nat.mul_le_mul_right 4 hle) _
    obtain ⟨padded,hpadded⟩ := Blit.copyAll_isSome hfits
    refine ⟨padded,padRow_foldlM hlen _ (fun y => List.mem_range.mp) _ hpadded,?_,?_,?_⟩
    · rw [Blit.copyAll_length hpadded, List.length_replicate]
    · intro x y k hx hy hk
      refine Blit.copyAll_covered hpadded ?_ fun c hc => row_covered hx hk hle hc
      refine ⟨_,List.mem_map.mpr ⟨y,List.mem_range.mpr hy,rfl⟩,?_⟩
      simp only [Copy.Covers]
      constructor <;> linarith
    · intro x y k hx hxs hy hk
      rw [Blit.copyAll_spared hpadded fun c => row_spared hx hxs hk]
      have hcell : (y*stride+x)*4+k < stride*h*4 := by
        rw [Nat.mul_comm stride]
        exact Blit.rowMajor_lt hk (Blit.rowMajor_lt hxs hy)
      rw [List.getElem?_replicate, if_pos hcell]

end Pad

section Layout

variable {w h pitch : ℕ} {tiling : Tiling} {layout : SurfaceLayout} {t : TextureDesc}

/-- A surface that is accepted, with what stands for its tiling. -/
lemma guestSurfaceLayout_some {index : ℕ} (hindex : tiling.index = some index)
    (hl : guestSurfaceLayout w h pitch tiling = some layout) : w ≤ pitch ∧ 0 < w ∧ 0 < h ∧
      ∃ packed, packedTiling (tileKind index) = some packed ∧
        layout = ⟨.bpp32,pitch,h,packed,0⟩ := by
  unfold guestSurfaceLayout at hl
  split_ifs at hl with hbad
  push Not at hbad
  rw [hindex] at hl
  obtain ⟨_,hsome,hl⟩ := Option.bind_eq_some_iff.mp hl
  cases hsome
  obtain ⟨packed,hpacked,hl⟩ := Option.bind_eq_some_iff.mp hl
  cases hl
  exact ⟨hbad.1,Nat.pos_of_ne_zero hbad.2.1,Nat.pos_of_ne_zero hbad.2.2,packed,hpacked,rfl⟩

/-- The guest bytes hold each texel where the layout keeps it, and zeros between the rows. -/
structure Packed (content guest : Bytes) (w : ℕ) (layout : SurfaceLayout) : Prop where
  length : guest.length = layout.tiledSize
  content : ∀ {x y k}, x < w → y < layout.height → k < 4 →
    guest[layout.texelAt x y+k]? = content[(y*w+x)*4+k]?
  zero : ∀ {x y k}, w ≤ x → x < layout.width → y < layout.height → k < 4 →
    guest[layout.texelAt x y+k]? = some 0

lemma packGuestSurface_packed {content : Bytes} (w : ℕ) (layout : SurfaceLayout)
    (htexel : layout.texel = .bpp32)
    (hw : w ≤ layout.width) (hlen : content.length = w*layout.height*4) :
    ∃ guest, packGuestSurface content w layout.height layout = .ok guest ∧
      Packed content guest w layout := by
  obtain ⟨padded,hpad,hpadded⟩ := padRows_padded hlen hw
  have hbytes : layout.texel.bytes = 4 := by rw [htexel]; rfl
  have hlong : layout.linearSize ≤ padded.length := by
    rw [hpadded.length, SurfaceLayout.linearSize, hbytes]
  obtain ⟨guest,hguest⟩ := Gnm.tile_isOk hlong
  have hread {x y k : ℕ} (hx : x < layout.width) (hy : y < layout.height) (hk : k < 4) :
      guest[layout.texelAt x y+k]? = padded[(y*layout.width+x)*4+k]? := by
    have h := Gnm.tile_read hguest hx hy (hbytes ▸ hk)
    rwa [hbytes] at h
  refine ⟨guest,by rw [packGuestSurface, hpad]; exact hguest,Gnm.tile_length hguest,?_,?_⟩
  · intro x y k hx hy hk
    rw [hread (hx.trans_le hw) hy hk, hpadded.content hx hy hk]
  · intro x y k hx hxs hy hk
    rw [hread hxs hy hk, hpadded.zero hx hxs hy hk]

end Layout

section RoundTrip

variable {t : TextureDesc} {tiling : Tiling} {layout : SurfaceLayout}

/-- Every content is uploaded as it was from the guest bytes it was packed into. -/
def RoundTrips (t : TextureDesc) (layout : SurfaceLayout) : Prop :=
  ∀ content : Bytes, content.length = t.width*t.height*4 →
    ∃ guest, packGuestSurface content t.width t.height layout = .ok guest ∧
      detile guest (textureSurfaceLayout t) = .ok content

/-- The rows of the texture follow each other as those of the packed surface do. -/
def SameStride (t : TextureDesc) : Prop :=
  match tileKind t.tilingIndex with
  | .linear => t.pitch = t.width ∨ t.height = 1
  | .thin1d => (t.pitch+7)/8 = (t.width+7)/8 ∨ t.height ≤ 8
  | .linearAligned | .macro2d => True

instance (t : TextureDesc) : Decidable (SameStride t) := by
  unfold SameStride
  cases tileKind t.tilingIndex <;> infer_instance

/-- Each texel is then kept where the packed surface keeps it. -/
lemma texelAt_eq (hl : guestSurfaceLayout t.width t.height t.pitch tiling = some layout)
    (hindex : tiling.index = some t.tilingIndex) (hstride : SameStride t) {x y : ℕ}
    (hy : y < t.height) : (textureSurfaceLayout t).texelAt x y = layout.texelAt x y := by
  obtain ⟨hle,-,-,packed,hpacked,rfl⟩ := guestSurfaceLayout_some hindex hl
  unfold SameStride at hstride
  unfold SurfaceLayout.texelAt textureSurfaceLayout
  cases hkind : tileKind t.tilingIndex <;> simp only [hkind] at hstride hpacked ⊢ <;> cases hpacked
  case linear =>
    rcases hstride with heq | hone
    · rw [heq]
    · obtain rfl : y = 0 := by omega
      simp
  case thin1d =>
    rcases hstride with heq | hlow
    · simp only [thin1dTexelOffset, heq]
    · have hrow : y/8 = 0 := by omega
      simp only [thin1dTexelOffset, hrow, Nat.zero_mul]
  case linearAligned =>
    have hpitch : Gcn.linearAlignedPitchOr t.width t.pitch = t.pitch := if_pos hle
    simp only [Gcn.linearAlignedTexelOffset, SurfaceLayout.alignedPitch, hpitch]

/-- The packed surface is no shorter than the texture. -/
lemma tiledSize_le (hl : guestSurfaceLayout t.width t.height t.pitch tiling = some layout)
    (hindex : tiling.index = some t.tilingIndex) :
    (textureSurfaceLayout t).tiledSize ≤ layout.tiledSize := by
  obtain ⟨hle,-,-,packed,hpacked,rfl⟩ := guestSurfaceLayout_some hindex hl
  unfold SurfaceLayout.tiledSize textureSurfaceLayout
  cases hkind : tileKind t.tilingIndex <;> simp only [hkind] at hpacked ⊢ <;> cases hpacked
  case linear =>
    exact Nat.mul_le_mul_right _ (Nat.mul_le_mul_right _ hle)
  case thin1d =>
    refine Nat.mul_le_mul_right _ (Nat.mul_le_mul_right _ (Nat.mul_le_mul_right _ ?_))
    simp only
    omega
  case linearAligned =>
    have hpitch : Gcn.linearAlignedPitchOr t.width t.pitch = t.pitch := if_pos hle
    simp only [SurfaceLayout.linearAlignedTiledSize, SurfaceLayout.linearSize,
      SurfaceLayout.alignedPitch, hpitch]
    exact le_refl _

lemma roundTrips_of_sameStride
    (hl : guestSurfaceLayout t.width t.height t.pitch tiling = some layout)
    (hindex : tiling.index = some t.tilingIndex) (hstride : SameStride t) :
    RoundTrips t layout := by
  intro content hlen
  obtain ⟨hle,-,-,packed,-,hlayout⟩ := guestSurfaceLayout_some hindex hl
  have hheight : layout.height = t.height := by rw [hlayout]
  obtain ⟨guest,hguest,hpacked⟩ := packGuestSurface_packed t.width layout
    (by rw [hlayout]) (by rw [hlayout]; exact hle) (by rw [hheight]; exact hlen)
  rw [hheight] at hguest
  have hlong : (textureSurfaceLayout t).tiledSize ≤ guest.length := by
    rw [hpacked.length]
    exact tiledSize_le hl hindex
  obtain ⟨out,hout⟩ := Gnm.detile_isOk hlong
  refine ⟨guest,hguest,?_⟩
  rw [hout]
  refine congrArg Except.ok (Gnm.linear_ext (Gnm.detile_length hout) hlen fun x y k hx hy hk => ?_)
  rw [Gnm.detile_read hout hx hy hk, texelAt_eq hl hindex hstride hy]
  exact hpacked.content hx (by rw [hheight]; exact hy) hk

/-- A texel that is looked for between the rows is read as zero. -/
lemma not_roundTrips (x y x' y' : ℕ)
    (hl : guestSurfaceLayout t.width t.height t.pitch tiling = some layout)
    (hindex : tiling.index = some t.tilingIndex) (hx : x < t.width) (hy : y < t.height)
    (hx' : t.width ≤ x') (hxs' : x' < t.pitch) (hy' : y' < t.height)
    (hat : (textureSurfaceLayout t).texelAt x y = layout.texelAt x' y') : ¬RoundTrips t layout := by
  intro hround
  obtain ⟨hle,-,-,packed,-,hlayout⟩ := guestSurfaceLayout_some hindex hl
  have hheight : layout.height = t.height := by rw [hlayout]
  have hlen : (List.replicate (t.width*t.height*4) (1 : UInt8)).length = t.width*t.height*4 := by
    simp
  obtain ⟨guest,hguest,hpacked⟩ := packGuestSurface_packed t.width layout
    (by rw [hlayout]) (by rw [hlayout]; exact hle) (by rw [hheight]; exact hlen)
  obtain ⟨guest',hguest',hout⟩ := hround _ hlen
  rw [hheight, hguest'] at hguest
  obtain rfl : guest' = guest := Except.ok.inj hguest
  have hread := Gnm.detile_read (x := x) (y := y) (k := 0) hout hx hy
    (SurfaceLayout.bytes_pos _)
  rw [hat, hpacked.zero hx' (by rw [hlayout]; exact hxs') (by rw [hheight]; exact hy')
    (by decide)] at hread
  have hcell := SurfaceLayout.linear_lt (l := textureSurfaceLayout t) (x := x) (y := y) (k := 0) hx hy
    (SurfaceLayout.bytes_pos _)
  rw [List.getElem?_replicate, if_pos (by exact hcell)] at hread
  exact absurd (Option.some.inj hread) (by decide)

/-- A read-back surface round-trips through a texture over the same bytes exactly when both
give the rows one stride. -/
theorem roundTrips_iff_sameStride
    (hl : guestSurfaceLayout t.width t.height t.pitch tiling = some layout)
    (hindex : tiling.index = some t.tilingIndex) : RoundTrips t layout ↔ SameStride t := by
  refine ⟨fun hround => ?_,roundTrips_of_sameStride hl hindex⟩
  by_contra hstride
  obtain ⟨hle,hw,hh,packed,hpacked,hlayout⟩ := guestSurfaceLayout_some hindex hl
  refine absurd hround ?_
  unfold SameStride at hstride
  cases hkind : tileKind t.tilingIndex <;>
    simp only [hkind, not_true_eq_false, not_or] at hstride hpacked
  case linear =>
    cases hpacked
    -- the second row starts in what pads the first
    refine not_roundTrips 0 1 t.width 0 hl hindex hw (by omega)
      (le_refl _) (by omega) hh ?_
    simp [SurfaceLayout.texelAt, textureSurfaceLayout, hkind, hlayout]
  case thin1d =>
    cases hpacked
    -- the second row of tiles starts in a tile of the padding
    refine not_roundTrips 0 8 ((t.width+7)/8*8) 0 hl hindex hw (by omega)
      (by omega) (by omega) hh ?_
    have htile : (t.width+7)/8*8/8 = (t.width+7)/8 := Nat.mul_div_cancel _ (by decide)
    have hmicro : Gcn.microTileIndex ((t.width+7)/8*8) 0 = 0 := by
      simp only [Gcn.microTileIndex]
      omega
    have hmicro' : Gcn.microTileIndex 0 8 = 0 := by decide
    simp [SurfaceLayout.texelAt, textureSurfaceLayout, hkind, hlayout, thin1dTexelOffset, htile,
      hmicro, hmicro']

/-- A tiled surface of ten by nine texels in a pitch of sixteen. -/
theorem roundTrips_iff_sameStride_thin1d :
    RoundTrips ⟨0x1000#64,10,9,10,0,2,16⟩ ⟨.bpp32,16,9,.thin1d,0⟩ ↔
      SameStride ⟨0x1000#64,10,9,10,0,2,16⟩ := by
  have hlayout : guestSurfaceLayout 10 9 16 (.tiled 2) = some ⟨.bpp32,16,9,.thin1d,0⟩ := by decide
  exact roundTrips_iff_sameStride hlayout (by decide)

/-- Two rows of one texel in a pitch of two: the second row comes back as padding. -/
theorem not_roundTrips_padded : ¬∀ t tiling layout,
    guestSurfaceLayout t.width t.height t.pitch tiling = some layout →
      tiling.index = some t.tilingIndex → RoundTrips t layout := by
  intro hall
  have hround := hall ⟨0x1000#64,1,2,10,0,0,2⟩ .linear ⟨.bpp32,2,2,.linearGeneral,0⟩ (by decide)
    (by decide)
  obtain ⟨guest,hguest,hout⟩ := hround [1,2,3,4,5,6,7,8] (by decide)
  have hpack : packGuestSurface [1,2,3,4,5,6,7,8] 1 2 ⟨.bpp32,2,2,.linearGeneral,0⟩ =
      .ok [1,2,3,4,0,0,0,0,5,6,7,8,0,0,0,0] := by decide +kernel
  obtain rfl : [1,2,3,4,0,0,0,0,5,6,7,8,0,0,0,0] = guest := Except.ok.inj (hpack.symm.trans hguest)
  have hdetile : detile [1,2,3,4,0,0,0,0,5,6,7,8,0,0,0,0]
      (textureSurfaceLayout ⟨0x1000#64,1,2,10,0,0,2⟩) = .ok [1,2,3,4,0,0,0,0] := by decide +kernel
  exact absurd (Except.ok.inj (hdetile.symm.trans hout)) (by decide)

end RoundTrip

end Unemups4.Gpu

import Unemups4.Blit
import Unemups4.Interp
import Unemups4.ResourceCache

/-! Surfaces as the guest lays them out, and their row-major view: detiling on upload and
re-tiling on readback, as copies of rows and of texels. -/
namespace Unemups4.Gnm
open Gcn (tileKind microTileIndex thin1dTexelOffset linearAlignedPitchOr linearAlignedTexelOffset)
open Blit (copyAll)

/-- `panicked` stands for a failed slice index. -/
inductive TileError where
  | shortBuffer (got expected : ℕ)
  | panicked
  deriving DecidableEq, Repr

def TexelSize.bytes : TexelSize → ℕ
  | bpp32 => 4
  | bpp64 => 8

namespace SurfaceLayout

variable (l : SurfaceLayout)

def alignedPitch : ℕ := linearAlignedPitchOr l.width l.pitch

def linearSize : ℕ := l.width*l.height*l.texel.bytes

def thin1dTiledSize : ℕ := (l.width+7)/8*((l.height+7)/8)*64*l.texel.bytes

def linearAlignedTiledSize : ℕ := l.alignedPitch*l.height*l.texel.bytes

/-- The bytes a surface takes in guest memory. -/
def tiledSize : ℕ :=
  match l.tiling with
  | .linearGeneral => l.linearSize
  | .linearAligned => l.linearAlignedTiledSize
  | .thin1d => l.thin1dTiledSize

/-- A row in the guest's layout and in the linear view. -/
def rowOffsets (y : ℕ) : ℕ × ℕ :=
  (linearAlignedTexelOffset 0 y l.alignedPitch l.texel.bytes,y*(l.width*l.texel.bytes))

/-- A texel in the guest's layout and in the linear view. -/
def texelOffsets (x y : ℕ) : ℕ × ℕ :=
  (thin1dTexelOffset x y l.width l.texel.bytes,(y*l.width+x)*l.texel.bytes)

def overRows (copy : ℕ → Blit.Copy) : List Blit.Copy := (List.range l.height).map copy

def overTexels (copy : ℕ → ℕ → Blit.Copy) : List Blit.Copy :=
  (List.range l.height).flatMap fun y => (List.range l.width).map fun x => copy x y

end SurfaceLayout

def copied (src : Bytes) (size : ℕ) (copies : List Blit.Copy) : Except TileError Bytes :=
  match copyAll src (List.replicate size 0) copies with
  | some out => .ok out
  | none => .error .panicked

def detile (tiled : Bytes) (l : SurfaceLayout) : Except TileError Bytes :=
  if tiled.length < l.tiledSize then .error (.shortBuffer tiled.length l.tiledSize)
  else
    match l.tiling with
    | .linearGeneral => .ok (tiled.take l.linearSize)
    | .linearAligned => copied tiled l.linearSize <| l.overRows fun y =>
        ⟨(l.rowOffsets y).1,(l.rowOffsets y).2,l.width*l.texel.bytes⟩
    | .thin1d => copied tiled l.linearSize <| l.overTexels fun x y =>
        ⟨(l.texelOffsets x y).1,(l.texelOffsets x y).2,l.texel.bytes⟩

def tile (linear : Bytes) (l : SurfaceLayout) : Except TileError Bytes :=
  if linear.length < l.linearSize then .error (.shortBuffer linear.length l.linearSize)
  else
    match l.tiling with
    | .linearGeneral => .ok (linear.take l.linearSize)
    | .linearAligned => copied linear l.linearAlignedTiledSize <| l.overRows fun y =>
        ⟨(l.rowOffsets y).2,(l.rowOffsets y).1,l.width*l.texel.bytes⟩
    | .thin1d => copied linear l.thin1dTiledSize <| l.overTexels fun x y =>
        ⟨(l.texelOffsets x y).2,(l.texelOffsets x y).1,l.texel.bytes⟩

/-- A sampled image resource, as the upload decodes it. -/
structure TextureDesc where
  base : BitVec 64
  width : ℕ
  height : ℕ
  dfmt : ℕ
  nfmt : ℕ
  tilingIndex : ℕ
  pitch : ℕ
  deriving DecidableEq

/-- A pitch of zero stands for one that was not programmed. -/
def TextureDesc.ofWords (w0 w1 w2 w3 w4 : Gcn.Word) : TextureDesc where
  base := (w0.setWidth 64 <<< 8) ||| ((w1 &&& 0xff#32).setWidth 64 <<< 40)
  width := (w2 &&& 0x3fff#32).toNat+1
  height := ((w2 >>> 14) &&& 0x3fff#32).toNat+1
  dfmt := ((w1 >>> 20) &&& 0x3f#32).toNat
  nfmt := ((w1 >>> 26) &&& 0xf#32).toNat
  tilingIndex := ((w3 >>> 20) &&& 0x1f#32).toNat
  pitch :=
    let rawPitch := ((w4 >>> 13) &&& 0x3fff#32).toNat
    if rawPitch = 0 then 0 else rawPitch+1

def textureSurfaceLayout (t : TextureDesc) : SurfaceLayout where
  texel := .bpp32
  width := t.width
  height := t.height
  tiling :=
    match tileKind t.tilingIndex with
    | .linear | .macro2d => .linearGeneral
    | .thin1d => .thin1d
    | .linearAligned => .linearAligned
  pitch := t.pitch

/-- The fields that sampling reads. -/
def TextureDesc.sharp (t : TextureDesc) : Gcn.TSharp := ⟨t.base,t.width,t.height,t.tilingIndex,t.pitch⟩

section Offsets

lemma width_le_linearAlignedPitchOr (width pitch : ℕ) : width ≤ linearAlignedPitchOr width pitch := by
  unfold linearAlignedPitchOr
  split_ifs with h
  · exact h
  · omega

lemma microTileIndex_lt (x y : ℕ) : microTileIndex x y < 64 := by
  simp only [microTileIndex]
  omega

lemma mod_eight (v : ℕ) : v%8 = v/2^0%2+2*(v/2^1%2)+4*(v/2^2%2) := by omega

lemma bit_inj {b r b' r' : ℕ} (hb : b < 2) (hb' : b' < 2) (h : b+2*r = b'+2*r') : b = b' ∧ r = r' := by
  omega

/-- The bits of both coordinates stand side by side. -/
lemma microTileIndex_inj {x y x' y' : ℕ} (h : microTileIndex x y = microTileIndex x' y') :
    x%8 = x'%8 ∧ y%8 = y'%8 := by
  have hbit (v b : ℕ) : v/2^b%2 < 2 := Nat.mod_lt _ (by decide)
  have hnested (x y : ℕ) : microTileIndex x y = x/2^0%2+2*(y/2^0%2+2*(x/2^1%2+2*(y/2^1%2+
      2*(x/2^2%2+2*(y/2^2%2))))) := by
    simp only [microTileIndex]
    ring
  rw [hnested, hnested] at h
  obtain ⟨hx0,h⟩ := bit_inj (hbit x 0) (hbit x' 0) h
  obtain ⟨hy0,h⟩ := bit_inj (hbit y 0) (hbit y' 0) h
  obtain ⟨hx1,h⟩ := bit_inj (hbit x 1) (hbit x' 1) h
  obtain ⟨hy1,h⟩ := bit_inj (hbit y 1) (hbit y' 1) h
  obtain ⟨hx2,h⟩ := bit_inj (hbit x 2) (hbit x' 2) h
  rw [mod_eight x, mod_eight x', mod_eight y, mod_eight y', hx0, hx1, hx2, hy0, hy1]
  exact ⟨rfl,by omega⟩

/-- The texels of a tiled surface are numbered one by one. -/
lemma thin1d_inj {x y x' y' w : ℕ} (hx : x < w) (hx' : x' < w)
    (h : (y/8*((w+7)/8)+x/8)*64+microTileIndex x y = (y'/8*((w+7)/8)+x'/8)*64+microTileIndex x' y') :
    x = x' ∧ y = y' := by
  have hlt := microTileIndex_lt x y
  have hlt' := microTileIndex_lt x' y'
  obtain ⟨htx,hty⟩ : x/8 = x'/8 ∧ y/8 = y'/8 :=
    Blit.rowMajor_inj (w := (w+7)/8) (by omega) (by omega) (by omega)
  obtain ⟨hmx,hmy⟩ := microTileIndex_inj (by omega : microTileIndex x y = microTileIndex x' y')
  omega

lemma thin1d_lt {x y w h : ℕ} (hx : x < w) (hy : y < h) :
    (y/8*((w+7)/8)+x/8)*64+microTileIndex x y < (w+7)/8*((h+7)/8)*64 := by
  have htile : y/8*((w+7)/8)+x/8 < (h+7)/8*((w+7)/8) :=
    Blit.rowMajor_lt (by omega) (by omega)
  have hmicro := microTileIndex_lt x y
  rw [Nat.mul_comm ((w+7)/8)]
  omega

/-- No texel of a surface that a resource can describe is numbered past 32 bits. -/
lemma thin1d_lt_u32 {x y w h : ℕ} (hx : x < w) (hy : y < h) (hw : w ≤ 16384) (hh : h ≤ 16384) :
    (y/8*((w+7)/8)+x/8)*64+microTileIndex x y < 2^32 :=
  calc (y/8*((w+7)/8)+x/8)*64+microTileIndex x y < (w+7)/8*((h+7)/8)*64 := thin1d_lt hx hy
    _ ≤ 2048*2048*64 := Nat.mul_le_mul_right 64 (Nat.mul_le_mul (by omega) (by omega))
    _ ≤ 2^32 := by norm_num

end Offsets

namespace SurfaceLayout

variable {l : SurfaceLayout} {x y k : ℕ}

/-- Where the guest keeps a texel. -/
def texelAt (l : SurfaceLayout) (x y : ℕ) : ℕ :=
  match l.tiling with
  | .linearGeneral => (y*l.width+x)*l.texel.bytes
  | .linearAligned => linearAlignedTexelOffset x y l.alignedPitch l.texel.bytes
  | .thin1d => thin1dTexelOffset x y l.width l.texel.bytes

lemma bytes_pos (t : TexelSize) : 0 < t.bytes := by cases t <;> decide

lemma mem_overRows {copy : ℕ → Blit.Copy} {c : Blit.Copy} :
    c ∈ l.overRows copy ↔ ∃ y, y < l.height ∧ copy y = c := by
  simp [overRows]

lemma mem_overTexels {copy : ℕ → ℕ → Blit.Copy} {c : Blit.Copy} :
    c ∈ l.overTexels copy ↔ ∃ x y, x < l.width ∧ y < l.height ∧ copy x y = c := by
  simp only [overTexels, List.mem_flatMap, List.mem_map, List.mem_range]
  constructor
  · rintro ⟨y,hy,x,hx,rfl⟩
    exact ⟨x,y,hx,hy,rfl⟩
  · rintro ⟨x,y,hx,hy,rfl⟩
    exact ⟨y,hy,x,hx,rfl⟩

lemma linear_lt (hx : x < l.width) (hy : y < l.height) (hk : k < l.texel.bytes) :
    (y*l.width+x)*l.texel.bytes+k < l.linearSize := by
  have hcell : y*l.width+x < l.height*l.width := Blit.rowMajor_lt hx hy
  have hbyte := Blit.rowMajor_lt hk hcell
  rwa [linearSize, Nat.mul_comm l.width]

lemma row_fits (hy : y < l.height) :
    (l.rowOffsets y).1+l.width*l.texel.bytes ≤ l.linearAlignedTiledSize ∧
      (l.rowOffsets y).2+l.width*l.texel.bytes ≤ l.linearSize := by
  have hpitch : l.width ≤ l.alignedPitch := width_le_linearAlignedPitchOr _ _
  constructor
  · calc (y*l.alignedPitch+0)*l.texel.bytes+l.width*l.texel.bytes
        = (y*l.alignedPitch+l.width)*l.texel.bytes := by ring
      _ ≤ (y*l.alignedPitch+l.alignedPitch)*l.texel.bytes :=
        Nat.mul_le_mul_right _ (Nat.add_le_add_left hpitch _)
      _ = ((y+1)*l.alignedPitch)*l.texel.bytes := by ring
      _ ≤ (l.height*l.alignedPitch)*l.texel.bytes :=
        Nat.mul_le_mul_right _ (Nat.mul_le_mul_right _ hy)
      _ = l.linearAlignedTiledSize := by rw [linearAlignedTiledSize, Nat.mul_comm l.height]
  · calc y*(l.width*l.texel.bytes)+l.width*l.texel.bytes = (y+1)*l.width*l.texel.bytes := by ring
      _ ≤ l.height*l.width*l.texel.bytes := Nat.mul_le_mul_right _ (Nat.mul_le_mul_right _ hy)
      _ = l.linearSize := by rw [linearSize, Nat.mul_comm l.width]

lemma texel_fits (hx : x < l.width) (hy : y < l.height) :
    (l.texelOffsets x y).1+l.texel.bytes ≤ l.thin1dTiledSize ∧
      (l.texelOffsets x y).2+l.texel.bytes ≤ l.linearSize := by
  constructor
  · calc _ = ((y/8*((l.width+7)/8)+x/8)*64+microTileIndex x y+1)*l.texel.bytes :=
        (Nat.succ_mul _ _).symm
      _ ≤ _ := Nat.mul_le_mul_right _ (thin1d_lt hx hy)
  · calc _ = (y*l.width+x+1)*l.texel.bytes := (Nat.succ_mul _ _).symm
      _ ≤ l.height*l.width*l.texel.bytes := Nat.mul_le_mul_right _ (Blit.rowMajor_lt hx hy)
      _ = l.linearSize := by rw [linearSize, Nat.mul_comm l.width]

end SurfaceLayout

section Copied

variable {src out : Bytes} {size : ℕ} {copies : List Blit.Copy}

lemma copied_isOk (hfits : ∀ c ∈ copies, c.Fits src.length size) :
    ∃ out, copied src size copies = .ok out := by
  have hfits' : ∀ c ∈ copies, c.Fits src.length (List.replicate size (0 : UInt8)).length := by
    simpa using hfits
  obtain ⟨out,hout⟩ := Blit.copyAll_isSome hfits'
  exact ⟨out,by rw [copied, hout]⟩

lemma copyAll_of_copied (h : copied src size copies = .ok out) :
    copyAll src (List.replicate size 0) copies = some out := by
  unfold copied at h
  split at h
  · rename_i heq
    cases h
    exact heq
  · cases h

lemma copied_length (h : copied src size copies = .ok out) : out.length = size := by
  rw [Blit.copyAll_length (copyAll_of_copied h), List.length_replicate]

end Copied

section Read

variable {l : SurfaceLayout} {tiled linear out : Bytes} {x y k : ℕ}

lemma row_covers (hx : x < l.width) (hk : k < l.texel.bytes) :
    x*l.texel.bytes+k < l.width*l.texel.bytes := Blit.rowMajor_lt hk hx

/-- A row of the linear view holds its texels one after the other. -/
lemma row_index (l : SurfaceLayout) (x y k : ℕ) : (y*l.width+x)*l.texel.bytes+k =
    y*(l.width*l.texel.bytes)+(x*l.texel.bytes+k) := by ring

lemma alignedRow_index (l : SurfaceLayout) (x y k : ℕ) :
    linearAlignedTexelOffset x y l.alignedPitch l.texel.bytes+k =
      y*(l.alignedPitch*l.texel.bytes)+(x*l.texel.bytes+k) := by
  unfold linearAlignedTexelOffset
  ring

/-- Enough bytes are detiled. -/
lemma detile_isOk (h : l.tiledSize ≤ tiled.length) : ∃ out, detile tiled l = .ok out := by
  unfold detile
  rw [if_neg (not_lt.mpr h)]
  cases ht : l.tiling with
  | linearGeneral => exact ⟨_,rfl⟩
  | linearAligned =>
    simp only [SurfaceLayout.tiledSize, ht] at h
    refine copied_isOk fun c hc => ?_
    obtain ⟨y,hy,rfl⟩ := SurfaceLayout.mem_overRows.mp hc
    exact ⟨(SurfaceLayout.row_fits hy).1.trans h,(SurfaceLayout.row_fits hy).2⟩
  | thin1d =>
    simp only [SurfaceLayout.tiledSize, ht] at h
    refine copied_isOk fun c hc => ?_
    obtain ⟨x,y,hx,hy,rfl⟩ := SurfaceLayout.mem_overTexels.mp hc
    exact ⟨(SurfaceLayout.texel_fits hx hy).1.trans h,(SurfaceLayout.texel_fits hx hy).2⟩

lemma not_short_of_detile (h : detile tiled l = .ok out) : l.tiledSize ≤ tiled.length := by
  by_contra hshort
  rw [detile, if_pos (not_le.mp hshort)] at h
  cases h

lemma detile_length (h : detile tiled l = .ok out) : out.length = l.linearSize := by
  have hlong := not_short_of_detile h
  rw [detile, if_neg (not_lt.mpr hlong)] at h
  cases ht : l.tiling <;> simp only [ht] at h
  case linearGeneral =>
    cases h
    simp only [SurfaceLayout.tiledSize, ht] at hlong
    rw [List.length_take, min_eq_left hlong]
  all_goals exact copied_length h

/-- A byte of a texel comes from where the guest keeps the texel. -/
theorem detile_read (h : detile tiled l = .ok out) (hx : x < l.width) (hy : y < l.height)
    (hk : k < l.texel.bytes) :
    out[(y*l.width+x)*l.texel.bytes+k]? = tiled[l.texelAt x y+k]? := by
  have hlong := not_short_of_detile h
  rw [detile, if_neg (not_lt.mpr hlong)] at h
  unfold SurfaceLayout.texelAt
  cases ht : l.tiling <;> simp only [ht] at h ⊢
  case linearGeneral =>
    cases h
    rw [List.getElem?_take_of_lt (SurfaceLayout.linear_lt hx hy hk)]
  case linearAligned =>
    have hrow := row_covers hx hk
    rw [row_index, alignedRow_index]
    refine Blit.copyAll_covered (copyAll_of_copied h) ?_ fun c hc hcovers => ?_
    · exact ⟨_,SurfaceLayout.mem_overRows.mpr ⟨y,hy,rfl⟩,Nat.le_add_right _ _,
        Nat.add_lt_add_left hrow _⟩
    · obtain ⟨y',-,rfl⟩ := SurfaceLayout.mem_overRows.mp hc
      obtain rfl := Blit.block_eq hrow hcovers.1 hcovers.2
      simp only [SurfaceLayout.rowOffsets, linearAlignedTexelOffset, Nat.add_sub_cancel_left]
      ring
  case thin1d =>
    refine Blit.copyAll_covered (copyAll_of_copied h) ?_ fun c hc hcovers => ?_
    · exact ⟨_,SurfaceLayout.mem_overTexels.mpr ⟨x,y,hx,hy,rfl⟩,Nat.le_add_right _ _,
        Nat.add_lt_add_left hk _⟩
    · obtain ⟨x',y',hx',-,rfl⟩ := SurfaceLayout.mem_overTexels.mp hc
      obtain ⟨rfl,rfl⟩ := Blit.rowMajor_inj hx' hx (Blit.block_eq hk hcovers.1 hcovers.2)
      simp only [SurfaceLayout.texelOffsets, Nat.add_sub_cancel_left]

lemma tile_isOk (h : l.linearSize ≤ linear.length) : ∃ out, tile linear l = .ok out := by
  unfold tile
  rw [if_neg (not_lt.mpr h)]
  cases ht : l.tiling with
  | linearGeneral => exact ⟨_,rfl⟩
  | linearAligned =>
    refine copied_isOk fun c hc => ?_
    obtain ⟨y,hy,rfl⟩ := SurfaceLayout.mem_overRows.mp hc
    exact ⟨(SurfaceLayout.row_fits hy).2.trans h,(SurfaceLayout.row_fits hy).1⟩
  | thin1d =>
    refine copied_isOk fun c hc => ?_
    obtain ⟨x,y,hx,hy,rfl⟩ := SurfaceLayout.mem_overTexels.mp hc
    exact ⟨(SurfaceLayout.texel_fits hx hy).2.trans h,(SurfaceLayout.texel_fits hx hy).1⟩

lemma not_short_of_tile (h : tile linear l = .ok out) : l.linearSize ≤ linear.length := by
  by_contra hshort
  rw [tile, if_pos (not_le.mp hshort)] at h
  cases h

lemma tile_length (h : tile linear l = .ok out) : out.length = l.tiledSize := by
  have hlong := not_short_of_tile h
  rw [tile, if_neg (not_lt.mpr hlong)] at h
  unfold SurfaceLayout.tiledSize
  cases ht : l.tiling <;> simp only [ht] at h ⊢
  case linearGeneral =>
    cases h
    rw [List.length_take, min_eq_left hlong]
  all_goals exact copied_length h

/-- A byte of a texel goes to where the guest keeps the texel. -/
theorem tile_read (h : tile linear l = .ok out) (hx : x < l.width) (hy : y < l.height)
    (hk : k < l.texel.bytes) :
    out[l.texelAt x y+k]? = linear[(y*l.width+x)*l.texel.bytes+k]? := by
  have hlong := not_short_of_tile h
  rw [tile, if_neg (not_lt.mpr hlong)] at h
  unfold SurfaceLayout.texelAt
  cases ht : l.tiling <;> simp only [ht] at h ⊢
  case linearGeneral =>
    cases h
    rw [List.getElem?_take_of_lt (SurfaceLayout.linear_lt hx hy hk)]
  case linearAligned =>
    have hrow := row_covers hx hk
    have hpitch : l.width*l.texel.bytes ≤ l.alignedPitch*l.texel.bytes :=
      Nat.mul_le_mul_right _ (width_le_linearAlignedPitchOr _ _)
    rw [row_index, alignedRow_index]
    refine Blit.copyAll_covered (copyAll_of_copied h) ?_ fun c hc hcovers => ?_
    · refine ⟨_,SurfaceLayout.mem_overRows.mpr ⟨y,hy,rfl⟩,?_⟩
      simp only [Blit.Copy.Covers, SurfaceLayout.rowOffsets, linearAlignedTexelOffset, Nat.add_zero,
        Nat.mul_assoc]
      omega
    · obtain ⟨y',-,rfl⟩ := SurfaceLayout.mem_overRows.mp hc
      simp only [Blit.Copy.Covers, SurfaceLayout.rowOffsets, linearAlignedTexelOffset, Nat.add_zero,
        Nat.mul_assoc] at hcovers ⊢
      obtain rfl := Blit.block_eq (hrow.trans_le hpitch) hcovers.1 (by omega)
      rw [Nat.add_sub_cancel_left]
  case thin1d =>
    refine Blit.copyAll_covered (copyAll_of_copied h) ?_ fun c hc hcovers => ?_
    · exact ⟨_,SurfaceLayout.mem_overTexels.mpr ⟨x,y,hx,hy,rfl⟩,Nat.le_add_right _ _,
        Nat.add_lt_add_left hk _⟩
    · obtain ⟨x',y',hx',-,rfl⟩ := SurfaceLayout.mem_overTexels.mp hc
      obtain ⟨rfl,rfl⟩ := thin1d_inj hx' hx (Blit.block_eq hk hcovers.1 hcovers.2)
      simp only [SurfaceLayout.texelOffsets, Nat.add_sub_cancel_left]

/-- A linear view is its texels. -/
lemma linear_ext {a b : Bytes} (ha : a.length = l.linearSize) (hb : b.length = l.linearSize)
    (h : ∀ x y k, x < l.width → y < l.height → k < l.texel.bytes →
      a[(y*l.width+x)*l.texel.bytes+k]? = b[(y*l.width+x)*l.texel.bytes+k]?) : a = b := by
  have hbytes := SurfaceLayout.bytes_pos l.texel
  refine List.ext_getElem? fun i => ?_
  by_cases hi : i < l.linearSize
  · have hcell : i/l.texel.bytes < l.width*l.height := Nat.div_lt_of_lt_mul (by rwa [Nat.mul_comm])
    have hwidth : 0 < l.width := Nat.pos_of_mul_pos_right (Nat.zero_lt_of_lt hcell)
    have hread := h (i/l.texel.bytes%l.width) (i/l.texel.bytes/l.width) (i%l.texel.bytes)
      (Nat.mod_lt _ hwidth) (Nat.div_lt_of_lt_mul hcell) (Nat.mod_lt _ hbytes)
    rwa [Nat.mul_comm _ l.width, Nat.div_add_mod, Nat.mul_comm _ l.texel.bytes,
      Nat.div_add_mod] at hread
  · rw [List.getElem?_eq_none (by omega), List.getElem?_eq_none (by omega)]

/-- What is re-tiled detiles to what it was. -/
theorem detile_tile {guest : Bytes} (h : tile linear l = .ok guest)
    (hlen : linear.length = l.linearSize) : detile guest l = .ok linear := by
  obtain ⟨out,hout⟩ := detile_isOk (tile_length h).ge
  rw [hout]
  congr 1
  refine linear_ext (detile_length hout) hlen fun x y k hx hy hk => ?_
  rw [detile_read hout hx hy hk, tile_read h hx hy hk]

end Read

section Sampling

/-- The guest bytes stand in memory from the base on. -/
def MemoryHolds (mem : Gcn.Memory) (base : BitVec 64) (tiled : Bytes) : Prop :=
  ∀ off size, off+size ≤ tiled.length →
    mem.readBytes (base+BitVec.ofNat 64 off) size =
      .ok (((tiled.drop off).take size).map UInt8.toBitVec)

/-- The bytes that sampling reads for a texel. -/
def texelBytes (mem : Gcn.Memory) (t : Gcn.TSharp) (x y : ℤ) (off : ℕ) :
    Except Gcn.InterpError (List (BitVec 8)) := do
  let texelOff ← t.texelOffset (x % t.width).toNat (y % t.height).toNat off
  mem.load (t.base+BitVec.ofNat 64 texelOff) 4

/-- The four channels that are made of them. -/
def texelChannels (F : Gcn.FloatOps) (bytes : List (BitVec 8)) : Vector Gcn.Word 4 :=
  let channel (i : ℕ) : Gcn.Word := F.div (F.ofU32 ((bytes.getD i 0).setWidth 32)) Gcn.F32.maxByte
  #v[channel 0,channel 1,channel 2,channel 3]

variable {t : TextureDesc} {tiled out : Bytes} {x y : ℕ}

lemma texel_eq (E : Gcn.Env) (t : Gcn.TSharp) (x y : ℤ) (off : ℕ) :
    E.texel t x y off = (texelBytes E.mem t x y off).map (texelChannels E.floats) := by
  unfold Gcn.Env.texel texelBytes
  dsimp only
  cases t.texelOffset (x % t.width).toNat (y % t.height).toNat off with
  | error e => rfl
  | ok texelOff =>
    simp only [Fallible.ok_bind]
    cases E.mem.load (t.base+BitVec.ofNat 64 texelOff) 4 <;> rfl

/-- Sampling looks for a texel where the upload does. -/
lemma texelOffset_sharp (hkind : tileKind t.tilingIndex ≠ .macro2d) (x y off : ℕ) :
    t.sharp.texelOffset x y off = .ok ((textureSurfaceLayout t).texelAt x y) := by
  unfold Gcn.TSharp.texelOffset SurfaceLayout.texelAt textureSurfaceLayout
  simp only [TextureDesc.sharp]
  cases h : tileKind t.tilingIndex with
  | macro2d => exact absurd h hkind
  | linear | thin1d | linearAligned => rfl

/-- Both decoders read the same fields of a resource whose pitch is programmed. -/
lemma sharp_ofWords {w0 w1 w2 w3 w4 : Gcn.Word}
    (h : (TextureDesc.ofWords w0 w1 w2 w3 w4).pitch ≠ 0) :
    (TextureDesc.ofWords w0 w1 w2 w3 w4).sharp = Gcn.TSharp.ofWords w0 w1 w2 w3 w4 := by
  simp only [TextureDesc.ofWords, ite_eq_left_iff, not_forall, ne_eq] at h
  obtain ⟨hraw,-⟩ := h
  simp only [TextureDesc.sharp, TextureDesc.ofWords, Gcn.TSharp.ofWords, if_neg hraw]

lemma texel_long (hlong : (textureSurfaceLayout t).tiledSize ≤ tiled.length) (hx : x < t.width)
    (hy : y < t.height) : (textureSurfaceLayout t).texelAt x y+4 ≤ tiled.length := by
  obtain ⟨out,hout⟩ := detile_isOk hlong
  have hread := detile_read (x := x) (y := y) (k := 3) hout hx hy (Nat.lt_succ_self 3)
  have hlin := SurfaceLayout.linear_lt (l := textureSurfaceLayout t) (x := x) (y := y) (k := 3) hx hy
    (Nat.lt_succ_self 3)
  rw [← detile_length hout] at hlin
  rw [List.getElem?_eq_getElem hlin] at hread
  obtain ⟨hlt,-⟩ := List.getElem?_eq_some_iff.mp hread.symm
  omega

/-- The upload puts at each texel's place the bytes that sampling reads for it, through the
resource that its own decoder makes of the same words. -/
theorem detile_texel {mem : Gcn.Memory} (hkind : tileKind t.tilingIndex ≠ .macro2d)
    (hmem : MemoryHolds mem t.base tiled) (hlong : (textureSurfaceLayout t).tiledSize ≤ tiled.length) :
    (∀ w0 w1 w2 w3 w4, TextureDesc.ofWords w0 w1 w2 w3 w4 = t → t.pitch ≠ 0 →
      Gcn.TSharp.ofWords w0 w1 w2 w3 w4 = t.sharp) ∧
    ∃ out, detile tiled (textureSurfaceLayout t) = .ok out ∧
      ∀ x y off, x < t.width → y < t.height →
        let bytes := ((out.drop (4*(y*t.width+x))).take 4).map UInt8.toBitVec
        texelBytes mem t.sharp x y off = .ok bytes ∧
          ∀ floats inputs, (Gcn.Env.mk floats mem inputs).texel t.sharp x y off =
            .ok (texelChannels floats bytes) := by
  refine ⟨?_,?_⟩
  · rintro w0 w1 w2 w3 w4 rfl hpitch
    exact (sharp_ofWords hpitch).symm
  obtain ⟨out,hout⟩ := detile_isOk hlong
  refine ⟨out,hout,fun x y off hx hy => ?_⟩
  have hslice : (out.drop (4*(y*t.width+x))).take 4 =
      (tiled.drop ((textureSurfaceLayout t).texelAt x y)).take 4 := by
    refine List.ext_getElem? fun k => ?_
    by_cases hk : k < 4
    · have hread := detile_read (x := x) (y := y) (k := k) hout hx hy hk
      rw [List.getElem?_take_of_lt hk, List.getElem?_take_of_lt hk, List.getElem?_drop,
        List.getElem?_drop, Nat.mul_comm 4]
      exact hread
    · rw [List.getElem?_take_eq_none (not_lt.mp hk), List.getElem?_take_eq_none (not_lt.mp hk)]
  have hbytes : texelBytes mem t.sharp x y off =
      .ok (((out.drop (4*(y*t.width+x))).take 4).map UInt8.toBitVec) := by
    have hxmod : ((x : ℤ) % (t.sharp.width : ℤ)).toNat = x := by
      rw [Int.emod_eq_of_lt (by omega) (by exact_mod_cast hx)]
      rfl
    have hymod : ((y : ℤ) % (t.sharp.height : ℤ)).toNat = y := by
      rw [Int.emod_eq_of_lt (by omega) (by exact_mod_cast hy)]
      rfl
    unfold texelBytes
    rw [hxmod, hymod, texelOffset_sharp hkind, hslice]
    simp only [Fallible.ok_bind, Gcn.Memory.load, TextureDesc.sharp,
      hmem _ 4 (texel_long hlong hx hy)]
  exact ⟨hbytes,fun floats inputs => by rw [texel_eq, hbytes]; rfl⟩

/-- Memory in which each byte is its address. -/
def countingMemory : Gcn.Memory where
  readBytes addr size := .ok ((List.range size).map fun i => BitVec.ofNat 8 (addr.toNat+i))
  length_eq := by
    intro addr size bytes h
    cases h
    simp

/-- A texture of nine by nine texels in micro-tiles. -/
theorem detile_texel_thin1d : ∃ out,
    detile ((List.range 1024).map UInt8.ofNat) ⟨.bpp32,9,9,.thin1d,9⟩ = .ok out ∧
      texelBytes countingMemory ⟨0x1000#64,9,9,2,9⟩ 8 8 0 =
        .ok (((out.drop 320).take 4).map UInt8.toBitVec) := by
  have hmem : MemoryHolds countingMemory 0x1000#64 ((List.range 1024).map UInt8.ofNat) := by
    intro off size hlen
    simp only [List.length_map, List.length_range] at hlen
    refine congrArg Except.ok (List.ext_getElem? fun i => ?_)
    by_cases hi : i < size
    · have haddr : (0x1000#64+BitVec.ofNat 64 off).toNat = 4096+off := by
        rw [BitVec.toNat_add, BitVec.toNat_ofNat, BitVec.toNat_ofNat]
        omega
      have hbyte : BitVec.ofNat 8 (4096+off+i) = BitVec.ofNat 8 (off+i) := by
        apply BitVec.eq_of_toNat_eq
        simp only [BitVec.toNat_ofNat]
        omega
      rw [haddr, List.getElem?_map, List.getElem?_map, List.getElem?_take_of_lt hi,
        List.getElem?_drop, List.getElem?_map, List.getElem?_range hi,
        List.getElem?_range (by omega)]
      simp only [Option.map_some, hbyte]
      rfl
    · rw [List.getElem?_eq_none (by simpa using hi), List.getElem?_eq_none (by simp; omega)]
  obtain ⟨-,out,hout,htexel⟩ :=
    detile_texel (t := ⟨0x1000#64,9,9,10,0,2,9⟩) (by decide) hmem (by simp; decide)
  exact ⟨out,hout,(htexel 8 8 0 (by decide) (by decide)).1⟩

end Sampling

end Unemups4.Gnm

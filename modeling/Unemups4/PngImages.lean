import Unemups4.PngFormat

/-! The images of textures, as they are written for diagnosis: without compression, and with both
checksums computed on the way. -/
namespace Unemups4.Gnm
open Checksums PngFormat

namespace Texdump

/-- The low bit of the remainder, as a mask, selects the polynomial. -/
def crcStep (crc : BitVec 32) : BitVec 32 :=
  let mask := -(crc &&& 1#32)
  (crc >>> 1) ^^^ (0xEDB88320#32 &&& mask)

def crc32 (bytes : List UInt8) : BitVec 32 :=
  ~~~(bytes.foldl (fun crc b => crcStep^[8] (crc ^^^ b.toBitVec.setWidth 32)) 0xFFFFFFFF#32)

def adler32 (bytes : List UInt8) : BitVec 32 :=
  let s := bytes.foldl (fun s x => ((s.1+x.toNat)%65521,(s.2+(s.1+x.toNat)%65521)%65521)) (1,0)
  (BitVec.ofNat 32 s.2 <<< 16) ||| BitVec.ofNat 32 s.1

def chunk (out kind data : List UInt8) : List UInt8 :=
  out ++ beBytes 4 (data.length%2^32) ++ kind ++ data ++ beBytes 4 (crc32 (kind ++ data)).toNat

/-- Each row with a filter byte before it. A row that the pixels do not hold fails its slice. -/
def scanlines (w h : ℕ) (pixels : List UInt8) : Option (List UInt8) :=
  let rowBytes := w*4
  (List.range h).foldlM (fun raw y =>
    let start := y*rowBytes
    if start+rowBytes ≤ pixels.length then
      some (raw ++ [0] ++ (pixels.drop start).take rowBytes)
    else none) []

def storedBlocks (raw : List UInt8) (off : ℕ) : List UInt8 :=
  if off < raw.length then
    let remaining := raw.length-off
    let block := min remaining 0xFFFF
    let isLast := decide (off+block ≥ raw.length)
    [if isLast then 1 else 0] ++ leBytes 2 block ++ leBytes 2 (~~~BitVec.ofNat 16 block).toNat ++
      (raw.drop off).take block ++ storedBlocks raw (off+block)
  else []
termination_by raw.length-off

end Texdump

open Texdump

/-- The bytes of the file. -/
def writeRgbaPng (w h : ℕ) (pixels : List UInt8) : Option (List UInt8) := do
  let raw ← scanlines w h pixels
  let zlib := [0x78,0x01] ++ storedBlocks raw 0 ++ beBytes 4 (Texdump.adler32 raw).toNat
  let png : List UInt8 := [0x89,80,78,71,0x0D,0x0A,0x1A,0x0A]
  let ihdr := beBytes 4 w ++ beBytes 4 h ++ [8] ++ [6] ++ [0,0,0]
  pure (chunk (chunk (chunk png [73,72,68,82] ihdr) [73,68,65,84] zlib) [73,69,78,68] [])

section Checks

lemma crcStep_eq : crcStep = crcBit := by
  funext c
  have hlow : c &&& 1#32 = if c.getLsbD 0 then 1#32 else 0#32 := by
    rw [BitVec.and_one_eq_setWidth_ofBool_getLsbD]
    cases c.getLsbD 0 <;> rfl
  unfold crcStep crcBit
  rw [hlow]
  cases c.getLsbD 0
  · simp
  · simp [BitVec.xor_comm]

lemma texdumpCrc32_eq (bytes : List UInt8) : Texdump.crc32 bytes = Checksums.crc32 bytes := by
  unfold Texdump.crc32 Checksums.crc32
  simp only [crcStep_eq, ← crcByte_eq]

lemma texdumpAdler32_eq (bytes : List UInt8) :
    (Texdump.adler32 bytes).toNat = Checksums.adler32 bytes := by
  unfold Texdump.adler32 Checksums.adler32
  rw [adler_foldl]
  have hlow : adlerLow bytes%65521 < 2^16 := (Nat.mod_lt _ (by norm_num)).trans (by norm_num)
  have hhigh : adlerHigh bytes%65521 < 2^16 := (Nat.mod_lt _ (by norm_num)).trans (by norm_num)
  have hshift : (adlerHigh bytes%65521) <<< 16%2^32 = (adlerHigh bytes%65521) <<< 16 := by
    rw [Nat.shiftLeft_eq]
    omega
  simp only [BitVec.toNat_or, BitVec.toNat_shiftLeft, BitVec.toNat_ofNat]
  rw [Nat.mod_eq_of_lt (a := adlerHigh bytes%65521) (by omega),
    Nat.mod_eq_of_lt (a := adlerLow bytes%65521) (by omega), hshift,
    ← Nat.shiftLeft_add_eq_or_of_lt hlow, Nat.shiftLeft_eq]

lemma chunk_eq {out kind data : List UInt8} (h : data.length < 2^32) :
    chunk out kind data = out ++ chunkBytes kind data := by
  rw [chunk, Nat.mod_eq_of_lt h, texdumpCrc32_eq]
  simp [chunkBytes, List.append_assoc]

end Checks

section Blocks

/-- The blocks hold what there is from the offset on, and the last of them is the final one. -/
lemma storedBlocks_eq {raw : List UInt8} {off : ℕ} (h : off < raw.length) :
    ∃ (blocks : List (List UInt8)) (data : List UInt8),
      storedBlocks raw off = blocks.flatMap (blockBytes false) ++ blockBytes true data ∧
        (∀ d ∈ blocks, d.length < 2^16) ∧ data.length < 2^16 ∧
        blocks.flatten ++ data = raw.drop off := by
  induction off using storedBlocks.induct raw with
  | case1 off hlt remaining block ih =>
    have hblock : ((raw.drop off).take block).length = block := by
      simp only [List.length_take, List.length_drop, block, remaining]
      omega
    have hnot : (~~~BitVec.ofNat 16 block).toNat = 65535-block := by
      rw [BitVec.toNat_not, BitVec.toNat_ofNat]
      omega
    have hhead : storedBlocks raw off =
        blockBytes (decide (off+block ≥ raw.length)) ((raw.drop off).take block) ++
          storedBlocks raw (off+block) := by
      rw [storedBlocks, if_pos hlt, blockBytes, hblock, ← hnot]
      simp [block, remaining]
    by_cases hlast : off+block ≥ raw.length
    · refine ⟨[],(raw.drop off).take block,?_,by simp,by omega,?_⟩
      · have hrest : storedBlocks raw (off+block) = [] := by rw [storedBlocks, if_neg (not_lt.mpr hlast)]
        rw [hhead, hrest, decide_eq_true hlast]
        simp
      · rw [List.flatten_nil, List.nil_append, List.take_of_length_le]
        rw [List.length_drop]
        omega
    · obtain ⟨blocks,data,heq,hblocks,hdata,hraw⟩ := ih (by omega)
      refine ⟨(raw.drop off).take block :: blocks,data,?_,?_,hdata,?_⟩
      · rw [hhead, heq, decide_eq_false hlast, List.flatMap_cons, List.append_assoc]
      · intro d hd
        rcases List.mem_cons.mp hd with rfl | hd
        · omega
        · exact hblocks d hd
      · rw [List.flatten_cons, List.append_assoc, hraw, ← List.drop_drop, List.take_append_drop]
  | case2 off hnlt => exact absurd h hnlt

end Blocks

section Rows

variable {w : ℕ} {pixels : List UInt8}

lemma scanlines_foldlM {n k : ℕ} (raw : List UInt8) (h : (k+n)*(w*4) ≤ pixels.length) :
    (List.range' k n).foldlM (fun raw y =>
      if y*(w*4)+w*4 ≤ pixels.length then some (raw ++ [0] ++ (pixels.drop (y*(w*4))).take (w*4))
      else none) raw = some (raw ++ rowsBytes (w*4) n (pixels.drop (k*(w*4)))) := by
  induction n generalizing k raw with
  | zero => simp [rowsBytes]
  | succ n ih =>
    have hrow : k*(w*4)+w*4 ≤ pixels.length :=
      calc k*(w*4)+w*4 = (k+1)*(w*4) := (Nat.succ_mul _ _).symm
        _ ≤ (k+(n+1))*(w*4) := Nat.mul_le_mul_right _ (by omega)
        _ ≤ pixels.length := h
    have hrest : ((pixels.drop (k*(w*4))).drop (w*4)) = pixels.drop ((k+1)*(w*4)) := by
      rw [List.drop_drop, Nat.succ_mul]
    rw [List.range'_succ, List.foldlM_cons, if_pos hrow, rowsBytes, hrest]
    refine (ih _ (by rwa [Nat.add_right_comm])).trans ?_
    simp [List.append_assoc]

end Rows

lemma scanlines_eq {w h : ℕ} {pixels : List UInt8} (hlen : pixels.length = h*(w*4)) :
    scanlines w h pixels = some (rowsBytes (w*4) h pixels) := by
  unfold scanlines
  rw [List.range_eq_range']
  simpa using scanlines_foldlM (k := 0) [] (by rw [Nat.zero_add, hlen])

/-- The compressed data of an image are its rows in stored blocks. -/
lemma readZlib_stored {raw : List UInt8} (hraw : 0 < raw.length) :
    readZlib ([0x78,0x01] ++ storedBlocks raw 0 ++ beBytes 4 (Texdump.adler32 raw).toNat) = some raw := by
  obtain ⟨blocks,data,heq,hblocks,hdata,hall⟩ := storedBlocks_eq hraw
  rw [List.drop_zero] at hall
  rw [texdumpAdler32_eq, heq, ← hall, List.append_assoc, List.append_assoc]
  exact readZlib_blocks hblocks hdata

/-- A block of up to 65535 bytes has a head of five. -/
lemma storedBlocks_length (raw : List UInt8) (off : ℕ) :
    (storedBlocks raw off).length = (raw.length-off)+5*((raw.length-off+65534)/65535) := by
  induction off using storedBlocks.induct raw with
  | case1 off hlt remaining block ih =>
    have hrest : (storedBlocks raw (off+min (raw.length-off) 0xFFFF)).length =
        (raw.length-(off+min (raw.length-off) 0xFFFF))+
          5*((raw.length-(off+min (raw.length-off) 0xFFFF)+65534)/65535) := ih
    rw [storedBlocks, if_pos hlt]
    simp only [List.length_append, List.length_take, List.length_drop, List.length_singleton,
      leBytes_length, hrest]
    omega
  | case2 off hnlt =>
    rw [storedBlocks, if_neg hnlt, List.length_nil]
    omega

/-- The encoded size. -/
lemma writeRgbaPng_length {w h : ℕ} {pixels png : List UInt8} (hlen : pixels.length = h*(w*4))
    (hpng : writeRgbaPng w h pixels = some png) :
    png.length = 63+h*(w*4+1)+5*((h*(w*4+1)+65534)/65535) := by
  rw [writeRgbaPng, scanlines_eq hlen] at hpng
  obtain rfl := Option.some.inj hpng
  simp only [chunk, List.length_append, beBytes_length, storedBlocks_length, rowsBytes_length hlen,
    List.length_cons, List.length_nil]
  omega

/-- What is written is read back: the extent and all pixels. -/
theorem writeRgbaPng_reads_back {w h : ℕ} {pixels : List UInt8} (hw : 1 ≤ w) (hh : 1 ≤ h)
    (hlen : pixels.length = w*h*4) : ∃ png, writeRgbaPng w h pixels = some png ∧
      (png.length < 2^31 → readPng png = some (w,h,pixels)) := by
  have hpixels : pixels.length = h*(w*4) := by
    rw [hlen]
    ring
  have hlines : scanlines w h pixels = some (rowsBytes (w*4) h pixels) := scanlines_eq hpixels
  have hsize : (rowsBytes (w*4) h pixels).length = h*(w*4+1) := rowsBytes_length hpixels
  generalize hraw : rowsBytes (w*4) h pixels = raw at hlines hsize
  refine ⟨_,by rw [writeRgbaPng, hlines]; rfl,fun hshort => ?_⟩
  generalize hz : [0x78,0x01] ++ storedBlocks raw 0 ++ beBytes 4 (Texdump.adler32 raw).toNat =
    zlib at hshort ⊢
  have hzlib : zlib.length < 2^31 := by
    refine lt_of_le_of_lt ?_ hshort
    simp only [chunk, List.length_append]
    omega
  have hle : h*(w*4+1) ≤ zlib.length := by
    rw [← hsize, ← hz, List.length_append, List.length_append, storedBlocks_length]
    omega
  have hwidth : w < 2^31 := by nlinarith
  have hheight : h < 2^31 := by nlinarith
  have hpos : 0 < raw.length := by
    rw [hsize]
    exact Nat.mul_pos hh (Nat.succ_pos _)
  have hheader : beBytes 4 w ++ beBytes 4 h ++ [8] ++ [6] ++ [0,0,0] =
      beBytes 4 w ++ (beBytes 4 h ++ [8,6,0,0,0]) := by simp
  rw [hheader, chunk_eq (by simp), chunk_eq (by omega), chunk_eq (by simp), List.append_assoc,
    List.append_assoc]
  have hdata : readZlib zlib = some raw := by
    rw [← hz]
    exact readZlib_stored hpos
  have hread : readRows (4*w) h raw = some pixels := by
    rw [← hraw, Nat.mul_comm w]
    exact readRows_rows (by rwa [Nat.mul_comm 4])
  exact readPng_chunks ⟨hw,hwidth⟩ ⟨hh,hheight⟩ hzlib hdata hread

/-- A hundred rows of two hundred pixels: more than a stored block holds. -/
def gradient : List UInt8 := (List.range (200*100*4)).map UInt8.ofNat

theorem writeRgbaPng_reads_back_gradient : ∃ png, writeRgbaPng 200 100 gradient = some png ∧
    readPng png = some (200,100,gradient) ∧ 2^16 < png.length := by
  have hlen : gradient.length = 200*100*4 := by simp [gradient]
  obtain ⟨png,hpng,hread⟩ := writeRgbaPng_reads_back (by norm_num) (by norm_num) hlen
  have hlength := writeRgbaPng_length hlen hpng
  refine ⟨png,hpng,hread ?_,?_⟩
  · rw [hlength]
    norm_num
  · rw [hlength]
    norm_num

end Unemups4.Gnm

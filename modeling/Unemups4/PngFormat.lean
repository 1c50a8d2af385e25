import Unemups4.Checksums

/-! The reading rules of an image of four bytes a pixel, as far as streams of stored blocks go: rows
with a filter byte each, blocks with their length twice, a zlib stream around them, and chunks with a
length and a checksum each. -/
namespace Unemups4.PngFormat
open Checksums

/-- So many bytes and the rest. -/
def takeBytes (n : ℕ) (bytes : List UInt8) : Option (List UInt8 × List UInt8) :=
  if n ≤ bytes.length then some (bytes.take n,bytes.drop n) else none

/-- Stored blocks up to the final one, and what follows it. The bits of the head above the block type
do not count. -/
def readBlocks : ℕ → List UInt8 → Option (List UInt8 × List UInt8)
  | 0,_ => none
  | fuel+1,bytes => do
      let (head,bytes) ← takeBytes 1 bytes
      let (len,bytes) ← takeBytes 2 bytes
      let (nlen,bytes) ← takeBytes 2 bytes
      guard (ofBe head/2%4 = 0 ∧ ofLe nlen = 65535-ofLe len)
      let (data,bytes) ← takeBytes (ofLe len) bytes
      if ofBe head%2 = 1 then pure (data,bytes)
      else
        let (more,bytes) ← readBlocks fuel bytes
        pure (data ++ more,bytes)

/-- A zlib stream without a dictionary, up to its end. -/
def readZlib (bytes : List UInt8) : Option (List UInt8) := do
  let (cmf,bytes) ← takeBytes 1 bytes
  let (flg,bytes) ← takeBytes 1 bytes
  guard (ofBe cmf%16 = 8 ∧ ofBe cmf/16 ≤ 7 ∧ ofBe flg/32%2 = 0 ∧ (256*ofBe cmf+ofBe flg)%31 = 0)
  let (data,bytes) ← readBlocks bytes.length bytes
  let (sum,bytes) ← takeBytes 4 bytes
  guard (ofBe sum = adler32 data ∧ bytes = [])
  pure data

def readChunk (bytes : List UInt8) : Option ((List UInt8 × List UInt8) × List UInt8) := do
  let (len,bytes) ← takeBytes 4 bytes
  guard (ofBe len < 2^31)
  let (kind,bytes) ← takeBytes 4 bytes
  let (data,bytes) ← takeBytes (ofBe len) bytes
  let (crc,bytes) ← takeBytes 4 bytes
  guard (ofBe crc = (crc32 (kind ++ data)).toNat)
  pure ((kind,data),bytes)

def ihdr : List UInt8 := [73,72,68,82]

def idat : List UInt8 := [73,68,65,84]

def iend : List UInt8 := [73,69,78,68]

def signature : List UInt8 := [0x89,80,78,71,0x0D,0x0A,0x1A,0x0A]

/-- The data of the image chunks up to the end of the file. -/
def readImageData : ℕ → List UInt8 → Option (List UInt8)
  | 0,_ => none
  | fuel+1,bytes => do
      let ((kind,data),bytes) ← readChunk bytes
      if kind = iend then
        guard (data = [] ∧ bytes = [])
        pure []
      else
        guard (kind = idat)
        let more ← readImageData fuel bytes
        pure (data ++ more)

/-- So many rows without a filter. -/
def readRows (rowBytes : ℕ) : ℕ → List UInt8 → Option (List UInt8)
  | 0,bytes => if bytes = [] then some [] else none
  | rows+1,bytes => do
      let (filter,bytes) ← takeBytes 1 bytes
      guard (filter = [0])
      let (row,bytes) ← takeBytes rowBytes bytes
      let more ← readRows rowBytes rows bytes
      pure (row ++ more)

/-- The extent and the pixels of an image with eight bits a channel and an alpha channel, not
interlaced. -/
def readPng (bytes : List UInt8) : Option (ℕ × ℕ × List UInt8) := do
  let (magic,bytes) ← takeBytes 8 bytes
  guard (magic = signature)
  let ((kind,header),bytes) ← readChunk bytes
  guard (kind = ihdr ∧ header.length = 13)
  let width := ofBe (header.take 4)
  let height := ofBe ((header.drop 4).take 4)
  guard (0 < width ∧ width < 2^31 ∧ 0 < height ∧ height < 2^31 ∧ header.drop 8 = [8,6,0,0,0])
  let zlib ← readImageData bytes.length bytes
  let raw ← readZlib zlib
  let pixels ← readRows (4*width) height raw
  pure (width,height,pixels)

/-- A stored block. -/
def blockBytes (last : Bool) (data : List UInt8) : List UInt8 :=
  (if last then 1 else 0) :: leBytes 2 data.length ++ leBytes 2 (65535-data.length) ++ data

def chunkBytes (kind data : List UInt8) : List UInt8 :=
  beBytes 4 data.length ++ kind ++ data ++ beBytes 4 (crc32 (kind ++ data)).toNat

/-- Rows with the filter byte that leaves them as they are. -/
def rowsBytes (rowBytes : ℕ) : ℕ → List UInt8 → List UInt8
  | 0,_ => []
  | rows+1,pixels => 0 :: pixels.take rowBytes ++ rowsBytes rowBytes rows (pixels.drop rowBytes)

section Read

variable {a b rest data more : List UInt8} {n fuel : ℕ}

@[simp] lemma takeBytes_append (h : a.length = n) : takeBytes n (a ++ b) = some (a,b) := by
  subst h
  simp [takeBytes]

lemma takeBytes_cons (x : UInt8) : takeBytes 1 (x :: b) = some ([x],b) :=
  takeBytes_append (a := [x]) rfl

lemma readBlocks_last (h : data.length < 2^16) :
    readBlocks (fuel+1) (blockBytes true data ++ rest) = some (data,rest) := by
  have hlen : ofLe (leBytes 2 data.length) = data.length := ofLe_leBytes_of_lt h
  have hnot : ofLe (leBytes 2 (65535-data.length)) = 65535-data.length :=
    ofLe_leBytes_of_lt (by omega)
  simp [readBlocks, blockBytes, takeBytes_cons, List.append_assoc, hlen, hnot, ofBe]

lemma readBlocks_more (h : data.length < 2^16) :
    readBlocks (fuel+1) (blockBytes false data ++ rest) =
      (readBlocks fuel rest).map fun r => (data ++ r.1,r.2) := by
  have hlen : ofLe (leBytes 2 data.length) = data.length := ofLe_leBytes_of_lt h
  have hnot : ofLe (leBytes 2 (65535-data.length)) = 65535-data.length :=
    ofLe_leBytes_of_lt (by omega)
  simp [readBlocks, blockBytes, takeBytes_cons, List.append_assoc, hlen, hnot, ofBe,
    Option.map_eq_bind]

/-- Blocks one after the other, the final one last. -/
theorem readBlocks_blocks {blocks : List (List UInt8)} (hblocks : ∀ d ∈ blocks, d.length < 2^16)
    (hdata : data.length < 2^16) (hfuel : blocks.length < fuel) :
    readBlocks fuel (blocks.flatMap (blockBytes false) ++ (blockBytes true data ++ rest)) =
      some (blocks.flatten ++ data,rest) := by
  induction blocks generalizing fuel with
  | nil =>
    obtain ⟨fuel,rfl⟩ := Nat.exists_eq_add_of_lt hfuel
    simpa using readBlocks_last hdata
  | cons d ds ih =>
    obtain ⟨fuel,rfl⟩ : ∃ n, fuel = n+1 := ⟨fuel-1,by omega⟩
    rw [List.length_cons] at hfuel
    rw [List.flatMap_cons, List.append_assoc, readBlocks_more (hblocks d List.mem_cons_self),
      ih (fun d' hd' => hblocks d' (List.mem_cons_of_mem d hd')) (by omega)]
    simp

lemma readZlib_of_blocks {stream sum : List UInt8}
    (hblocks : readBlocks stream.length stream = some (data,sum)) (hlen : sum.length = 4)
    (hsum : ofBe sum = adler32 data) : readZlib (0x78 :: 0x01 :: stream) = some data := by
  have htake : takeBytes 4 sum = some (sum,[]) := by simpa using takeBytes_append (b := []) hlen
  -- The checksum is kept apart from its definition, which nothing here looks into.
  obtain ⟨checksum,hchecksum⟩ : ∃ n, adler32 data = n := ⟨_,rfl⟩
  rw [hchecksum] at hsum
  simp only [readZlib, takeBytes_cons, Option.bind_eq_bind, Option.bind_some, hblocks, htake, hsum,
    hchecksum]
  simp [ofBe]

theorem readZlib_blocks {blocks : List (List UInt8)} (hblocks : ∀ d ∈ blocks, d.length < 2^16)
    (hdata : data.length < 2^16) :
    readZlib (0x78 :: 0x01 :: (blocks.flatMap (blockBytes false) ++ (blockBytes true data ++
      beBytes 4 (adler32 (blocks.flatten ++ data))))) = some (blocks.flatten ++ data) := by
  have hfuel : blocks.length < (blocks.flatMap (blockBytes false) ++ (blockBytes true data ++
      beBytes 4 (adler32 (blocks.flatten ++ data)))).length := by
    have hle : blocks.length ≤ (blocks.flatMap (blockBytes false)).length := by
      rw [List.length_flatMap, ← List.length_map (f := fun d => (blockBytes false d).length)]
      exact List.length_le_sum_of_one_le _ fun n hn => by
        obtain ⟨d,-,rfl⟩ := List.mem_map.mp hn
        simp [blockBytes]
    simp only [List.length_append, beBytes_length]
    omega
  exact readZlib_of_blocks (readBlocks_blocks hblocks hdata hfuel) (beBytes_length 4 _)
    (ofBe_beBytes_of_lt (adler32_lt _))

theorem readChunk_chunk {kind : List UInt8} (hkind : kind.length = 4) (hdata : data.length < 2^31) :
    readChunk (chunkBytes kind data ++ rest) = some ((kind,data),rest) := by
  have hlen : ofBe (beBytes 4 data.length) = data.length := ofBe_beBytes_of_lt (by omega)
  have hcrc : ofBe (beBytes 4 (crc32 (kind ++ data)).toNat) = (crc32 (kind ++ data)).toNat :=
    ofBe_beBytes_of_lt (crc32 (kind ++ data)).isLt
  have hshort : data.length < 2147483648 := hdata
  simp [readChunk, chunkBytes, List.append_assoc, hlen, hcrc, hkind, hshort]

lemma readImageData_one (hdata : data.length < 2^31) (hfuel : 1 < fuel) :
    readImageData fuel (chunkBytes idat data ++ chunkBytes iend []) = some data := by
  obtain ⟨fuel,rfl⟩ : ∃ n, fuel = n+2 := ⟨fuel-2,by omega⟩
  have hdata' : readChunk (chunkBytes idat data ++ chunkBytes iend []) =
      some ((idat,data),chunkBytes iend []) := readChunk_chunk rfl hdata
  have hend : readChunk (chunkBytes iend [] ++ []) = some ((iend,[]),[]) :=
    readChunk_chunk rfl (by norm_num)
  rw [List.append_nil] at hend
  simp [readImageData, hdata', hend, show idat ≠ iend by decide]

lemma rowsBytes_length {rowBytes rows : ℕ} {pixels : List UInt8} (h : pixels.length = rows*rowBytes) :
    (rowsBytes rowBytes rows pixels).length = rows*(rowBytes+1) := by
  induction rows generalizing pixels with
  | zero => simp [rowsBytes]
  | succ rows ih =>
    rw [Nat.succ_mul] at h
    have hrest : (rowsBytes rowBytes rows (pixels.drop rowBytes)).length = rows*(rowBytes+1) :=
      ih (by rw [List.length_drop]; omega)
    rw [rowsBytes, List.length_append, List.length_cons, List.length_take, hrest, Nat.succ_mul]
    omega

lemma readRows_rows {rowBytes rows : ℕ} {pixels : List UInt8} (h : pixels.length = rows*rowBytes) :
    readRows rowBytes rows (rowsBytes rowBytes rows pixels) = some pixels := by
  induction rows generalizing pixels with
  | zero =>
    obtain rfl := List.length_eq_zero_iff.mp (by simpa using h)
    simp [readRows, rowsBytes]
  | succ rows ih =>
    rw [Nat.succ_mul] at h
    have hrow : (pixels.take rowBytes).length = rowBytes := by
      rw [List.length_take]
      omega
    have hrest : readRows rowBytes rows (rowsBytes rowBytes rows (pixels.drop rowBytes)) =
        some (pixels.drop rowBytes) := ih (by rw [List.length_drop]; omega)
    simp [readRows, rowsBytes, takeBytes_cons, hrow, hrest]

/-- A file with its image data in one chunk. -/
theorem readPng_chunks {width height : ℕ} {zlib raw pixels : List UInt8}
    (hwidth : 0 < width ∧ width < 2^31) (hheight : 0 < height ∧ height < 2^31)
    (hzlib : zlib.length < 2^31) (hraw : readZlib zlib = some raw)
    (hrows : readRows (4*width) height raw = some pixels) :
    readPng (signature ++ (chunkBytes ihdr (beBytes 4 width ++ (beBytes 4 height ++ [8,6,0,0,0])) ++
      (chunkBytes idat zlib ++ chunkBytes iend []))) = some (width,height,pixels) := by
  have hmagic : takeBytes 8 (signature ++ (chunkBytes ihdr (beBytes 4 width ++
      (beBytes 4 height ++ [8,6,0,0,0])) ++ (chunkBytes idat zlib ++ chunkBytes iend []))) =
        some (signature,_) := takeBytes_append rfl
  have hheader : readChunk (chunkBytes ihdr (beBytes 4 width ++ (beBytes 4 height ++ [8,6,0,0,0])) ++
      (chunkBytes idat zlib ++ chunkBytes iend [])) =
        some ((ihdr,beBytes 4 width ++ (beBytes 4 height ++ [8,6,0,0,0])),_) :=
    readChunk_chunk rfl (by simp)
  have hw : ofBe (beBytes 4 width) = width := ofBe_beBytes_of_lt (by omega)
  have hh : ofBe (beBytes 4 height) = height := ofBe_beBytes_of_lt (by omega)
  have hfuel : 1 < (chunkBytes idat zlib ++ chunkBytes iend []).length := by
    simp only [chunkBytes, List.length_append, beBytes_length]
    omega
  have hdrop : (beBytes 4 width ++ (beBytes 4 height ++ [8,6,0,0,0])).drop 8 = [8,6,0,0,0] := by
    rw [← List.append_assoc]
    exact List.drop_left' (by simp)
  have htake : (beBytes 4 width ++ (beBytes 4 height ++ [8,6,0,0,0])).take 4 = beBytes 4 width :=
    List.take_left' (beBytes_length 4 width)
  have hmid : ((beBytes 4 width ++ (beBytes 4 height ++ [8,6,0,0,0])).drop 4).take 4 =
      beBytes 4 height := by
    rw [List.drop_left' (beBytes_length 4 width)]
    exact List.take_left' (beBytes_length 4 height)
  simp only [readPng, hmagic, hheader, Option.bind_eq_bind, Option.bind_some, hdrop, htake, hmid, hw, hh,
    hwidth, hheight, readImageData_one hzlib hfuel, hraw, hrows]
  simp

end Read

end Unemups4.PngFormat

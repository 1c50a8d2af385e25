import Mathlib

/-! Numbers as bytes, and the two checksums of stored streams: a cyclic redundancy check by a table of
remainders, and a pair of sums. -/
namespace Unemups4.Checksums

section Numbers

/-- The last bytes of a number, the most significant first. -/
def beBytes : ℕ → ℕ → List UInt8
  | 0,_ => []
  | len+1,n => beBytes len (n/256) ++ [UInt8.ofNat n]

def ofBe (bytes : List UInt8) : ℕ := bytes.foldl (fun n b => 256*n+b.toNat) 0

def leBytes (len n : ℕ) : List UInt8 := (beBytes len n).reverse

def ofLe (bytes : List UInt8) : ℕ := ofBe bytes.reverse

@[simp] lemma beBytes_length (len n : ℕ) : (beBytes len n).length = len := by
  induction len generalizing n with
  | zero => rfl
  | succ len ih => simp [beBytes, ih]

@[simp] lemma leBytes_length (len n : ℕ) : (leBytes len n).length = len := by simp [leBytes]

lemma ofBe_beBytes (len n : ℕ) : ofBe (beBytes len n) = n%256^len := by
  induction len generalizing n with
  | zero => simp [beBytes, ofBe, Nat.mod_one]
  | succ len ih =>
    have hlast : ofBe (beBytes len (n/256) ++ [UInt8.ofNat n]) =
        256*ofBe (beBytes len (n/256))+n%256 := by simp [ofBe]
    rw [beBytes, hlast, ih, Nat.pow_succ', Nat.mod_mul]
    omega

lemma ofBe_beBytes_of_lt {len n : ℕ} (h : n < 256^len) : ofBe (beBytes len n) = n := by
  rw [ofBe_beBytes, Nat.mod_eq_of_lt h]

lemma ofLe_leBytes_of_lt {len n : ℕ} (h : n < 256^len) : ofLe (leBytes len n) = n := by
  rw [ofLe, leBytes, List.reverse_reverse, ofBe_beBytes_of_lt h]

end Numbers

section Crc

/-- A bit of the division by the reversed polynomial. -/
def crcBit (c : BitVec 32) : BitVec 32 :=
  if c.getLsbD 0 then 0xEDB88320#32 ^^^ (c >>> 1) else c >>> 1

/-- The remainder of a byte. -/
def crcTable (n : BitVec 32) : BitVec 32 := crcBit^[8] n

def crcByte (c : BitVec 32) (b : UInt8) : BitVec 32 :=
  crcTable ((c ^^^ b.toBitVec.setWidth 32) &&& 0xFF#32) ^^^ (c >>> 8)

def crc32 (bytes : List UInt8) : BitVec 32 := ~~~(bytes.foldl crcByte 0xFFFFFFFF#32)

lemma getLsbD_crcBit (c : BitVec 32) (i : ℕ) : (crcBit c).getLsbD i =
    ((0xEDB88320#32).getLsbD i && c.getLsbD 0 ^^ c.getLsbD (1+i)) := by
  unfold crcBit
  cases c.getLsbD 0 <;> simp

lemma crcBit_xor (a b : BitVec 32) : crcBit (a ^^^ b) = crcBit a ^^^ crcBit b := by
  refine BitVec.eq_of_getLsbD_eq fun i _ => ?_
  simp only [getLsbD_crcBit, BitVec.getLsbD_xor]
  cases (0xEDB88320#32).getLsbD i <;> cases a.getLsbD 0 <;> cases b.getLsbD 0 <;>
    cases a.getLsbD (1+i) <;> cases b.getLsbD (1+i) <;> rfl

lemma crcBit_iterate_xor (n : ℕ) (a b : BitVec 32) :
    crcBit^[n] (a ^^^ b) = crcBit^[n] a ^^^ crcBit^[n] b := by
  induction n generalizing a b with
  | zero => rfl
  | succ n ih => rw [Function.iterate_succ_apply, crcBit_xor, ih]; rfl

/-- Where the low bits are clear, the division only moves the rest down. -/
lemma crcBit_iterate_high {y : BitVec 32} {n : ℕ} (h : ∀ i, i < n → y.getLsbD i = false) :
    crcBit^[n] y = y >>> n := by
  induction n with
  | zero => simp
  | succ n ih =>
    have hlow : (y >>> n).getLsbD 0 = false := by simpa using h n (Nat.lt_succ_self n)
    rw [Function.iterate_succ_apply', ih fun i hi => h i (Nat.lt_succ_of_lt hi), crcBit, hlow,
      BitVec.shiftRight_add]
    rfl

lemma getLsbD_byteMask (i : ℕ) : (0xFF#32).getLsbD i = decide (i < 8) := by
  rw [BitVec.getLsbD_ofNat, show 0xFF = 2^8-1 by rfl, Nat.testBit_two_pow_sub_one]
  by_cases hi : i < 8
  · simp [hi]
    omega
  · simp [hi]

/-- A byte at a time is the same division as bit by bit. -/
theorem crcByte_eq (c : BitVec 32) (b : UInt8) :
    crcByte c b = crcBit^[8] (c ^^^ b.toBitVec.setWidth 32) := by
  let x := c ^^^ b.toBitVec.setWidth 32
  have hsplit : x = (x &&& 0xFF#32) ^^^ (x &&& ~~~0xFF#32) := by
    refine BitVec.eq_of_getLsbD_eq fun i hi => ?_
    simp only [BitVec.getLsbD_xor, BitVec.getLsbD_and, BitVec.getLsbD_not, hi, decide_true]
    cases x.getLsbD i <;> cases (0xFF#32).getLsbD i <;> rfl
  have hhigh : crcBit^[8] (x &&& ~~~0xFF#32) = (x &&& ~~~0xFF#32) >>> 8 :=
    crcBit_iterate_high fun i hi => by
      rw [BitVec.getLsbD_and, BitVec.getLsbD_not, getLsbD_byteMask]
      simp [hi]
  have hshift : (x &&& ~~~0xFF#32) >>> 8 = c >>> 8 := by
    refine BitVec.eq_of_getLsbD_eq fun i hi => ?_
    simp only [BitVec.getLsbD_ushiftRight, BitVec.getLsbD_and, BitVec.getLsbD_not, x,
      BitVec.getLsbD_xor, BitVec.getLsbD_setWidth, getLsbD_byteMask]
    by_cases hword : 8+i < 32
    · simp [hword]
    · simp [hword, BitVec.getLsbD_of_ge c (8+i) (not_lt.mp hword)]
  change crcBit^[8] (x &&& 0xFF#32) ^^^ (c >>> 8) = crcBit^[8] x
  conv_rhs => rw [hsplit, crcBit_iterate_xor, hhigh, hshift]

end Crc

section Adler

/-- One more than the sum of the bytes. -/
def adlerLow (bytes : List UInt8) : ℕ := 1+(bytes.map UInt8.toNat).sum

/-- The sum of these over all starts of the stream. -/
def adlerHigh (bytes : List UInt8) : ℕ :=
  ((List.range bytes.length).map fun i => adlerLow (bytes.take (i+1))).sum

def adler32 (bytes : List UInt8) : ℕ := adlerHigh bytes%65521*65536+adlerLow bytes%65521

lemma adler32_lt (bytes : List UInt8) : adler32 bytes < 256^4 := by
  unfold adler32
  omega

lemma adlerLow_append (bytes : List UInt8) (b : UInt8) :
    adlerLow (bytes ++ [b]) = adlerLow bytes+b.toNat := by
  simp [adlerLow, Nat.add_assoc]

lemma adlerHigh_append (bytes : List UInt8) (b : UInt8) :
    adlerHigh (bytes ++ [b]) = adlerHigh bytes+adlerLow (bytes ++ [b]) := by
  have hstart : ∀ i ∈ List.range bytes.length,
      adlerLow ((bytes ++ [b]).take (i+1)) = adlerLow (bytes.take (i+1)) := fun i hi => by
    rw [List.take_append_of_le_length (List.mem_range.mp hi)]
  rw [adlerHigh, List.length_append, List.length_singleton, List.range_succ, List.map_append,
    List.sum_append, List.map_congr_left hstart, ← adlerHigh, List.map_singleton, List.sum_singleton,
    List.take_of_length_le (by simp)]

/-- The sums may be reduced at each byte. -/
theorem adler_foldl (bytes : List UInt8) :
    bytes.foldl (fun s x => ((s.1+x.toNat)%65521,(s.2+(s.1+x.toNat)%65521)%65521)) (1,0) =
      (adlerLow bytes%65521,adlerHigh bytes%65521) := by
  induction bytes using List.reverseRecOn with
  | nil => rfl
  | append_singleton bytes b ih =>
    rw [List.foldl_append, ih, adlerHigh_append, adlerLow_append]
    simp [Nat.add_mod]

end Adler

end Unemups4.Checksums

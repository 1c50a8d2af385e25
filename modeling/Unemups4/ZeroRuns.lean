import Unemups4.Checksums

/-! The payload of a captured command buffer: chunks of bytes as they are and of zeroes that are only
counted. The console streams the chunks while it scans, after a first scan has told how many bytes
they come to; the host's encoder writes the same chunks into a list. -/
namespace Unemups4.Scrape
open Checksums

def minZeroRun : ℕ := 8

/-- A pending literal, if there is one. -/
def flushLit (lit : List UInt8) : List UInt8 :=
  if lit = [] then [] else 0 :: leBytes 4 lit.length ++ lit

def zeroRun (run : ℕ) : List UInt8 := 1 :: leBytes 4 run

/-- How many zeroes the rest starts with. -/
def zeroesOf (data : List UInt8) : ℕ := (data.takeWhile (· = 0)).length

lemma zeroesOf_le (data : List UInt8) : zeroesOf data ≤ data.length :=
  (List.takeWhile_prefix _).length_le

/-- The scan moves on past the zeroes at its place. -/
lemma drop_zeroesOf_lt {b : UInt8} (rest : List UInt8) (h : b = 0) :
    ((b :: rest).drop (zeroesOf (b :: rest))).length < (b :: rest).length := by
  have hpos : 0 < zeroesOf (b :: rest) := by simp [zeroesOf, h]
  rw [List.length_drop, List.length_cons]
  omega

lemma take_zeroesOf (data : List UInt8) :
    data.take (zeroesOf data) = List.replicate (zeroesOf data) 0 := by
  have htake : data.take (zeroesOf data) = data.takeWhile (· = 0) :=
    List.prefix_iff_eq_take.mp (List.takeWhile_prefix _) |>.symm
  rw [htake, List.eq_replicate_iff]
  exact ⟨rfl,fun b hb => by simpa using List.mem_takeWhile_imp hb⟩

/-- The scan of the encoder, with what lies between the pending start and the place reached. -/
def rleEncodeFrom (lit : List UInt8) : List UInt8 → List UInt8
  | [] => flushLit lit
  | b :: rest =>
      if b = 0 then
        if minZeroRun ≤ zeroesOf (b :: rest) then
          flushLit lit ++ zeroRun (zeroesOf (b :: rest)) ++
            rleEncodeFrom [] ((b :: rest).drop (zeroesOf (b :: rest)))
        else
          rleEncodeFrom (lit ++ (b :: rest).take (zeroesOf (b :: rest)))
            ((b :: rest).drop (zeroesOf (b :: rest)))
      else rleEncodeFrom (lit ++ [b]) rest
termination_by data => data.length
decreasing_by
  · exact drop_zeroesOf_lt rest ‹_›
  · exact drop_zeroesOf_lt rest ‹_›
  · simp

def rleEncode (data : List UInt8) : List UInt8 := rleEncodeFrom [] data

/-- What a pending literal comes to. -/
def litSize (lit : ℕ) : ℕ := if 0 < lit then lit+5 else 0

/-- The first scan of the console, with the length of the pending literal. -/
def rleSizeFrom (lit : ℕ) : List UInt8 → ℕ
  | [] => litSize lit
  | b :: rest =>
      if b = 0 then
        if minZeroRun ≤ zeroesOf (b :: rest) then
          litSize lit+5+rleSizeFrom 0 ((b :: rest).drop (zeroesOf (b :: rest)))
        else rleSizeFrom (lit+zeroesOf (b :: rest)) ((b :: rest).drop (zeroesOf (b :: rest)))
      else rleSizeFrom (lit+1) rest
termination_by data => data.length
decreasing_by
  · exact drop_zeroesOf_lt rest ‹_›
  · exact drop_zeroesOf_lt rest ‹_›
  · simp

def rleSize (data : List UInt8) : ℕ := rleSizeFrom 0 data

/-- What reading a frame fails with. -/
inductive ReadError
  | truncatedLength | truncatedBody
  | badOp (op : UInt8)
  | badSize (decoded claimed : ℕ)
  | badMagic (magic : ℕ)
  | endOfHeader | endOfPayload | host
  deriving DecidableEq

def rleChunks (out : List UInt8) : List UInt8 → Except ReadError (List UInt8)
  | [] => .ok out
  | op :: payload =>
      if payload.length < 4 then .error .truncatedLength else
        let len := ofLe (payload.take 4)
        let body := payload.drop 4
        if op = 0 then
          if body.length < len then .error .truncatedBody
          else rleChunks (out ++ body.take len) (body.drop len)
        else if op = 1 then rleChunks (out ++ .replicate len 0) body
        else .error (.badOp op)
termination_by payload => payload.length
decreasing_by
  all_goals simp only [List.length_drop, List.length_cons]; omega

def rleDecode (payload : List UInt8) (rawSize : ℕ) : Except ReadError (List UInt8) := do
  let out ← rleChunks [] payload
  if out.length ≠ rawSize then .error (.badSize out.length rawSize) else .ok out

section Decode

variable {out lit data more : List UInt8} {run : ℕ}

lemma rleChunks_literal (h : lit.length < 2^32) :
    rleChunks out (0 :: leBytes 4 lit.length ++ lit ++ more) = rleChunks (out ++ lit) more := by
  have hlen : ofLe (leBytes 4 lit.length) = lit.length := ofLe_leBytes_of_lt h
  rw [List.cons_append, List.cons_append, List.append_assoc, rleChunks]
  simp [hlen]

lemma rleChunks_flushLit (h : lit.length < 2^32) :
    rleChunks out (flushLit lit ++ more) = rleChunks (out ++ lit) more := by
  by_cases hlit : lit = []
  · simp [flushLit, hlit]
  · rw [flushLit, if_neg hlit, rleChunks_literal h]

lemma rleChunks_zeroRun (h : run < 2^32) :
    rleChunks out (zeroRun run ++ more) = rleChunks (out ++ .replicate run 0) more := by
  have hlen : ofLe (leBytes 4 run) = run := ofLe_leBytes_of_lt h
  rw [zeroRun, List.cons_append, rleChunks]
  simp [hlen]

/-- Whatever comes after the chunks, they give back the literal that was pending and the data. -/
theorem rleChunks_encodeFrom (h : lit.length+data.length < 2^32) :
    rleChunks out (rleEncodeFrom lit data ++ more) = rleChunks (out ++ lit ++ data) more := by
  induction lit, data using rleEncodeFrom.induct generalizing out with
  | case1 lit =>
    rw [rleEncodeFrom, rleChunks_flushLit (by omega), List.append_nil]
  | case2 lit rest hrun ih =>
    have hle := zeroesOf_le (0 :: rest)
    have hdata : List.replicate (zeroesOf (0 :: rest)) 0 ++
        (0 :: rest).drop (zeroesOf (0 :: rest)) = 0 :: rest := by
      rw [← take_zeroesOf, List.take_append_drop]
    rw [rleEncodeFrom, if_pos rfl, if_pos hrun, List.append_assoc, List.append_assoc,
      rleChunks_flushLit (by omega), rleChunks_zeroRun (by omega), ih (by simp at h ⊢; omega)]
    simp only [List.append_nil, List.append_assoc, hdata]
  | case3 lit rest hrun ih =>
    have hle := zeroesOf_le (0 :: rest)
    rw [rleEncodeFrom, if_pos rfl, if_neg hrun, ih (by simp at h hle ⊢; omega)]
    simp only [List.append_assoc, List.take_append_drop]
  | case4 lit b rest hb ih =>
    rw [rleEncodeFrom, if_neg hb, ih (by simp at h ⊢; omega)]
    simp only [List.append_assoc, List.singleton_append]

/-- A payload decodes to what it was made from. -/
theorem rleDecode_rleEncode (h : data.length < 2^32) :
    rleDecode (rleEncode data) data.length = .ok data := by
  have hchunks : rleChunks [] (rleEncodeFrom [] data) = .ok data := by
    have hall := @rleChunks_encodeFrom [] [] data [] (by simpa using h)
    simpa [rleChunks] using hall
  rw [rleDecode, rleEncode, hchunks]
  simp [bind, Except.bind]

end Decode

section Size

variable {lit data : List UInt8}

lemma flushLit_length (lit : List UInt8) : (flushLit lit).length = litSize lit.length := by
  cases lit with
  | nil => rfl
  | cons b rest =>
    simp [flushLit, litSize]
    omega

/-- The first scan of the console tells what the second sends. -/
theorem rleEncodeFrom_length (lit data : List UInt8) :
    (rleEncodeFrom lit data).length = rleSizeFrom lit.length data := by
  induction lit, data using rleEncodeFrom.induct with
  | case1 lit => rw [rleEncodeFrom, rleSizeFrom, flushLit_length]
  | case2 lit rest hrun ih =>
    rw [rleEncodeFrom, if_pos rfl, if_pos hrun, rleSizeFrom, if_pos rfl, if_pos hrun,
      List.length_append, List.length_append, flushLit_length, ih]
    simp [zeroRun]
  | case3 lit rest hrun ih =>
    have htake : ((0 :: rest).take (zeroesOf (0 :: rest))).length = zeroesOf (0 :: rest) := by
      rw [List.length_take, Nat.min_eq_left (zeroesOf_le _)]
    rw [rleEncodeFrom, if_pos rfl, if_neg hrun, rleSizeFrom, if_pos rfl, if_neg hrun, ih,
      List.length_append, htake]
  | case4 lit b rest hb ih =>
    rw [rleEncodeFrom, if_neg hb, rleSizeFrom, if_neg hb, ih, List.length_append,
      List.length_singleton]

/-- Chunk heads cost two bytes more than the shortest run and the byte before it take, at worst. -/
theorem rleSizeFrom_le (lit : ℕ) (data : List UInt8) :
    9*rleSizeFrom lit data ≤ 11*(lit+data.length)+45 := by
  induction lit, data using rleSizeFrom.induct with
  | case1 lit =>
    rw [rleSizeFrom, litSize]
    split_ifs <;> omega
  | case2 lit rest hrun ih =>
    have hle := zeroesOf_le (0 :: rest)
    rw [rleSizeFrom, if_pos rfl, if_pos hrun, litSize]
    rw [List.length_drop] at ih
    rw [minZeroRun] at hrun
    split_ifs <;> omega
  | case3 lit rest hrun ih =>
    have hle := zeroesOf_le (0 :: rest)
    rw [rleSizeFrom, if_pos rfl, if_neg hrun]
    rw [List.length_drop] at ih
    omega
  | case4 lit b rest hb ih =>
    rw [rleSizeFrom, if_neg hb]
    simp only [List.length_cons] at ih ⊢
    omega

theorem rleSize_lt {n : ℕ} (h : data.length ≤ n) (hn : 11*n+45 < 9*2^32) : rleSize data < 2^32 := by
  have hle : 9*rleSize data ≤ 11*(0+data.length)+45 := rleSizeFrom_le 0 data
  omega

end Size

end Unemups4.Scrape

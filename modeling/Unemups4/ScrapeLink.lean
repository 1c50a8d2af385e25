import Unemups4.ZeroRuns

/-! The capture link. The console sends one frame for each command buffer of a hooked call and gives a
connection up at the first send that fails, wherever in the frame that happens; the receiver reads
frames off what arrives until the stream ends or reads wrong. What sockets and disks answer is a
list: where it ends, every further call goes through. -/
namespace Unemups4.Scrape
open Checksums

def wireMagic : ℕ := 0x344D4E47

def headerLen : ℕ := 20

def maxBufBytes : ℕ := 32*1024*1024

def reconnectEvery : ℕ := 120

inductive Kind
  | submit | flip | submitWorkload | flipWorkload | vbuf
  | unknown (v : UInt8)
  deriving DecidableEq

def Kind.fromU8 (v : UInt8) : Kind :=
  if v = 0 then .submit
  else if v = 1 then .flip
  else if v = 2 then .submitWorkload
  else if v = 3 then .flipWorkload
  else if v = 4 then .vbuf
  else .unknown v

def Kind.byte : Kind → UInt8
  | .submit => 0
  | .flip => 1
  | .submitWorkload => 2
  | .flipWorkload => 3
  | .vbuf => 4
  | .unknown v => v

def Kind.tag : Kind → String
  | .submit => "submit"
  | .flip => "flip"
  | .submitWorkload => "submitwl"
  | .flipWorkload => "flipwl"
  | .vbuf => "vbuf"
  | .unknown _ => "unknown"

/-- A command buffer as a hooked call hands it over. -/
structure Buffer where
  frame : UInt32
  kind : UInt8
  bufIndex : UInt8
  isCcb : UInt8
  flip : UInt8
  data : List UInt8
  deriving DecidableEq

structure Header where
  frame : ℕ
  kind : Kind
  bufIndex : UInt8
  isCcb : Bool
  flip : Bool
  rawSize : ℕ
  deriving DecidableEq

def Buffer.headerBytes (b : Buffer) : List UInt8 :=
  leBytes 4 wireMagic ++ leBytes 4 b.frame.toNat ++ [b.kind,b.bufIndex,b.isCcb,b.flip] ++
    leBytes 4 b.data.length ++ leBytes 4 (rleSize b.data)

/-- The frame of a buffer, as far as the connection lasts. -/
def Buffer.bytes (b : Buffer) : List UInt8 := b.headerBytes ++ rleEncode b.data

/-- The frame as the host writes it. -/
def encodeFrame (frame : UInt32) (kind : Kind) (bufIndex : UInt8) (isCcb flip : Bool)
    (raw : List UInt8) : List UInt8 :=
  leBytes 4 wireMagic ++ leBytes 4 frame.toNat ++
    [kind.byte,bufIndex,if isCcb then 1 else 0,if flip then 1 else 0] ++
    leBytes 4 raw.length ++ leBytes 4 (rleEncode raw).length ++ rleEncode raw

/-- The console's end: the bytes that the open socket has taken, those of the connections given up,
the oldest first, the count of calls since the last attempt to connect, and the answers to come of
`connect` and of `send`. -/
structure Link where
  sock : Option (List UInt8)
  closed : List (List UInt8)
  sinceConnectTry : ℕ
  connects : List Bool
  sends : List ℕ

namespace Link

def ensureConnected (l : Link) : Link × Bool :=
  match l.sock with
  | some _ => (l,true)
  | none =>
      if l.sinceConnectTry ≠ 0 ∧ l.sinceConnectTry < reconnectEvery then
        ({ l with sinceConnectTry := l.sinceConnectTry+1 },false)
      else if l.connects.headD true then
        ({ l with sock := some [], sinceConnectTry := 0, connects := l.connects.tail },true)
      else ({ l with sinceConnectTry := 1, connects := l.connects.tail },false)

/-- Sends until all is taken or one fails, which is an answer of zero here. -/
def sendLoop : List ℕ → List UInt8 → List UInt8 → List ℕ × List UInt8 × Bool
  | sends,taken,[] => (sends,taken,true)
  | [],taken,b :: rest => ([],taken ++ b :: rest,true)
  | n :: sends,taken,b :: rest =>
      if n = 0 then (sends,taken,false)
      else sendLoop sends (taken ++ (b :: rest).take n) ((b :: rest).drop n)

def sendAll (l : Link) (bytes : List UInt8) : Link × Bool :=
  match l.sock with
  | none => (l,bytes = [])
  | some taken =>
      match sendLoop l.sends taken bytes with
      | (sends,taken,true) => ({ l with sock := some taken, sends := sends },true)
      | (sends,taken,false) =>
          ({ l with sock := none, closed := l.closed ++ [taken], sends := sends },false)

def emitLiteral (l : Link) (lit : List UInt8) : Link × Bool :=
  if lit = [] then (l,true) else
    match l.sendAll (0 :: leBytes 4 lit.length) with
    | (l,false) => (l,false)
    | (l,true) => l.sendAll lit

/-- The second scan, with the count of bytes sent. -/
def rleStreamFrom (l : Link) (lit : List UInt8) (comp : ℕ) : List UInt8 → Link × Option ℕ
  | [] =>
      match l.emitLiteral lit with
      | (l,false) => (l,none)
      | (l,true) => (l,some (comp+litSize lit.length))
  | b :: rest =>
      if b = 0 then
        if minZeroRun ≤ zeroesOf (b :: rest) then
          match l.emitLiteral lit with
          | (l,false) => (l,none)
          | (l,true) =>
              match l.sendAll (zeroRun (zeroesOf (b :: rest))) with
              | (l,false) => (l,none)
              | (l,true) => rleStreamFrom l [] (comp+litSize lit.length+5)
                  ((b :: rest).drop (zeroesOf (b :: rest)))
        else
          rleStreamFrom l (lit ++ (b :: rest).take (zeroesOf (b :: rest))) comp
            ((b :: rest).drop (zeroesOf (b :: rest)))
      else rleStreamFrom l (lit ++ [b]) comp rest
termination_by data => data.length
decreasing_by
  · exact drop_zeroesOf_lt rest ‹_›
  · exact drop_zeroesOf_lt rest ‹_›
  · simp

def rleStream (l : Link) (data : List UInt8) : Link × Option ℕ := l.rleStreamFrom [] 0 data

def sendBuffer (l : Link) (b : Buffer) : Link :=
  if b.data = [] ∨ maxBufBytes < b.data.length then l else
    match l.ensureConnected with
    | (l,false) => l
    | (l,true) =>
        match l.sendAll b.headerBytes with
        | (l,false) => l
        | (l,true) => (l.rleStream b.data).1

def run (l : Link) (bs : List Buffer) : Link := bs.foldl sendBuffer l

/-- The connections there have been, the oldest first. -/
def connections (l : Link) : List (List UInt8) := l.closed ++ l.sock.toList

end Link

inductive ReadAnswer
  | interrupted | failed
  | bytes (more : ℕ)

/-- The receiver's end: what is still to be read, and the answers to come of `read`. -/
structure Arrivals where
  rest : List UInt8
  reads : List ReadAnswer

inductive Filled
  | full (bytes : List UInt8)
  | ended (bytes : List UInt8)
  | failed

/-- Reads until so many bytes are there, the stream ends or a read fails. -/
def fill : List ReadAnswer → List UInt8 → ℕ → List UInt8 → Filled × Arrivals
  | reads,rest,0,got => (.full got,⟨rest,reads⟩)
  | [],rest,want+1,got =>
      if rest.length < want+1 then (.ended (got ++ rest),⟨[],[]⟩)
      else (.full (got ++ rest.take (want+1)),⟨rest.drop (want+1),[]⟩)
  | .interrupted :: reads,rest,want+1,got => fill reads rest (want+1) got
  | .failed :: reads,rest,_+1,_ => (.failed,⟨rest,reads⟩)
  | .bytes _ :: reads,[],_+1,got => (.ended got,⟨[],reads⟩)
  | .bytes more :: reads,b :: rest,want+1,got =>
      let chunk := (b :: rest).take (min (more+1) (want+1))
      fill reads ((b :: rest).drop chunk.length) (want+1-chunk.length) (got ++ chunk)

def Arrivals.fill (a : Arrivals) (want : ℕ) : Filled × Arrivals := Scrape.fill a.reads a.rest want []

/-- A number in the bytes of a header. -/
def field (hdr : List UInt8) (start : ℕ) : ℕ := ofLe ((hdr.drop start).take 4)

def headerOf (hdr : List UInt8) : Header :=
  ⟨field hdr 4,.fromU8 (hdr.getD 8 0),hdr.getD 9 0,hdr.getD 10 0 ≠ 0,hdr.getD 11 0 ≠ 0,field hdr 12⟩

/-- One frame, or nothing where the stream ends between two. -/
def readFrame (a : Arrivals) : Except ReadError (Option (Header × List UInt8)) × Arrivals :=
  match a.fill headerLen with
  | (.failed,a) => (.error .host,a)
  | (.ended [],a) => (.ok none,a)
  | (.ended _,a) => (.error .endOfHeader,a)
  | (.full hdr,a) =>
      if field hdr 0 ≠ wireMagic then (.error (.badMagic (field hdr 0)),a) else
        match a.fill (field hdr 16) with
        | (.failed,a) => (.error .host,a)
        | (.ended _,a) => (.error .endOfPayload,a)
        | (.full comp,a) =>
            match rleDecode comp (field hdr 12) with
            | .error e => (.error e,a)
            | .ok raw => (.ok (some (headerOf hdr,raw)),a)

inductive Ending
  | closed | exited
  | error (e : ReadError)
  deriving DecidableEq

section Fill

variable {reads : List ReadAnswer} {rest got : List UInt8} {want : ℕ}

/-- What was wanted is there, or the stream has ended before, or a read has failed. -/
theorem fill_cases (reads : List ReadAnswer) (rest : List UInt8) (want : ℕ) (got : List UInt8) :
    (want ≤ rest.length ∧ ∃ reads', reads' <:+ reads ∧
      fill reads rest want got = (.full (got ++ rest.take want),⟨rest.drop want,reads'⟩)) ∨
    (rest.length < want ∧ ∃ reads', fill reads rest want got = (.ended (got ++ rest),⟨[],reads'⟩)) ∨
    (.failed ∈ reads ∧ ∃ a, fill reads rest want got = (.failed,a)) := by
  induction reads, rest, want, got using fill.induct with
  | case1 reads rest got => exact .inl ⟨Nat.zero_le _,reads,List.suffix_rfl,by simp [fill]⟩
  | case2 rest want got h => exact .inr (.inl ⟨h,[],by rw [fill, if_pos h]⟩)
  | case3 rest want got h =>
    exact .inl ⟨not_lt.mp h,[],List.suffix_rfl,by rw [fill, if_neg h]⟩
  | case4 rest want got reads ih =>
    rw [fill]
    obtain ⟨hle,reads',hsuffix,hfill⟩ | hended | ⟨hmem,hfailed⟩ := ih
    · exact .inl ⟨hle,reads',hsuffix.trans (List.suffix_cons _ _),hfill⟩
    · exact .inr (.inl hended)
    · exact .inr (.inr ⟨List.mem_cons_of_mem _ hmem,hfailed⟩)
  | case5 rest want got reads => exact .inr (.inr ⟨List.mem_cons_self,_,by rw [fill]⟩)
  | case6 more reads want got => exact .inr (.inl ⟨by simp,reads,by simp [fill]⟩)
  | case7 more reads b rest want got chunk ih =>
    have hstep : fill (.bytes more :: reads) (b :: rest) (want+1) got =
        fill reads ((b :: rest).drop chunk.length) (want+1-chunk.length) (got ++ chunk) := by
      rw [fill]
    have hlen : chunk.length ≤ want+1 := by
      rw [List.length_take]
      omega
    obtain ⟨later,hlater⟩ : chunk <+: b :: rest := List.take_prefix _ _
    clear_value chunk
    rw [hstep]
    clear hstep
    rw [← hlater, List.drop_left] at ih ⊢
    obtain ⟨hwant,reads',hsuffix,hfill⟩ | ⟨hwant,reads',hfill⟩ | ⟨hmem,hfailed⟩ := ih
    · refine .inl ⟨by rw [List.length_append]; omega,reads',hsuffix.trans (List.suffix_cons _ _),?_⟩
      rw [hfill, List.take_append, List.drop_append, List.take_of_length_le hlen,
        List.drop_eq_nil_of_le hlen, List.append_assoc, List.nil_append]
    · refine .inr (.inl ⟨by rw [List.length_append]; omega,reads',?_⟩)
      rw [hfill, List.append_assoc]
    · exact .inr (.inr ⟨List.mem_cons_of_mem _ hmem,hfailed⟩)

lemma arrivals_fill_cases (a : Arrivals) (want : ℕ) :
    (want ≤ a.rest.length ∧ ∃ reads, reads <:+ a.reads ∧
      a.fill want = (.full (a.rest.take want),⟨a.rest.drop want,reads⟩)) ∨
    (a.rest.length < want ∧ ∃ reads, a.fill want = (.ended a.rest,⟨[],reads⟩)) ∨
    (.failed ∈ a.reads ∧ ∃ a', a.fill want = (.failed,a')) :=
  fill_cases a.reads a.rest want []

/-- A frame takes its header, at least, off the stream. -/
lemma readFrame_shrinks {a a' : Arrivals} {f : Header × List UInt8}
    (h : readFrame a = (.ok (some f),a')) : a'.rest.length < a.rest.length := by
  rw [readFrame] at h
  obtain ⟨hle,reads,-,hfill⟩ | ⟨-,reads,hfill⟩ | ⟨-,a₁,hfill⟩ := arrivals_fill_cases a headerLen
  · simp only [hfill] at h
    split_ifs at h with hmagic
    · simp at h
    · obtain ⟨-,reads',-,hfill'⟩ | ⟨-,reads',hfill'⟩ | ⟨-,a₂,hfill'⟩ :=
        arrivals_fill_cases ⟨a.rest.drop headerLen,reads⟩ (field (a.rest.take headerLen) 16)
      · simp only [hfill'] at h
        split at h
        · simp at h
        · rw [Prod.mk.injEq] at h
          rw [← h.2]
          simp only [List.length_drop, headerLen] at hle ⊢
          omega
      · simp [hfill'] at h
      · simp [hfill'] at h
  · cases hrest : a.rest with
    | nil => simp [hfill, hrest] at h
    | cons b rest => simp [hfill, hrest] at h
  · simp [hfill] at h

end Fill

/-- A number in no fewer than `width` digits. -/
def padded (base width n : ℕ) : String :=
  String.ofList ((Nat.toDigits base n).leftpad width '0')

/-- The name of a vertex buffer's file has the address that its first bytes are, and the file what
follows them. -/
def vbufFile (hdr : Header) (payload : List UInt8) : Option (String × List UInt8) :=
  if payload.length < 8 then none
  else some ("frame" ++ padded 10 6 hdr.frame ++ "_buf" ++ padded 10 2 hdr.bufIndex.toNat ++ "_0x" ++
    padded 16 14 (ofLe (payload.take 8)) ++ "_" ++ toString (payload.length-8) ++ ".bin",
    payload.drop 8)

/-- The file that a frame goes to, and the bytes that it gets. -/
def dumpFile (hdr : Header) (payload : List UInt8) : Option (String × List UInt8) :=
  if hdr.kind = .vbuf then vbufFile hdr payload
  else some ("frame" ++ padded 10 6 hdr.frame ++ "_sub" ++ toString hdr.bufIndex.toNat ++ "_" ++
    hdr.kind.tag ++ "_" ++ (if hdr.isCcb then "ccb" else "dcb") ++ ".bin",payload)

/-- The disk is asked where there is a file to write. -/
def writeDump (disk : List Bool) (hdr : Header) (payload : List UInt8) : List Bool × Bool :=
  match dumpFile hdr payload with
  | none => (disk,true)
  | some _ => (disk.tail,disk.headD true)

/-- The frames that are written, and how the connection comes to its end. -/
def handleConn (disk : List Bool) (maxFrame : Option ℕ) (a : Arrivals) :
    List (Header × List UInt8) × Ending :=
  match _h : readFrame a with
  | (.error e,_) => ([],.error e)
  | (.ok none,_) => ([],.closed)
  | (.ok (some (hdr,raw)),a') =>
      match writeDump disk hdr raw with
      | (_,false) => ([],.error .host)
      | (disk,true) =>
          if maxFrame.any (· ≤ hdr.frame) then ([(hdr,raw)],.exited)
          else ((hdr,raw) :: (handleConn disk maxFrame a').1,(handleConn disk maxFrame a').2)
termination_by a.rest.length
decreasing_by all_goals exact readFrame_shrinks ‹_›

/-- What the receiver should make of a buffer. -/
def Buffer.received (b : Buffer) : Header × List UInt8 :=
  (⟨b.frame.toNat,.fromU8 b.kind,b.bufIndex,b.isCcb ≠ 0,b.flip ≠ 0,b.data.length⟩,b.data)

/-- The console sends it. -/
def Buffer.Sendable (b : Buffer) : Prop := b.data ≠ [] ∧ b.data.length ≤ maxBufBytes

instance (b : Buffer) : Decidable b.Sendable := inferInstanceAs (Decidable (_ ∧ _))

section Header

variable {b : Buffer} {n : ℕ}

lemma Buffer.Sendable.length_lt (h : b.Sendable) : b.data.length < 2^32 :=
  h.2.trans_lt (by norm_num [maxBufBytes])

lemma Buffer.Sendable.size_lt (h : b.Sendable) : rleSize b.data < 2^32 :=
  rleSize_lt h.2 (by norm_num [maxBufBytes])

/-- A number is read where it was written. -/
lemma field_append {hdr pre post : List UInt8} {start : ℕ} (hhdr : hdr = pre ++ (leBytes 4 n ++ post))
    (hpre : pre.length = start) (h : n < 2^32) : field hdr start = n := by
  subst hhdr hpre
  have htake : (leBytes 4 n ++ post).take 4 = leBytes 4 n :=
    List.take_left' (leBytes_length 4 n)
  rw [field, List.drop_left, htake, ofLe_leBytes_of_lt h]

def Buffer.flags (b : Buffer) : List UInt8 := [b.kind,b.bufIndex,b.isCcb,b.flip]

lemma headerBytes_eq (b : Buffer) : b.headerBytes = leBytes 4 wireMagic ++ (leBytes 4 b.frame.toNat ++
    (b.flags ++ (leBytes 4 b.data.length ++ leBytes 4 (rleSize b.data)))) := by
  simp only [Buffer.headerBytes, Buffer.flags, List.append_assoc]

lemma headerBytes_length (b : Buffer) : b.headerBytes.length = headerLen := by
  rw [headerBytes_eq]
  simp only [List.length_append, leBytes_length, Buffer.flags, List.length_cons, List.length_nil,
    headerLen]

lemma field_magic (b : Buffer) : field b.headerBytes 0 = wireMagic := by
  have hhdr : b.headerBytes = [] ++ (leBytes 4 wireMagic ++ (leBytes 4 b.frame.toNat ++
      (b.flags ++ (leBytes 4 b.data.length ++ leBytes 4 (rleSize b.data))))) := by
    rw [headerBytes_eq, List.nil_append]
  have hlt : wireMagic < 2^32 := by norm_num [wireMagic]
  exact field_append hhdr List.length_nil hlt

lemma field_frame (b : Buffer) : field b.headerBytes 4 = b.frame.toNat :=
  field_append (headerBytes_eq b) (leBytes_length 4 _) b.frame.toNat_lt

lemma field_rawSize (h : b.Sendable) : field b.headerBytes 12 = b.data.length := by
  have hhdr : b.headerBytes = (leBytes 4 wireMagic ++ leBytes 4 b.frame.toNat ++ b.flags) ++
      (leBytes 4 b.data.length ++ leBytes 4 (rleSize b.data)) := by
    rw [headerBytes_eq, List.append_assoc, List.append_assoc]
  refine field_append hhdr ?_ h.length_lt
  simp only [List.length_append, leBytes_length, Buffer.flags, List.length_cons, List.length_nil]

lemma field_compSize (h : b.Sendable) : field b.headerBytes 16 = rleSize b.data := by
  have hhdr : b.headerBytes = (leBytes 4 wireMagic ++ leBytes 4 b.frame.toNat ++ b.flags ++
      leBytes 4 b.data.length) ++ (leBytes 4 (rleSize b.data) ++ []) := by
    rw [headerBytes_eq, List.append_nil, List.append_assoc, List.append_assoc, List.append_assoc]
  refine field_append hhdr ?_ h.size_lt
  simp only [List.length_append, leBytes_length, Buffer.flags, List.length_cons, List.length_nil]

lemma getD_headerBytes (b : Buffer) (i : ℕ) : b.headerBytes.getD (8+i) 0 =
    (b.flags ++ (leBytes 4 b.data.length ++ leBytes 4 (rleSize b.data))).getD i 0 := by
  have hhdr : b.headerBytes = (leBytes 4 wireMagic ++ leBytes 4 b.frame.toNat) ++
      (b.flags ++ (leBytes 4 b.data.length ++ leBytes 4 (rleSize b.data))) := by
    rw [headerBytes_eq, List.append_assoc]
  have hlen : (leBytes 4 wireMagic ++ leBytes 4 b.frame.toNat).length = 8 := by
    rw [List.length_append, leBytes_length, leBytes_length]
  rw [hhdr, List.getD_append_right _ _ _ _ (by omega), hlen, Nat.add_sub_cancel_left]

lemma headerOf_headerBytes (h : b.Sendable) : headerOf b.headerBytes = b.received.1 := by
  have hkind : b.headerBytes.getD 8 0 = b.kind := getD_headerBytes b 0
  have hindex : b.headerBytes.getD 9 0 = b.bufIndex := getD_headerBytes b 1
  have hccb : b.headerBytes.getD 10 0 = b.isCcb := getD_headerBytes b 2
  have hflip : b.headerBytes.getD 11 0 = b.flip := getD_headerBytes b 3
  rw [headerOf, field_frame, field_rawSize h, hkind, hindex, hccb, hflip, Buffer.received]

end Header

section Receive

variable {b : Buffer} {p : List Buffer} {arrived more : List UInt8} {reads : List ReadAnswer}
  {a a' : Arrivals} {disk : List Bool} {maxFrame : Option ℕ}

lemma rleEncode_length (data : List UInt8) : (rleEncode data).length = rleSize data :=
  rleEncodeFrom_length [] data

lemma Kind.byte_fromU8 (v : UInt8) : (Kind.fromU8 v).byte = v := by
  unfold Kind.fromU8
  split_ifs <;> simp_all [Kind.byte]

/-- The frame of the console is the one that the host writes. -/
theorem encodeFrame_bytes {isCcb flip : Bool} (hccb : b.isCcb = if isCcb then 1 else 0)
    (hflip : b.flip = if flip then 1 else 0) :
    encodeFrame b.frame (.fromU8 b.kind) b.bufIndex isCcb flip b.data = b.bytes := by
  rw [encodeFrame, Buffer.bytes, Buffer.headerBytes, Kind.byte_fromU8, ← hccb, ← hflip,
    rleEncode_length]

lemma bytes_length (b : Buffer) : b.bytes.length = headerLen+rleSize b.data := by
  rw [Buffer.bytes, List.length_append, headerBytes_length, rleEncode_length]

lemma bytes_ne_nil (b : Buffer) : b.bytes ≠ [] := by
  refine List.ne_nil_of_length_pos ?_
  rw [bytes_length, headerLen]
  omega

/-- What has arrived of two parts, when it covers the first. -/
lemma split_of_prefix {c d : List UInt8} (h : arrived <+: c ++ d) (hlen : c.length ≤ arrived.length) :
    ∃ later, arrived = c ++ later ∧ later <+: d := by
  obtain ⟨later,rfl⟩ := List.prefix_of_prefix_length_le (List.prefix_append c d) h hlen
  exact ⟨later,rfl,(List.prefix_append_right_inj c).mp h⟩

lemma readFrame_whole (hb : b.Sendable) {a₁ a₂ : Arrivals}
    (hhdr : a.fill headerLen = (.full b.headerBytes,a₁))
    (hcomp : a₁.fill (rleSize b.data) = (.full (rleEncode b.data),a₂)) :
    readFrame a = (.ok (some b.received),a₂) := by
  simp only [readFrame, hhdr, field_magic, ne_eq, not_true_eq_false, if_false, field_compSize hb,
    hcomp, field_rawSize hb, rleDecode_rleEncode hb.length_lt, headerOf_headerBytes hb]
  rfl

lemma readFrame_cut (hb : b.Sendable) {a₁ a₂ : Arrivals} {got : List UInt8}
    (hhdr : a.fill headerLen = (.full b.headerBytes,a₁))
    (hcomp : a₁.fill (rleSize b.data) = (.ended got,a₂)) :
    readFrame a = (.error .endOfPayload,a₂) := by
  simp only [readFrame, hhdr, field_magic, ne_eq, not_true_eq_false, if_false, field_compSize hb,
    hcomp]

lemma readFrame_failed (hb : b.Sendable) {a₁ a₂ : Arrivals}
    (hhdr : a.fill headerLen = (.full b.headerBytes,a₁))
    (hcomp : a₁.fill (rleSize b.data) = (.failed,a₂)) : readFrame a = (.error .host,a₂) := by
  simp only [readFrame, hhdr, field_magic, ne_eq, not_true_eq_false, if_false, field_compSize hb,
    hcomp]

/-- The frame is read as it was sent, or nothing is left of the stream, or reading fails, which it
does not when the frame is there and no read fails. -/
theorem readFrame_cases (hb : b.Sendable) (h : arrived <+: b.bytes ++ more) :
    (∃ later reads', arrived = b.bytes ++ later ∧ later <+: more ∧ reads' <:+ reads ∧
      readFrame ⟨arrived,reads⟩ = (.ok (some b.received),⟨later,reads'⟩)) ∨
    (arrived = [] ∧ ∃ a, readFrame ⟨arrived,reads⟩ = (.ok none,a)) ∨
    (∃ e a, readFrame ⟨arrived,reads⟩ = (.error e,a) ∧
      (.failed ∈ reads ∨ arrived.length < b.bytes.length)) := by
  rw [Buffer.bytes, List.append_assoc] at h
  obtain ⟨hle,reads₁,hsuffix,hhdr⟩ | ⟨hlt,reads₁,hhdr⟩ | ⟨hmem,a,hhdr⟩ :=
    arrivals_fill_cases ⟨arrived,reads⟩ headerLen
  · obtain ⟨later,rfl,hlater⟩ := split_of_prefix h (by rwa [headerBytes_length])
    simp only [List.take_left' (headerBytes_length b), List.drop_left' (headerBytes_length b)] at hhdr
    obtain ⟨hle',reads₂,hsuffix',hcomp⟩ | ⟨hlt',reads₂,hcomp⟩ | ⟨hmem,a,hcomp⟩ :=
      arrivals_fill_cases ⟨later,reads₁⟩ (rleSize b.data)
    · obtain ⟨rest,rfl,hrest⟩ := split_of_prefix hlater (by rwa [rleEncode_length])
      simp only [List.take_left' (rleEncode_length b.data),
        List.drop_left' (rleEncode_length b.data)] at hcomp
      exact .inl ⟨rest,reads₂,by rw [Buffer.bytes, List.append_assoc],hrest,hsuffix'.trans hsuffix,
        readFrame_whole hb hhdr hcomp⟩
    · refine .inr (.inr ⟨_,_,readFrame_cut hb hhdr hcomp,.inr ?_⟩)
      rw [bytes_length, List.length_append, headerBytes_length]
      exact Nat.add_lt_add_left hlt' _
    · exact .inr (.inr ⟨_,_,readFrame_failed hb hhdr hcomp,.inl (hsuffix.subset hmem)⟩)
  · cases arrived with
    | nil => exact .inr (.inl ⟨rfl,_,by rw [readFrame, hhdr]⟩)
    | cons c rest =>
      refine .inr (.inr ⟨.endOfHeader,_,by rw [readFrame, hhdr],.inr ?_⟩)
      rw [bytes_length]
      exact lt_of_lt_of_le hlt (Nat.le_add_right _ _)
  · exact .inr (.inr ⟨.host,a,by rw [readFrame, hhdr],.inl hmem⟩)

lemma readFrame_nil (reads : List ReadAnswer) :
    (∃ a, readFrame ⟨[],reads⟩ = (.ok none,a)) ∨ ∃ e a, readFrame ⟨[],reads⟩ = (.error e,a) := by
  obtain ⟨hle,-⟩ | ⟨-,reads',hhdr⟩ | ⟨-,a,hhdr⟩ := arrivals_fill_cases ⟨[],reads⟩ headerLen
  · simp [headerLen] at hle
  · exact .inl ⟨_,by rw [readFrame, hhdr]⟩
  · exact .inr ⟨.host,a,by rw [readFrame, hhdr]⟩

lemma handleConn_error {e : ReadError} (h : readFrame a = (.error e,a')) :
    handleConn disk maxFrame a = ([],.error e) := by
  rw [handleConn]
  split <;> simp_all

lemma handleConn_none (h : readFrame a = (.ok none,a')) :
    handleConn disk maxFrame a = ([],.closed) := by
  rw [handleConn]
  split <;> simp_all

lemma handleConn_some {f : Header × List UInt8} (h : readFrame a = (.ok (some f),a')) :
    handleConn disk maxFrame a = match writeDump disk f.1 f.2 with
      | (_,false) => ([],.error .host)
      | (disk,true) =>
          if maxFrame.any (· ≤ f.1.frame) then ([f],.exited)
          else (f :: (handleConn disk maxFrame a').1,(handleConn disk maxFrame a').2) := by
  obtain ⟨hdr,raw⟩ := f
  rw [handleConn]
  split <;> simp_all

/-- A disk that fails no write does not fail the next one. -/
lemma writeDump_cases (disk : List Bool) (hdr : Header) (payload : List UInt8) :
    (∃ disk', disk' <:+ disk ∧ writeDump disk hdr payload = (disk',true)) ∨
    (false ∈ disk ∧ ∃ disk', writeDump disk hdr payload = (disk',false)) := by
  rw [writeDump]
  cases dumpFile hdr payload with
  | none => exact .inl ⟨disk,List.suffix_rfl,rfl⟩
  | some file =>
    cases disk with
    | nil => exact .inl ⟨[],List.suffix_rfl,rfl⟩
    | cons answer rest =>
      cases answer with
      | true => exact .inl ⟨rest,List.suffix_cons _ _,rfl⟩
      | false => exact .inr ⟨List.mem_cons_self,rest,rfl⟩

end Receive

section Receive

variable {p : List Buffer} {arrived : List UInt8} {reads : List ReadAnswer} {disk : List Bool}
  {maxFrame : Option ℕ}

/-- The frames of some buffers, one after the other. -/
def stream (p : List Buffer) : List UInt8 := p.flatMap Buffer.bytes

@[simp] lemma stream_cons (b : Buffer) (p : List Buffer) : stream (b :: p) = b.bytes ++ stream p := by
  simp [stream]

lemma stream_append (p q : List Buffer) : stream (p ++ q) = stream p ++ stream q := by
  simp [stream]

/-- What the receiver makes of what has arrived: buffers of `p` from the first on, each as it was
handed over, all of what arrived when the stream is said to have ended, and every buffer that arrived
whole when neither the host nor the frame limit stopped it. -/
structure Faithful (p : List Buffer) (arrived : List UInt8) (reads : List ReadAnswer)
    (disk : List Bool) (maxFrame : Option ℕ) (q : List Buffer) : Prop where
  isPrefix : q <+: p
  dumps : (handleConn disk maxFrame ⟨arrived,reads⟩).1 = q.map Buffer.received
  within : stream q <+: arrived
  closed : (handleConn disk maxFrame ⟨arrived,reads⟩).2 = .closed → stream q = arrived
  whole : .failed ∉ reads → false ∉ disk → maxFrame = none →
    ∀ q', q' <+: p → stream q' <+: arrived → q' <+: q

/-- Whatever the reads answer, nothing is dumped that was not sent, and in the order sent. -/
theorem handleConn_faithful (hp : ∀ b ∈ p, b.Sendable) (h : arrived <+: stream p) :
    ∃ q, Faithful p arrived reads disk maxFrame q := by
  induction p generalizing arrived reads disk with
  | nil =>
    obtain rfl : arrived = [] := List.prefix_nil.mp h
    refine ⟨[],List.prefix_rfl,?_,List.prefix_rfl,fun _ => rfl,fun _ _ _ q' hq' _ => hq'⟩
    obtain ⟨a,hread⟩ | ⟨e,a,hread⟩ := readFrame_nil reads
    · rw [handleConn_none hread, List.map_nil]
    · rw [handleConn_error hread, List.map_nil]
  | cons b p ih =>
    have hb := hp b List.mem_cons_self
    rw [stream_cons] at h
    obtain ⟨later,reads',rfl,hlater,hsuffix,hread⟩ | ⟨rfl,a,hread⟩ | ⟨e,a,hread,hcut⟩ :=
      readFrame_cases hb h
    · have hconn : handleConn disk maxFrame ⟨b.bytes ++ later,reads⟩ = _ := handleConn_some hread
      obtain ⟨disk',hdisk',hwrite⟩ | ⟨hmem,disk',hwrite⟩ :=
        writeDump_cases disk b.received.1 b.received.2
      · simp only [hwrite] at hconn
        by_cases hmax : maxFrame.any (· ≤ b.received.1.frame)
        · rw [if_pos hmax] at hconn
          refine ⟨[b],⟨p,rfl⟩,by rw [hconn]; rfl,?_,fun hclosed => ?_,fun _ _ hnone => ?_⟩
          · simp [stream]
          · simp [hconn] at hclosed
          · simp [hnone] at hmax
        · rw [if_neg hmax] at hconn
          obtain ⟨q,hq⟩ : ∃ q, Faithful p later reads' disk' maxFrame q :=
            ih (fun c hc => hp c (List.mem_cons_of_mem _ hc)) hlater
          refine ⟨b :: q,List.cons_prefix_cons.mpr ⟨rfl,hq.isPrefix⟩,?_,?_,?_,?_⟩
          · rw [hconn, hq.dumps]
            rfl
          · rw [stream_cons]
            exact (List.prefix_append_right_inj _).mpr hq.within
          · intro hclosed
            rw [hconn] at hclosed
            rw [stream_cons, hq.closed hclosed]
          · intro hnot hall hnone q' hq' harrived
            cases q' with
            | nil => exact List.nil_prefix
            | cons c q' =>
              obtain ⟨rfl,hrest⟩ := List.cons_prefix_cons.mp hq'
              rw [stream_cons, List.prefix_append_right_inj] at harrived
              exact List.cons_prefix_cons.mpr ⟨rfl,hq.whole (fun hmem => hnot (hsuffix.subset hmem))
                (fun hmem => hall (hdisk'.subset hmem)) hnone q' hrest harrived⟩
      · simp only [hwrite] at hconn
        refine ⟨[],List.nil_prefix,by rw [hconn]; rfl,List.nil_prefix,fun hclosed => ?_,
          fun _ hall => absurd hmem hall⟩
        simp [hconn] at hclosed
    · refine ⟨[],List.nil_prefix,by rw [handleConn_none hread]; rfl,List.prefix_rfl,fun _ => rfl,?_⟩
      intro _ _ _ q' hq' harrived
      cases q' with
      | nil => exact List.prefix_rfl
      | cons c q' =>
        rw [stream_cons, List.prefix_nil, List.append_eq_nil_iff] at harrived
        exact absurd harrived.1 (bytes_ne_nil c)
    · refine ⟨[],List.nil_prefix,by rw [handleConn_error hread]; rfl,List.nil_prefix,?_,?_⟩
      · intro hclosed
        simp [handleConn_error hread] at hclosed
      · intro hnot _ _ q' hq' harrived
        cases q' with
        | nil => exact List.prefix_rfl
        | cons c q' =>
          obtain ⟨rfl,-⟩ := List.cons_prefix_cons.mp hq'
          rw [stream_cons] at harrived
          have hle := ((List.prefix_append _ _).trans harrived).length_le
          exact absurd hcut (by simp [hnot, hle])

/-- The file of a buffer has its bytes; those of a vertex buffer in front, its address, stand in the
name, and one without an address has no file. -/
theorem dumpFile_received (b : Buffer) :
    (b.kind ≠ Kind.vbuf.byte →
      ∃ name, dumpFile b.received.1 b.received.2 = some (name,b.data)) ∧
    (b.kind = Kind.vbuf.byte →
      dumpFile b.received.1 b.received.2 = if b.data.length < 8 then none else
        some ("frame" ++ padded 10 6 b.frame.toNat ++ "_buf" ++ padded 10 2 b.bufIndex.toNat ++
          "_0x" ++ padded 16 14 (ofLe (b.data.take 8)) ++ "_" ++ toString (b.data.length-8) ++ ".bin",
          b.data.drop 8)) := by
  have hvbuf : b.received.1.kind = .vbuf ↔ b.kind = Kind.vbuf.byte := by
    constructor
    · intro h
      rw [← h]
      exact (Kind.byte_fromU8 b.kind).symm
    · intro h
      change Kind.fromU8 b.kind = .vbuf
      rw [h]
      rfl
  constructor
  · intro h
    rw [dumpFile, if_neg (hvbuf.not.mpr h)]
    exact ⟨_,rfl⟩
  · intro h
    rw [dumpFile, if_pos (hvbuf.mpr h)]
    rfl

end Receive

end Unemups4.Scrape

import Unemups4.SelfContainer

/-! Directory listing: the entries of a directory are taken down at the first call and packed, call
by call, into the buffers that the guest brings, as records of a length of their own. A reader finds
the records again by their lengths. -/
namespace Unemups4.Files
open Loader (slice fromLeBytes number leBytes fromLeBytes_leBytes zeros)

inductive FileType where
  | dir
  | symlink
  | file
  | other
  deriving DecidableEq, Repr

/-- What the host lists of an entry; the name in UTF-8, with what is not replaced. -/
structure HostEntry where
  fileName : List UInt8
  fileType : FileType
  ino : UInt64
  deriving DecidableEq, Repr

structure DirentInfo where
  name : List UInt8
  dType : UInt8
  fileno : UInt32
  deriving DecidableEq, Repr

/-- The entries taken down, and the number of those that were returned. -/
structure DirCursor where
  entries : List DirentInfo
  pos : ℕ
  deriving DecidableEq, Repr

def FileType.dType : FileType → UInt8
  | dir => 4
  | symlink => 10
  | file => 8
  | other => 0

def HostEntry.dirent (e : HostEntry) : DirentInfo :=
  ⟨e.fileName,e.fileType.dType,max e.ino.toUInt32 2⟩

/-- The directory itself and its parent come first. -/
def snapshot (listing : List HostEntry) : List DirentInfo :=
  ⟨[0x2e],4,1⟩ :: ⟨[0x2e,0x2e],4,1⟩ :: listing.map HostEntry.dirent

namespace DirentInfo

variable (e : DirentInfo)

def namlen : ℕ := min e.name.length 255

def reclen : ℕ := (8+e.namlen+1+7)/8*8

/-- A record: its fields, the name, and zeros up to its length. -/
def record : List UInt8 :=
  leBytes e.fileno.toNat 4 ++ leBytes e.reclen 2 ++ [e.dType,UInt8.ofNat e.namlen] ++
    e.name.take e.namlen ++ zeros (e.reclen-8-e.namlen)

/-- An entry as it is returned. -/
def cut : DirentInfo := { e with name := e.name.take 255 }

end DirentInfo

/-- The bytes of a buffer from an offset on are written over. -/
def overwrite (buf : List UInt8) (start : ℕ) (data : List UInt8) : List UInt8 :=
  buf.take start ++ data ++ buf.drop (start+data.length)

/-- The entries from the cursor on go into the buffer while their records fit: the cursor, the
buffer, and the bytes written or the error. -/
def fill : List DirentInfo → (pos written : ℕ) → List UInt8 → ℕ × List UInt8 × Except ℕ ℕ
  | [],pos,written,buf => (pos,buf,.ok written)
  | e :: es,pos,written,buf =>
      if buf.length < written+e.reclen then
        (pos,buf,if written = 0 then .error 22 else .ok written)
      else fill es (pos+1) (written+e.reclen) (overwrite buf written e.record)

namespace DirCursor

def read (c : DirCursor) (buf : List UInt8) : DirCursor × List UInt8 × Except ℕ ℕ :=
  let filled := fill (c.entries.drop c.pos) c.pos 0 buf
  ({ c with pos := filled.1 },filled.2)

end DirCursor

/-- `host` is what the host answers to a listing: the entries, or the error. -/
def getdents (host : Except ℕ (List HostEntry)) (dir : Option DirCursor) (buf : List UInt8) :
    Option DirCursor × List UInt8 × Except ℕ ℕ :=
  match dir,host with
  | none,.error errno => (none,buf,.error errno)
  | none,.ok listing =>
      let r := DirCursor.read ⟨snapshot listing,0⟩ buf
      (some r.1,r.2)
  | some cursor,_ =>
      let r := cursor.read buf
      (some r.1,r.2)

/-- A reader's view of the record at the start of a buffer: a terminated name, a length in eights
that covers it, and no byte past the end. -/
def parseDent (buf : List UInt8) : Option (DirentInfo × ℕ) :=
  let reclen := number buf 4 2
  let namlen := (buf.getD 7 0).toNat
  if 8+namlen+1 ≤ reclen ∧ 8 ∣ reclen ∧ reclen ≤ buf.length ∧ buf.getD (8+namlen) 0 = 0 then
    some (⟨slice buf 8 namlen,buf.getD 6 0,UInt32.ofNat (number buf 0 4)⟩,reclen)
  else none

/-- The records of a buffer, one `d_reclen` after the other. -/
def parseDentsAux : ℕ → List UInt8 → Option (List DirentInfo)
  | _,[] => some []
  | 0,_ :: _ => none
  | fuel+1,byte :: bytes =>
      (parseDent (byte :: bytes)).bind fun r =>
        (parseDentsAux fuel ((byte :: bytes).drop r.2)).map (r.1 :: ·)

/-- Every record has a byte. -/
def parseDents (buf : List UInt8) : Option (List DirentInfo) := parseDentsAux buf.length buf

namespace DirentInfo

variable (e : DirentInfo)

lemma namlen_le : e.namlen ≤ 255 := min_le_right _ _

lemma reclen_bounds : 8+e.namlen+1 ≤ e.reclen ∧ e.reclen < 2^16 := by
  have h := e.namlen_le
  unfold reclen
  omega

lemma dvd_reclen : 8 ∣ e.reclen := Nat.dvd_mul_left _ _

@[simp] lemma leBytes_length (n len : ℕ) : (leBytes n len).length = len := by simp [leBytes]

lemma name_take_length : (e.name.take e.namlen).length = e.namlen := by
  simp [namlen]

lemma take_namlen : e.name.take e.namlen = e.name.take 255 := by
  rw [namlen, min_comm, List.take_eq_take_iff]
  omega

lemma record_length : e.record.length = e.reclen := by
  have h := e.reclen_bounds
  simp only [record, List.length_append, leBytes_length, name_take_length, zeros,
    List.length_replicate, List.length_cons, List.length_nil]
  omega

/-- A reader finds the entry in its record, whatever follows it. -/
lemma parseDent_record (rest : List UInt8) :
    parseDent (e.record ++ rest) = some (e.cut,e.reclen) := by
  obtain ⟨hroom,hword⟩ := e.reclen_bounds
  have hname := e.name_take_length
  have hnamlen := e.namlen_le
  -- the record as a reader indexes it
  have hfileno : slice (e.record ++ rest) 0 4 = leBytes e.fileno.toNat 4 := by
    simp [slice, record]
  have hreclen : slice (e.record ++ rest) 4 2 = leBytes e.reclen 2 := by
    simp [slice, record]
  have hdType : (e.record ++ rest).getD 6 0 = e.dType := by
    simp [record, List.getElem?_append]
  have hlen : ((e.record ++ rest).getD 7 0).toNat = e.namlen := by
    have hbyte : (e.record ++ rest).getD 7 0 = UInt8.ofNat e.namlen := by
      simp [record, List.getElem?_append]
    rw [hbyte, UInt8.toNat_ofNat']
    omega
  -- the name and what follows it, behind the eight bytes of the fields
  have hbehind : (e.record ++ rest).drop 8 =
      e.name.take e.namlen ++ (zeros (e.reclen-8-e.namlen) ++ rest) := by
    rw [record, List.append_assoc, List.append_assoc]
    exact List.drop_left' (by simp)
  have hslice : slice (e.record ++ rest) 8 e.namlen = e.name.take 255 := by
    rw [slice, hbehind, ← e.take_namlen]
    exact List.take_left' hname
  have hend : (e.record ++ rest).getD (8+e.namlen) 0 = 0 := by
    have hzero : 0 < e.reclen-8-e.namlen := by omega
    rw [List.getD_eq_getElem?_getD, ← List.getElem?_drop, hbehind,
      List.getElem?_append_right hname.le, hname, Nat.sub_self]
    simp [zeros, hzero]
  have hfields : fromLeBytes (leBytes e.reclen 2) = e.reclen := by
    rw [fromLeBytes_leBytes]
    exact Nat.mod_eq_of_lt hword
  have hword' : fromLeBytes (leBytes e.fileno.toNat 4) = e.fileno.toNat := by
    rw [fromLeBytes_leBytes]
    exact Nat.mod_eq_of_lt e.fileno.toNat_lt
  have hfits : e.reclen ≤ (e.record ++ rest).length := by
    simp [record_length]
  unfold parseDent number
  dsimp only
  rw [hlen, hfileno, hreclen, hdType, hfields, hword', hslice, hend,
    if_pos ⟨hroom,e.dvd_reclen,hfits,rfl⟩]
  simp [cut]

end DirentInfo

/-- The records of some entries, one after the other. -/
def records (es : List DirentInfo) : List UInt8 := es.flatMap DirentInfo.record

@[simp] lemma records_cons (e : DirentInfo) (es : List DirentInfo) :
    records (e :: es) = e.record ++ records es := rfl

lemma parseDentsAux_records (es : List DirentInfo) (fuel : ℕ) (h : es.length ≤ fuel) :
    parseDentsAux fuel (records es) = some (es.map DirentInfo.cut) := by
  induction es generalizing fuel with
  | nil => cases fuel <;> simp [records, parseDentsAux]
  | cons e es ih =>
    cases fuel with
    | zero => simp at h
    | succ fuel =>
      have hlen := e.record_length
      have hparse := e.parseDent_record (records es)
      have hrest := ih fuel (by simpa using h)
      cases hrecord : e.record with
      | nil =>
        have hroom := e.reclen_bounds
        simp [hrecord] at hlen
        omega
      | cons byte bytes =>
        have hdrop : (byte :: bytes ++ records es).drop e.reclen = records es :=
          List.drop_left' (hrecord ▸ hlen)
        rw [hrecord, List.cons_append] at hparse
        rw [List.cons_append] at hdrop
        simp [parseDentsAux, hrecord, hparse, hdrop, hrest]

lemma length_le_records (es : List DirentInfo) : es.length ≤ (records es).length := by
  induction es with
  | nil => simp
  | cons e es ih =>
    have hroom := e.reclen_bounds
    simp [e.record_length]
    omega

/-- The records of a list are read back as its entries. -/
lemma parseDents_records (es : List DirentInfo) :
    parseDents (records es) = some (es.map DirentInfo.cut) :=
  parseDentsAux_records es _ (length_le_records es)

/-- The entries whose records fit, one after the other. -/
def fitting : List DirentInfo → (room : ℕ) → List DirentInfo
  | [],_ => []
  | e :: es,room => if room < e.reclen then [] else e :: fitting es (room-e.reclen)

lemma fitting_prefix (es : List DirentInfo) (room : ℕ) : fitting es room <+: es := by
  induction es generalizing room with
  | nil => simp [fitting]
  | cons e es ih =>
    rw [fitting]
    split_ifs
    · exact List.nil_prefix
    · exact List.cons_prefix_cons.mpr ⟨rfl,ih _⟩

lemma records_fitting_length (es : List DirentInfo) (room : ℕ) :
    (records (fitting es room)).length ≤ room := by
  induction es generalizing room with
  | nil => simp [fitting, records]
  | cons e es ih =>
    rw [fitting]
    split_ifs with h
    · simp [records]
    · have hrest := ih (room-e.reclen)
      simp [e.record_length]
      omega

/-- A call packs the entries that fit behind what is in the buffer already; it fails when the first
record of an empty buffer does not. -/
lemma fill_fitting (es : List DirentInfo) (pos : ℕ) (front back : List UInt8) :
    fill es pos front.length (front ++ back) = (pos+(fitting es back.length).length,
      front ++ records (fitting es back.length) ++ back.drop (records (fitting es back.length)).length,
      if front = [] ∧ es ≠ [] ∧ fitting es back.length = [] then .error 22
      else .ok (front.length+(records (fitting es back.length)).length)) := by
  induction es generalizing pos front back with
  | nil => simp [fill, fitting, records]
  | cons e es ih =>
    have hroom := e.reclen_bounds
    by_cases hfull : back.length < e.reclen
    · simp [fill, fitting, records, hfull]
    · -- the record goes in, and the rest is packed behind it
      have hfull' : ¬(front ++ back).length < front.length+e.reclen := by
        rw [List.length_append]
        omega
      have hover : overwrite (front ++ back) front.length e.record =
          front ++ e.record ++ back.drop e.reclen := by
        simp [overwrite, e.record_length]
      have hlen : front.length+e.reclen = (front ++ e.record).length := by
        simp [e.record_length]
      have hne : front ++ e.record ≠ [] := by
        intro hnil
        rw [hnil, List.length_nil] at hlen
        omega
      rw [fill, if_neg hfull', hover, hlen, ih, fitting, if_neg hfull, List.length_drop,
        if_neg fun h => hne h.1, if_neg fun h => List.cons_ne_nil _ _ h.2.2]
      simp [e.record_length, Nat.add_assoc, Nat.add_comm 1]

/-- A call packs some entries behind what is in the buffer already, or it takes none because the first
record does not fit. -/
lemma fill_cases (es : List DirentInfo) (pos : ℕ) (front back : List UInt8) :
    (∃ taken ≤ es.length, (records (es.take taken)).length ≤ back.length ∧
      (front = [] → es ≠ [] → 0 < taken) ∧ fill es pos front.length (front ++ back) =
        (pos+taken,front ++ records (es.take taken) ++ back.drop (records (es.take taken)).length,
          .ok (front.length+(records (es.take taken)).length))) ∨
    (front = [] ∧ es ≠ [] ∧ fill es pos front.length (front ++ back) = (pos,back,.error 22)) := by
  have hfront := fitting_prefix es back.length
  have htake := List.prefix_iff_eq_take.mp hfront
  rw [fill_fitting]
  by_cases hnone : front = [] ∧ es ≠ [] ∧ fitting es back.length = []
  · obtain ⟨rfl,hne,hfit⟩ := hnone
    exact .inr ⟨rfl,hne,by simp [hfit, hne, records]⟩
  · refine .inl ⟨_,hfront.length_le,?_,?_,?_⟩
    · rw [← htake]
      exact records_fitting_length es back.length
    · intro hfront hne
      exact List.length_pos_of_ne_nil fun hfit => hnone ⟨hfront,hne,hfit⟩
    · rw [← htake, if_neg hnone]

namespace DirCursor

variable {entries : List DirentInfo} {pos : ℕ}

/-- A call returns the records of the next entries, or it fails and leaves the cursor. -/
lemma read_cases (hpos : pos ≤ entries.length) (buf : List UInt8) :
    (∃ taken, pos+taken ≤ entries.length ∧ (pos < entries.length → 0 < taken) ∧
      (records ((entries.drop pos).take taken)).length ≤ buf.length ∧
      read ⟨entries,pos⟩ buf = (⟨entries,pos+taken⟩,
        records ((entries.drop pos).take taken) ++
          buf.drop (records ((entries.drop pos).take taken)).length,
        .ok (records ((entries.drop pos).take taken)).length)) ∨
    (pos < entries.length ∧ read ⟨entries,pos⟩ buf = (⟨entries,pos⟩,buf,.error 22)) := by
  have hdrop : entries.drop pos ≠ [] ↔ pos < entries.length := by simp
  rcases fill_cases (entries.drop pos) pos [] buf with
    ⟨taken,htaken,hroom,hsome,hfill⟩ | ⟨-,hne,hfill⟩
  · refine .inl ⟨taken,?_,fun hlt => hsome rfl (hdrop.mpr hlt),hroom,?_⟩
    · rw [List.length_drop] at htaken
      omega
    · simp only [List.nil_append, List.length_nil, Nat.zero_add] at hfill
      simp [read, hfill]
  · refine .inr ⟨hdrop.mp hne,?_⟩
    simp only [List.nil_append, List.length_nil] at hfill
    simp [read, hfill]

/-- When all entries were returned there is nothing left to pack. -/
lemma read_drained (entries : List DirentInfo) (buf : List UInt8) :
    read ⟨entries,entries.length⟩ buf = (⟨entries,entries.length⟩,buf,.ok 0) := by
  simp [read, fill]

end DirCursor

/-- A call on an open directory: what the host would list at that moment, and the buffer. -/
structure DentsCall where
  host : Except ℕ (List HostEntry)
  buf : List UInt8

/-- What a call left in its buffer, and its result. -/
abbrev DentsReply := List UInt8 × Except ℕ ℕ

def DentsReply.bytes : DentsReply → List UInt8
  | (buf,.ok written) => buf.take written
  | (_,.error _) => []

def listDir (dir : Option DirCursor) : List DentsCall → Option DirCursor × List DentsReply
  | [] => (dir,[])
  | call :: calls =>
      let r := getdents call.host dir call.buf
      let rest := listDir r.1 calls
      (rest.1,r.2 :: rest.2)

/-- What a reader finds in all the buffers. -/
def parseReplies : List DentsReply → Option (List DirentInfo)
  | [] => some []
  | reply :: replies =>
      (parseDents reply.bytes).bind fun es => (parseReplies replies).map (es ++ ·)

/-- The first call takes the entries down and goes on as the later ones do. -/
lemma getdents_first (listing : List HostEntry) (host : Except ℕ (List HostEntry))
    (buf : List UInt8) :
    getdents (.ok listing) none buf = getdents host (some ⟨snapshot listing,0⟩) buf := by
  cases host <;> rfl

lemma getdents_some (host : Except ℕ (List HostEntry)) (cursor : DirCursor) (buf : List UInt8) :
    getdents host (some cursor) buf = (some (cursor.read buf).1,(cursor.read buf).2) := by
  cases host <;> rfl

/-- The replies from a cursor on hold the entries up to the one where the cursor ends. -/
lemma listDir_entries {entries : List DirentInfo} (calls : List DentsCall) {pos : ℕ}
    (hpos : pos ≤ entries.length) : ∃ taken, pos+taken ≤ entries.length ∧
      (listDir (some ⟨entries,pos⟩) calls).1 = some ⟨entries,pos+taken⟩ ∧
      parseReplies (listDir (some ⟨entries,pos⟩) calls).2 =
        some (((entries.drop pos).take taken).map DirentInfo.cut) := by
  induction calls generalizing pos with
  | nil => exact ⟨0,hpos,rfl,by simp [listDir, parseReplies]⟩
  | cons call calls ih =>
    rcases DirCursor.read_cases hpos call.buf with ⟨taken,htaken,-,-,hread⟩ | ⟨-,hread⟩
    · obtain ⟨more,hmore,hend,hparse⟩ := ih htaken
      refine ⟨taken+more,by omega,?_,?_⟩
      · simp [listDir, getdents_some, hread, hend, Nat.add_assoc]
      · simp [listDir, getdents_some, hread, parseReplies, DentsReply.bytes, parseDents_records, hparse,
          List.take_add, List.drop_drop]
    · obtain ⟨more,hmore,hend,hparse⟩ := ih hpos
      refine ⟨more,hmore,?_,?_⟩
      · simp [listDir, getdents_some, hread, hend]
      · have hempty : parseDents [] = some [] := rfl
        simp [listDir, getdents_some, hread, parseReplies, DentsReply.bytes, hempty, hparse]

/-- A call before the end of the directory returns at least one record, if it does not fail. -/
lemma read_progress {entries : List DirentInfo} {pos : ℕ} (hpos : pos < entries.length)
    {buf : List UInt8} {n : ℕ} (h : (DirCursor.read ⟨entries,pos⟩ buf).2.2 = .ok n) : 0 < n := by
  rcases DirCursor.read_cases hpos.le buf with ⟨taken,-,hsome,-,hread⟩ | ⟨-,hread⟩
  · rw [hread, Except.ok.injEq] at h
    have htaken : ((entries.drop pos).take taken).length = min taken (entries.length-pos) := by simp
    have hlen := length_le_records ((entries.drop pos).take taken)
    have hone := hsome hpos
    omega
  · rw [hread] at h
    cases h

/-- Whatever the buffers, what they hold is a prefix of the directory as the first call took it down;
a call that fails keeps its place, one before the end of the directory returns something, and at the
end a call returns nothing. -/
theorem listDir_lossless (entries : List DirentInfo) (calls : List DentsCall) :
    (∀ listing, snapshot listing = entries → ∀ buf, listDir none (⟨.ok listing,buf⟩ :: calls) =
      listDir (some ⟨entries,0⟩) (⟨.ok listing,buf⟩ :: calls)) ∧
    ∃ pos ≤ entries.length, (listDir (some ⟨entries,0⟩) calls).1 = some ⟨entries,pos⟩ ∧
      parseReplies (listDir (some ⟨entries,0⟩) calls).2 =
        some ((entries.take pos).map DirentInfo.cut) ∧
      ∀ call : DentsCall,
        ((getdents call.host (some ⟨entries,pos⟩) call.buf).2.2 = .error 22 →
          (getdents call.host (some ⟨entries,pos⟩) call.buf).1 = some ⟨entries,pos⟩) ∧
        (∀ n, (getdents call.host (some ⟨entries,pos⟩) call.buf).2.2 = .ok n →
          n ≤ (getdents call.host (some ⟨entries,pos⟩) call.buf).2.1.length ∧
            (pos < entries.length → 0 < n)) ∧
        (pos = entries.length → getdents call.host (some ⟨entries,pos⟩) call.buf =
          (some ⟨entries,pos⟩,call.buf,.ok 0)) := by
  refine ⟨fun listing hlisting buf => ?_,?_⟩
  · subst hlisting
    simp only [listDir, getdents_first listing (.ok listing) buf]
  obtain ⟨pos,hpos,hend,hparse⟩ := listDir_entries calls (Nat.zero_le entries.length)
  rw [Nat.zero_add] at hpos hend
  refine ⟨pos,hpos,hend,by simpa using hparse,fun call => ?_⟩
  rw [getdents_some]
  refine ⟨?_,fun n hn => ⟨?_,fun hlt => read_progress hlt hn⟩,?_⟩
  · rcases DirCursor.read_cases hpos call.buf with ⟨taken,-,-,-,hread⟩ | ⟨-,hread⟩
    · simp [hread]
    · simp [hread]
  · rcases DirCursor.read_cases hpos call.buf with ⟨taken,-,-,hroom,hread⟩ | ⟨-,hread⟩
    · rw [hread, Except.ok.injEq] at hn
      simp [hread, ← hn]
    · rw [hread] at hn
      cases hn
  · rintro rfl
    rw [DirCursor.read_drained]

end Unemups4.Files

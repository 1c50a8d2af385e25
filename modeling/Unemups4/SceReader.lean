import Unemups4.SceDynamic

/-! The reader of the dynamic tables stays in its file. Every table is read within steps that the size of
the dynlib segment bounds, whatever offsets and sizes the tags give; only the offsets of a relocation
table are added up unchecked. -/
namespace Unemups4.Loader
open Counted (Meets Returns meets_pure meets_spend meets_add meets_mul meets_between meets_foldlM)

/-- The bytes of the first segment of a type, where they lie in the file. -/
def segmentOf (headers : List Phdr) (elfBytes : List UInt8) (pType : ℕ) : Option (List UInt8) :=
  (headers.find? fun ph => ph.pType = pType).bind fun ph =>
    getRange elfBytes ph.pOffset.toNat (ph.pOffset.toNat+ph.pFilesz.toNat)

def segmentSize (headers : List Phdr) (elfBytes : List UInt8) (pType : ℕ) : ℕ :=
  ((segmentOf headers elfBytes pType).map List.length).getD 0

/-- The tags, with their values. -/
def tagsOf (dynBytes : List UInt8) : List (ℕ × ℕ) :=
  (chunksExact 16 dynBytes).map fun chunk => (number chunk 0 8,number chunk 8 8)

/-- The value of the last tag of a kind. -/
def lastOf (kind : ℕ) (tags : List (ℕ × ℕ)) : ℕ :=
  tags.foldl (fun val t => if t.1 = kind then t.2 else val) 0

/-- A relocation table that is empty, or whose first entry ends at an address. -/
def TableFits (base size : ℕ) : Prop := size < relaEnt ∨ base+relaEnt < 2^64

def RelocationTablesFit (headers : List Phdr) (elfBytes : List UInt8) : Prop :=
  ∀ dynlib dynBytes, segmentOf headers elfBytes ptSceDynlibdata = some dynlib →
    segmentOf headers elfBytes ptDynamic = some dynBytes →
    TableFits (lastOf dtSceRela (tagsOf dynBytes)) (lastOf dtSceRelasz (tagsOf dynBytes)) ∧
    TableFits (lastOf dtSceJmprel (tagsOf dynBytes)) (lastOf dtScePltrelsz (tagsOf dynBytes))

/-- What a table is read in, by the size of the dynlib segment. -/
def tableSteps (len : ℕ) : ℕ := 2*(len/24+1)*(4*len+4)

/-- What the reader is built in, by the numbers of headers and tags and the size of the segment. -/
def newSteps (headers tags len : ℕ) : ℕ := 2*headers+tags*(5*len+9+2*tags*(len+1))

/-- The reader is built, or an error is returned, and its tables are read: no index is out of range, no
sum wraps, and the steps are bounded by sizes. -/
def ReadsSafely (headers : List Phdr) (elfBytes : Bytes) : Prop :=
  ∃ result n, SceDynamic.new headers elfBytes = some (result,n) ∧
    n ≤ newSteps headers.length (segmentSize headers elfBytes.1 ptDynamic/16)
      (segmentSize headers elfBytes.1 ptSceDynlibdata) ∧
    ∀ d, result = .ok (some d) → d.imports.Returns (tableSteps d.dynlib.length) ∧
      d.exports.Returns (tableSteps d.dynlib.length) ∧ d.relocations.Returns (tableSteps d.dynlib.length)

section Strings

variable {dynlib : List UInt8} {strtab offset : ℕ}

lemma utf8Start_length (b : ℕ) : (utf8Start b).1.length+(utf8Start b).2.toList.length = 1 := by
  unfold utf8Start
  split_ifs <;> rfl

/-- No byte yields more than a character. -/
lemma utf8Chars_length (pending : Option Utf8Pending) (bytes : List UInt8) :
    (utf8Chars pending bytes).length ≤ bytes.length+pending.toList.length := by
  induction bytes generalizing pending with
  | nil => cases pending <;> simp [utf8Chars]
  | cons b bytes ih =>
    have hstart := utf8Start_length b.toNat
    have hrest := ih (utf8Start b.toNat).2
    cases pending with
    | none =>
      simp only [utf8Chars, List.length_append, List.length_cons]
      omega
    | some p =>
      have hnone := ih none
      rw [utf8Chars]
      dsimp only
      split_ifs
      · simp only [List.length_cons, Option.toList_none, Option.toList_some, List.length_nil] at hnone ⊢
        omega
      · have hsome := ih (some ⟨p.bits*64+(b.toNat-0x80),p.need-1,0x80,0xBF⟩)
        simp only [List.length_cons, Option.toList_some, List.length_nil] at hsome ⊢
        omega
      · simp only [List.length_cons, List.length_append, Option.toList_some, List.length_nil]
        omega

lemma fromUtf8Lossy_length (bytes : List UInt8) : (fromUtf8Lossy bytes).length ≤ bytes.length := by
  simpa [fromUtf8Lossy] using utf8Chars_length none bytes

lemma cstrEnd_meets {tail : List UInt8} {start : ℕ} (hlen : dynlib.length < 2^63)
    (htail : start+tail.length = dynlib.length) : (cstrEnd dynlib tail start).Meets 0 fun stop =>
      start ≤ stop ∧ stop ≤ dynlib.length := by
  unfold cstrEnd
  cases hfind : tail.findIdx? (· = 0) with
  | none => exact meets_pure ⟨by omega,le_rfl⟩
  | some p =>
    have hp : p < tail.length := (List.findIdx?_eq_some_iff_getElem.mp hfind).1
    exact (meets_add (by omega)).mono le_rfl fun stop hstop => by omega

lemma readCstr_meets (hlen : dynlib.length < 2^63) : (readCstr dynlib strtab offset).Meets
    (2*dynlib.length+1) fun name => name.length ≤ dynlib.length := by
  unfold readCstr
  dsimp only
  split_ifs with hover hout
  · exact meets_pure (Nat.zero_le _)
  · exact meets_pure (Nat.zero_le _)
  · have hstart : strtab+offset < dynlib.length := not_le.mp hout
    rw [show 2*dynlib.length+1 = 0+((dynlib.length+1)+(0+(0+dynlib.length))) by ring]
    refine (meets_between hstart.le le_rfl).bind fun tail htail => ?_
    have hscan : tail.findIdx (· = 0) ≤ tail.length := List.findIdx_le_length
    refine ((meets_spend _).mono (by omega) fun _ h => h).bind fun _ _ => ?_
    refine (cstrEnd_meets hlen (by omega)).bind fun stop hstop => ?_
    refine (meets_between hstop.1 hstop.2).bind fun text htext => ?_
    rw [show dynlib.length = dynlib.length+0 from rfl]
    refine ((meets_spend _).mono (by omega) fun _ h => h).bind fun _ _ => meets_pure ?_
    exact (fromUtf8Lossy_length text).trans (by omega)

end Strings

lemma getRange_length {bytes part : List UInt8} {start stop : ℕ}
    (h : getRange bytes start stop = some part) :
    start ≤ stop ∧ stop ≤ bytes.length ∧ part.length = stop-start := by
  unfold getRange at h
  split_ifs at h with hrange
  obtain rfl := Option.some.inj h
  exact ⟨hrange.1,hrange.2,slice_length (by omega)⟩

namespace SceDynamic

variable {d : SceDynamic} {raw : List UInt8} {i base count : ℕ}

lemma splitOn_head_length {text sym : List Char} {rest : List (List Char)}
    (h : text.splitOn '#' = sym :: rest) : sym.length ≤ text.length := by
  have hjoin : ['#'].intercalate (text.splitOn '#') = text := List.intercalate_splitOn '#'
  rw [h] at hjoin
  have hlength := congrArg List.length hjoin
  cases rest <;>
    simp only [List.intercalate, List.intersperse, List.flatten_cons, List.flatten_nil,
      List.length_append, List.length_nil] at hlength <;> omega

lemma decodeName_meets (d : SceDynamic) (encoded : String) :
    (d.decodeName encoded).Meets (encoded.length+1) fun decoded =>
      decoded.nid.length ≤ encoded.length := by
  unfold decodeName
  refine (meets_spend (encoded.length+1)).bind (k := 0) fun _ _ => ?_
  split
  · rename_i hparts
    exact meets_pure (by simpa only [String.length_ofList, String.length_toList] using
      splitOn_head_length hparts)
  · rename_i hparts
    exact meets_pure (by simpa only [String.length_ofList, String.length_toList] using
      splitOn_head_length hparts)
  · exact meets_pure (Nat.zero_le _)

lemma parse_meets (hraw : raw.length = symEnt) : (SceSym.parse raw).Meets 0 fun _ => True := by
  unfold SceSym.parse
  unfold symEnt at hraw
  refine (meets_between (Nat.zero_le 4) (by omega)).bind (n := 0) (k := 0) fun _ _ => ?_
  refine (meets_between (by decide : 6 ≤ 8) (by omega)).bind (n := 0) (k := 0) fun _ _ => ?_
  exact (meets_between (by decide : 8 ≤ 16) (by omega)).bind (n := 0) (k := 0) fun _ _ =>
    meets_pure trivial

lemma readSymbol_meets (hlen : d.dynlib.length < 2^63) (hraw : raw.length = symEnt) :
    (d.readSymbol raw).Meets (3*d.dynlib.length+2) fun read =>
      read.2.nid.length ≤ d.dynlib.length := by
  unfold readSymbol
  rw [show 3*d.dynlib.length+2 = 0+((2*d.dynlib.length+1)+((d.dynlib.length+1)+0)) by ring]
  refine (parse_meets hraw).bind fun sym _ => ?_
  refine (readCstr_meets hlen).bind fun encoded hencoded => ?_
  refine ((d.decodeName_meets encoded).mono (by omega) fun _ h => h).bind fun decoded hdecoded => ?_
  exact meets_pure (hdecoded.trans hencoded)

/-- The entries of the table lie in the segment, as many as are counted. -/
lemma symbolAt_meets (hlen : d.dynlib.length < 2^63) (hi : i < d.symbolCount) :
    (d.symbolAt i).Meets (3*d.dynlib.length+3) fun read =>
      ∀ r ∈ read, r.2.nid.length ≤ d.dynlib.length := by
  have hroom : i < (d.dynlib.length-d.tables.symtab)/symEnt := hi.trans_le (min_le_right _ _)
  rw [Nat.lt_div_iff_mul_lt (by decide)] at hroom
  unfold symbolAt
  rw [show 3*d.dynlib.length+3 = 1+(0+(0+(0+(3*d.dynlib.length+2)))) by ring]
  refine (meets_spend 1).bind fun _ _ => ?_
  unfold symEnt at *
  refine (meets_mul (by omega)).bind fun o ho => ?_
  refine (meets_add (by omega)).bind fun off hoff => ?_
  refine (meets_add (by omega)).bind fun stop hstop => ?_
  cases hget : getRange d.dynlib off stop with
  | none => exact meets_pure nofun
  | some raw =>
    have hraw := (getRange_length hget).2.2
    refine (readSymbol_meets hlen (show raw.length = 24 by omega)).bind (k := 0) fun read hread => ?_
    exact meets_pure fun r hr => by rwa [← Option.some.inj hr]

lemma symbolCount_le (d : SceDynamic) : d.symbolCount ≤ d.dynlib.length/24 :=
  (min_le_right _ _).trans (Nat.div_le_div_right (Nat.sub_le _ _))

lemma imports_returns (hlen : d.dynlib.length < 2^63) :
    d.imports.Returns (tableSteps d.dynlib.length) := by
  have hloop : d.imports.Meets _ _ :=
    meets_foldlM (n := 3*d.dynlib.length+3) (fun _ _ => True) trivial
      fun i result e he _ _ => by
        unfold pushImport
        refine (symbolAt_meets hlen (List.mem_range.mp he)).bind (k := 0) fun read _ => ?_
        cases read with
        | none => exact meets_pure trivial
        | some read =>
          dsimp only
          split_ifs <;> exact meets_pure trivial
  refine hloop.returns ?_
  rw [List.length_range]
  calc d.symbolCount*(3*d.dynlib.length+3)
      ≤ (d.dynlib.length/24+1)*(4*d.dynlib.length+4) :=
        Nat.mul_le_mul ((symbolCount_le d).trans (Nat.le_succ _)) (by omega)
    _ ≤ tableSteps d.dynlib.length := by
        rw [tableSteps, Nat.mul_assoc]
        exact Nat.le_mul_of_pos_left _ (by decide)

lemma exports_returns (hlen : d.dynlib.length < 2^63) :
    d.exports.Returns (tableSteps d.dynlib.length) := by
  have hloop : d.exports.Meets _ _ :=
    meets_foldlM (n := 3*d.dynlib.length+3+d.dynlib.length) (fun _ _ => True) trivial
      fun i result e he _ _ => by
        unfold pushExport
        refine (symbolAt_meets hlen (List.mem_range.mp he)).bind fun read hread => ?_
        cases read with
        | none => exact meets_pure trivial
        | some read =>
          dsimp only
          split_ifs
          · refine ((meets_spend _).mono (hread read rfl) fun _ h => h).bind (k := 0) fun _ _ => ?_
            exact meets_pure trivial
          · exact meets_pure trivial
  refine hloop.returns ?_
  rw [List.length_range]
  calc d.symbolCount*(3*d.dynlib.length+3+d.dynlib.length)
      ≤ (d.dynlib.length/24+1)*(4*d.dynlib.length+4) :=
        Nat.mul_le_mul ((symbolCount_le d).trans (Nat.le_succ _)) (by omega)
    _ ≤ tableSteps d.dynlib.length := by
        rw [tableSteps, Nat.mul_assoc]
        exact Nat.le_mul_of_pos_left _ (by decide)

lemma relocationSymbol_meets (hlen : d.dynlib.length < 2^63) (rSym : ℕ) :
    (d.relocationSymbol rSym).Meets (3*d.dynlib.length+2) fun _ => True := by
  unfold relocationSymbol
  split_ifs
  · cases hbytes : d.symbolBytes rSym with
    | none => exact meets_pure trivial
    | some sraw =>
      have hraw : sraw.length = symEnt := by
        unfold symbolBytes at hbytes
        dsimp only at hbytes
        split_ifs at hbytes
        have hlength := (getRange_length hbytes).2.2
        omega
      exact (readSymbol_meets hlen hraw).bind (k := 0) fun _ _ => meets_pure trivial
  · exact meets_pure trivial

lemma readRelocation_meets (hlen : d.dynlib.length < 2^63) (hraw : raw.length = relaEnt) :
    (d.readRelocation raw).Meets (3*d.dynlib.length+2) fun _ => True := by
  unfold readRelocation
  unfold relaEnt at hraw
  rw [show 3*d.dynlib.length+2 = 0+(0+(0+(3*d.dynlib.length+2+0))) by ring]
  refine (meets_between (Nat.zero_le 8) (by omega)).bind fun _ _ => ?_
  refine (meets_between (by decide : 8 ≤ 16) (by omega)).bind fun _ _ => ?_
  refine (meets_between (by decide : 16 ≤ 24) (by omega)).bind fun _ _ => ?_
  exact (relocationSymbol_meets hlen _).bind fun _ _ => meets_pure trivial

/-- From an entry that ends at an address on, `k` more entries reach the end of the segment. -/
lemma relocsFrom_meets (hlen : d.dynlib.length < 2^63) (k : ℕ) (hword : base+i*relaEnt+relaEnt < 2^64)
    (hend : d.dynlib.length < base+(i+k)*relaEnt+relaEnt) :
    (d.relocsFrom base count i).Meets ((k+1)*(3*d.dynlib.length+3)) fun _ => True := by
  induction k generalizing count i with
  | zero =>
    cases count with
    | zero => exact meets_pure trivial
    | succ count =>
      rw [relocsFrom, show (0+1)*(3*d.dynlib.length+3) = 1+(0+(0+(0+(3*d.dynlib.length+2)))) by ring]
      refine (meets_spend 1).bind fun _ _ => ?_
      refine (meets_mul (by omega)).bind fun o ho => ?_
      refine (meets_add (by omega)).bind fun off hoff => ?_
      refine (meets_add (by omega)).bind fun stop hstop => ?_
      have hout : getRange d.dynlib off stop = none := by
        unfold getRange
        rw [if_neg]
        rw [Nat.add_zero] at hend
        omega
      rw [hout]
      exact meets_pure trivial
  | succ k ih =>
    cases count with
    | zero => exact meets_pure trivial
    | succ count =>
      rw [relocsFrom, show (k+1+1)*(3*d.dynlib.length+3) =
        1+(0+(0+(0+(3*d.dynlib.length+2+((k+1)*(3*d.dynlib.length+3)+0))))) by ring]
      refine (meets_spend 1).bind fun _ _ => ?_
      refine (meets_mul (by omega)).bind fun o ho => ?_
      refine (meets_add (by omega)).bind fun off hoff => ?_
      refine (meets_add (by omega)).bind fun stop hstop => ?_
      cases hget : getRange d.dynlib off stop with
      | none => exact meets_pure trivial
      | some raw =>
        obtain ⟨-,hin,hraw⟩ := getRange_length hget
        have hentry : raw.length = relaEnt := by omega
        -- the next entry starts inside, so that its end is an address too
        have hnext : base+(i+1)*relaEnt+relaEnt < 2^64 := by
          unfold relaEnt at *
          omega
        refine (readRelocation_meets hlen hentry).bind fun reloc _ => ?_
        refine (ih hnext ?_).bind fun rest _ => meets_pure trivial
        rwa [show i+1+k = i+(k+1) by ring]

lemma relocsIn_meets {size : ℕ} (hlen : d.dynlib.length < 2^63) (hfits : TableFits base size) :
    (d.relocsIn base size).Meets ((d.dynlib.length/24+1)*(3*d.dynlib.length+4)) fun _ => True := by
  unfold relocsIn
  rw [show (d.dynlib.length/24+1)*(3*d.dynlib.length+4) =
    0+((d.dynlib.length/24+1)+(d.dynlib.length/24+1)*(3*d.dynlib.length+3)) by ring]
  unfold relaEnt
  refine (meets_add (by omega)).bind fun most hmost => ?_
  refine ((meets_spend _).mono (by omega) fun _ h => h).bind fun _ _ => ?_
  rcases hfits with hsize | hword
  · rw [show size/24 = 0 from Nat.div_eq_of_lt hsize]
    exact meets_pure trivial
  · have hdiv := Nat.div_add_mod d.dynlib.length 24
    have hmod := Nat.mod_lt d.dynlib.length (y := 24) (by decide)
    unfold relaEnt at hword
    exact relocsFrom_meets hlen (d.dynlib.length/24) (by unfold relaEnt; omega) (by unfold relaEnt; omega)

/-- A table with an entry that ends at no address stops the reader. -/
lemma relocsIn_stops {size : ℕ} (d : SceDynamic) (hlen : d.dynlib.length < 2^63)
    (hfits : ¬TableFits base size) : d.relocsIn base size = Counted.stop := by
  unfold TableFits at hfits
  push Not at hfits
  obtain ⟨hsize,hword⟩ := hfits
  have hcount : size/relaEnt = size/relaEnt-1+1 :=
    (Nat.sub_add_cancel (Nat.div_pos hsize (by decide))).symm
  unfold relocsIn
  refine (meets_add (by unfold relaEnt; omega)).bind_stop fun _ _ => ?_
  refine (meets_spend _).bind_stop fun _ _ => ?_
  rw [hcount, relocsFrom]
  refine (meets_spend 1).bind_stop fun _ _ => ?_
  refine (meets_mul (by decide)).bind_stop fun o ho => ?_
  by_cases hbase : base+o < 2^64
  · refine (meets_add hbase).bind_stop fun off hoff => ?_
    rw [Counted.add_eq_stop (by omega), Counted.stop_bind]
  · rw [Counted.add_eq_stop hbase, Counted.stop_bind]

/-- Both relocation tables are read exactly when both fit. -/
lemma relocations_returns_iff (hlen : d.dynlib.length < 2^63) :
    d.relocations.Returns (tableSteps d.dynlib.length) ↔
      TableFits d.tables.rela d.tables.relaSz ∧ TableFits d.tables.jmprel d.tables.jmprelSz := by
  constructor
  · rintro ⟨relocs,n,hrelocs,-,-⟩
    unfold relocations at hrelocs
    by_cases hrela : TableFits d.tables.rela d.tables.relaSz
    · refine ⟨hrela,?_⟩
      by_contra hjmprel
      have hstop := (relocsIn_meets hlen hrela).bind_stop fun relocs _ =>
        show (d.relocsIn d.tables.jmprel d.tables.jmprelSz >>= fun pltRelocs =>
          pure (relocs++pltRelocs)) = Counted.stop by
            rw [relocsIn_stops d hlen hjmprel, Counted.stop_bind]
      exact nomatch hstop.symm.trans hrelocs
    · rw [relocsIn_stops d hlen hrela, Counted.stop_bind] at hrelocs
      cases hrelocs
  · rintro ⟨hrela,hjmprel⟩
    have hboth : d.relocations.Meets _ fun _ => True :=
      (relocsIn_meets hlen hrela).bind fun relocs _ =>
        (relocsIn_meets hlen hjmprel).bind (k := 0) fun pltRelocs _ => meets_pure trivial
    refine hboth.returns ?_
    calc (d.dynlib.length/24+1)*(3*d.dynlib.length+4)+
          ((d.dynlib.length/24+1)*(3*d.dynlib.length+4)+0)
        = 2*(d.dynlib.length/24+1)*(3*d.dynlib.length+4) := by ring
      _ ≤ tableSteps d.dynlib.length := Nat.mul_le_mul_left _ (by omega)

section New

variable {dynlib dynBytes : List UInt8} {headers : List Phdr} {elfBytes : Bytes} {k strtab : ℕ}

/-- What all tags say. -/
def readTags (dynBytes : List UInt8) : SceTags :=
  (tagsOf dynBytes).foldl (fun t tag => t.set tag.1 tag.2) ⟨.default,[],[]⟩

lemma set_lengths (tags : List (ℕ × ℕ)) (t : SceTags) :
    (tags.foldl (fun t tag => t.set tag.1 tag.2) t).libEntries.length ≤ t.libEntries.length+tags.length ∧
    (tags.foldl (fun t tag => t.set tag.1 tag.2) t).moduleEntries.length ≤
      t.moduleEntries.length+tags.length := by
  induction tags generalizing t with
  | nil => exact ⟨le_rfl,le_rfl⟩
  | cons tag tags ih =>
    have hset : (t.set tag.1 tag.2).libEntries.length ≤ t.libEntries.length+1 ∧
        (t.set tag.1 tag.2).moduleEntries.length ≤ t.moduleEntries.length+1 := by
      unfold SceTags.set
      dsimp only
      constructor <;> split_ifs <;> simp
    obtain ⟨hlib,hmodule⟩ := ih (t.set tag.1 tag.2)
    rw [List.foldl_cons, List.length_cons]
    omega

lemma tagsOf_length (dynBytes : List UInt8) : (tagsOf dynBytes).length = dynBytes.length/16 := by
  simp [tagsOf, chunksExact]

/-- A table of the reader is the value of the last tag of its kind. -/
lemma readTags_eq_lastOf {get : SceTables → ℕ} {kind : ℕ} (hdefault : get .default = 0)
    (hset : ∀ t tag val, get (SceTables.set t tag val) = if tag = kind then val else get t)
    (dynBytes : List UInt8) : get (readTags dynBytes).tables = lastOf kind (tagsOf dynBytes) := by
  unfold lastOf readTags
  rw [← hdefault]
  exact (List.foldl_hom (fun t : SceTags => get t.tables) fun t tag =>
    (hset t.tables tag.1 tag.2).symm).symm

lemma readTags_tables (dynBytes : List UInt8) :
    (readTags dynBytes).tables.rela = lastOf dtSceRela (tagsOf dynBytes) ∧
    (readTags dynBytes).tables.relaSz = lastOf dtSceRelasz (tagsOf dynBytes) ∧
    (readTags dynBytes).tables.jmprel = lastOf dtSceJmprel (tagsOf dynBytes) ∧
    (readTags dynBytes).tables.jmprelSz = lastOf dtScePltrelsz (tagsOf dynBytes) := by
  refine ⟨readTags_eq_lastOf rfl ?_ dynBytes,readTags_eq_lastOf rfl ?_ dynBytes,
    readTags_eq_lastOf rfl ?_ dynBytes,readTags_eq_lastOf rfl ?_ dynBytes⟩
  all_goals
    intro t tag val
    unfold SceTables.set dtSceSymtab dtSceSymtabsz dtSceStrtab dtSceStrsz dtSceRela dtSceRelasz
      dtSceJmprel dtScePltrelsz
    -- the kinds of tags differ
    grind

lemma readTag_foldlM (dynBytes : List UInt8) :
    (chunksExact 16 dynBytes).foldlM readTag ⟨.default,[],[]⟩ =
      some (readTags dynBytes,dynBytes.length/16) := by
  have hstep : ∀ chunk ∈ chunksExact 16 dynBytes, ∀ t,
      readTag t chunk = some (t.set (number chunk 0 8) (number chunk 8 8),1) := by
    intro chunk hchunk t
    obtain ⟨i,hi,rfl⟩ := List.mem_map.mp hchunk
    have hin := (Nat.lt_div_iff_mul_lt (by decide)).mp (List.mem_range.mp hi)
    have hlength : (slice dynBytes (i*16) 16).length = 16 := slice_length (by omega)
    unfold readTag Counted.between
    rw [hlength, if_pos (by decide), if_pos (by decide)]
    rfl
  rw [Counted.foldlM_eq _ hstep, readTags, tagsOf, List.foldl_map]
  simp [chunksExact]
  rfl

lemma pushName_meets {names : List String} {name : String} {len : ℕ} (hnames : names.length < k)
    (hname : name.length ≤ len) : (pushName names name).Meets (k*(len+1)+1) fun names' =>
      names'.length ≤ names.length+1 := by
  unfold pushName
  have hcost : names.length*(name.length+1)+1 ≤ k*(len+1)+1 :=
    Nat.succ_le_succ (Nat.mul_le_mul hnames.le (Nat.succ_le_succ hname))
  refine ((meets_spend _).mono hcost fun _ h => h).bind (k := 0) fun _ _ => meets_pure ?_
  split_ifs <;> simp

lemma readModule_meets {names : List String} {m : NamedId} (hlen : dynlib.length < 2^63)
    (hnames : names.length < k) : (readModule dynlib strtab names m).Meets
      (2*dynlib.length+1+(k*(dynlib.length+1)+1)) fun names' => names'.length ≤ names.length+1 := by
  unfold readModule
  refine (readCstr_meets hlen).bind fun name hname => ?_
  split_ifs
  · exact meets_pure (Nat.le_succ _)
  · exact pushName_meets hnames hname

lemma readLibrary_meets {libs : List (String × String) × List String} {lib : NamedId}
    (hlen : dynlib.length < 2^63) (hnames : libs.2.length < k) :
    (readLibrary dynlib strtab libs lib).Meets
      (2*dynlib.length+1+(dynlib.length+4+(k*(dynlib.length+1)+1))) fun libs' =>
        libs'.2.length ≤ libs.2.length+1 := by
  unfold readLibrary
  refine (readCstr_meets hlen).bind fun name hname => ?_
  split_ifs
  · exact meets_pure (Nat.le_succ _)
  · refine ((meets_spend _).mono (by omega) fun _ h => h).bind fun _ _ => ?_
    exact (pushName_meets hnames hname).bind (k := 0) fun names hlength => meets_pure hlength

/-- The names of all entries are read in turn, each from within the segment. -/
lemma ofSegments_meets (hlen : dynlib.length < 2^63) : (ofSegments dynlib dynBytes).Meets
    (dynBytes.length/16*(5*dynlib.length+9+2*(dynBytes.length/16)*(dynlib.length+1))) fun d =>
      d.dynlib = dynlib ∧ d.tables = (readTags dynBytes).tables := by
  obtain ⟨hlibs,hmodules⟩ := set_lengths (tagsOf dynBytes) ⟨.default,[],[]⟩
  rw [tagsOf_length, List.length_nil, Nat.zero_add] at hlibs hmodules
  have htags : ((chunksExact 16 dynBytes).foldlM readTag ⟨.default,[],[]⟩).Meets (dynBytes.length/16)
      fun tags => tags = readTags dynBytes := ⟨_,_,readTag_foldlM dynBytes,le_rfl,rfl⟩
  generalize dynBytes.length/16 = k at *
  unfold ofSegments
  rw [show k*(5*dynlib.length+9+2*k*(dynlib.length+1)) =
    k+(k*(2*dynlib.length+1+(k*(dynlib.length+1)+1))+
      (k*(2*dynlib.length+1+(dynlib.length+4+(k*(dynlib.length+1)+1)))+0)) by ring]
  refine htags.bind fun tags htags => ?_
  subst htags
  refine Meets.bind (P := fun _ => True) ?_ fun moduleNames _ => ?_
  · refine (meets_foldlM (fun i (names : List String) => names.length ≤ i) le_rfl
      fun i names m _ hi hnames => ?_).mono (Nat.mul_le_mul_right _ hmodules) fun _ _ => trivial
    exact (readModule_meets hlen (hnames.trans_lt (hi.trans_le hmodules))).mono le_rfl
      fun _ h => h.trans (Nat.succ_le_succ hnames)
  refine Meets.bind (P := fun _ => True) ?_ fun libs _ => ?_
  · refine (meets_foldlM (fun i (libs : List (String × String) × List String) => libs.2.length ≤ i) le_rfl
      fun i libs lib _ hi hnames => ?_).mono (Nat.mul_le_mul_right _ hlibs) fun _ _ => trivial
    exact (readLibrary_meets hlen (hnames.trans_lt (hi.trans_le hlibs))).mono le_rfl
      fun _ h => h.trans (Nat.succ_le_succ hnames)
  exact meets_pure ⟨rfl,rfl⟩

/-- The bytes of a header's segment are read without a step, or they lie outside the file. -/
lemma segmentBytes_meets (elfBytes : List UInt8) (what : String) (ph : Phdr)
    (hlen : elfBytes.length < 2^63) : (segmentBytes elfBytes what ph).Meets 0 fun result =>
      ∀ part, result = .ok part ↔
        getRange elfBytes ph.pOffset.toNat (ph.pOffset.toNat+ph.pFilesz.toNat) = some part := by
  unfold segmentBytes getRange
  split_ifs with hover hout hin hin
  · omega
  · exact meets_pure fun part => by simp
  · omega
  · exact meets_pure fun part => by simp
  · refine (meets_between (Nat.le_add_right _ _) (by omega)).bind (k := 0) fun part hpart => ?_
    exact meets_pure fun part' => by simp [hpart.1, slice]
  · omega

/-- There is a reader when both segments lie in the file, and it is that of their bytes. -/
def Built (headers : List Phdr) (elfBytes : Bytes) (result : Except String (Option SceDynamic)) : Prop :=
  (∀ dynlib dynBytes, segmentOf headers elfBytes.1 ptSceDynlibdata = some dynlib →
    segmentOf headers elfBytes.1 ptDynamic = some dynBytes → ∃ d, result = .ok (some d)) ∧
  ∀ d, result = .ok (some d) → ∃ dynBytes,
    segmentOf headers elfBytes.1 ptSceDynlibdata = some d.dynlib ∧
    segmentOf headers elfBytes.1 ptDynamic = some dynBytes ∧ d.tables = (readTags dynBytes).tables

lemma new_meets (headers : List Phdr) (elfBytes : Bytes) : (new headers elfBytes).Meets
    (newSteps headers.length (segmentSize headers elfBytes.1 ptDynamic/16)
      (segmentSize headers elfBytes.1 ptSceDynlibdata)) (Built headers elfBytes) := by
  have hbuilt : ∀ {pType : ℕ} {ph : Phdr}, (headers.find? fun ph => ph.pType = pType) = some ph →
      segmentOf headers elfBytes.1 pType =
        getRange elfBytes.1 ph.pOffset.toNat (ph.pOffset.toNat+ph.pFilesz.toNat) := by
    intro pType ph hfind
    rw [segmentOf, hfind]
    rfl
  have hmissing : ∀ {pType : ℕ}, (headers.find? fun ph => ph.pType = pType) = none →
      segmentOf headers elfBytes.1 pType = none := by
    intro pType hfind
    rw [segmentOf, hfind]
    rfl
  unfold new newSteps
  rw [Nat.two_mul, Nat.add_assoc]
  refine (meets_spend _).bind fun _ _ => ?_
  cases hfind : headers.find? fun ph => ph.pType = ptSceDynlibdata with
  | none =>
    exact meets_pure ⟨fun _ _ h => by simp [hmissing hfind] at h,fun _ h => by cases h⟩
  | some ph =>
    rw [← Nat.zero_add (headers.length+_)]
    refine (segmentBytes_meets elfBytes.1 _ ph elfBytes.2).bind fun result hresult => ?_
    rw [← hbuilt hfind] at hresult
    cases result with
    | error text =>
      exact meets_pure ⟨fun dynlib _ h => absurd ((hresult dynlib).mpr h) nofun,fun _ h => by cases h⟩
    | ok dynlib =>
      have hdynlib := (hresult dynlib).mp rfl
      refine (meets_spend _).bind fun _ _ => ?_
      cases hfind' : headers.find? fun ph => ph.pType = ptDynamic with
      | none => exact meets_pure ⟨fun _ _ _ h => by simp [hmissing hfind'] at h,fun _ h => by cases h⟩
      | some ph' =>
        dsimp only
        rw [← Nat.zero_add (segmentSize headers elfBytes.1 ptDynamic/16*_)]
        refine (segmentBytes_meets elfBytes.1 _ ph' elfBytes.2).bind fun result hresult' => ?_
        rw [← hbuilt hfind'] at hresult'
        cases result with
        | error text =>
          exact meets_pure ⟨fun _ dynBytes _ h => absurd ((hresult' dynBytes).mpr h) nofun,fun _ h => by cases h⟩
        | ok dynBytes =>
          have hdynBytes := (hresult' dynBytes).mp rfl
          have hlen : dynlib.length < 2^63 := by
            have hpart := getRange_length ((hbuilt hfind).symm.trans hdynlib)
            have hfile := elfBytes.2
            omega
          simp only [segmentSize, hdynlib, hdynBytes, Option.map_some, Option.getD_some]
          refine (ofSegments_meets hlen).bind (k := 0) fun d hd => meets_pure ⟨fun _ _ _ _ => ⟨d,rfl⟩,?_⟩
          intro d' h
          obtain rfl := Option.some.inj (Except.ok.inj h)
          exact ⟨dynBytes,hd.1 ▸ hdynlib,hdynBytes,hd.2⟩

end New

lemma segmentOf_length {headers : List Phdr} {elfBytes : Bytes} {pType : ℕ} {part : List UInt8}
    (h : segmentOf headers elfBytes.1 pType = some part) : part.length < 2^63 := by
  obtain ⟨ph,-,hget⟩ := Option.bind_eq_some_iff.mp h
  have hpart := getRange_length hget
  have hfile := elfBytes.2
  omega

/-- The reader is safe on a file exactly when both of its relocation tables are empty or have a first
entry that ends at an address. -/
theorem reads_safely_iff (headers : List Phdr) (elfBytes : Bytes) :
    ReadsSafely headers elfBytes ↔ RelocationTablesFit headers elfBytes.1 := by
  obtain ⟨result,n,hnew,hle,hsegs,hreader⟩ := new_meets headers elfBytes
  constructor
  · rintro ⟨result',n',hnew',-,hsafe⟩ dynlib dynBytes hdynlib hdynBytes
    obtain ⟨rfl,-⟩ := Prod.mk.inj (Option.some.inj (hnew.symm.trans hnew'))
    obtain ⟨d,hd⟩ := hsegs dynlib dynBytes hdynlib hdynBytes
    obtain ⟨dynBytes',hdynlib',hdynBytes',htables⟩ := hreader d hd
    obtain rfl := Option.some.inj (hdynBytes.symm.trans hdynBytes')
    have hrelocs := (relocations_returns_iff (segmentOf_length hdynlib')).mp (hsafe d hd).2.2
    obtain ⟨hrela,hrelaSz,hjmprel,hjmprelSz⟩ := readTags_tables dynBytes
    rwa [htables, hrela, hrelaSz, hjmprel, hjmprelSz] at hrelocs
  · intro hfit
    refine ⟨result,n,hnew,hle,fun d hd => ?_⟩
    obtain ⟨dynBytes,hdynlib,hdynBytes,htables⟩ := hreader d hd
    have hlen := segmentOf_length hdynlib
    refine ⟨imports_returns hlen,exports_returns hlen,(relocations_returns_iff hlen).mpr ?_⟩
    obtain ⟨hrela,hrelaSz,hjmprel,hjmprelSz⟩ := readTags_tables dynBytes
    rw [htables, hrela, hrelaSz, hjmprel, hjmprelSz]
    exact hfit d.dynlib dynBytes hdynlib hdynBytes

/-- An empty dynlib segment, and tags that put a relocation table at the end of the addresses. -/
def farTable : Bytes :=
  ⟨leBytes dtSceRela 8 ++ leBytes (2^64-8) 8 ++ leBytes dtSceRelasz 8 ++ leBytes 24 8,by decide +kernel⟩

def farReader : SceDynamic := ⟨[],⟨0,0,0,0,2^64-8,24,0,0⟩,[],[],[]⟩

def farHeaders : List Phdr := [⟨ptSceDynlibdata,0,0⟩,⟨ptDynamic,0,32⟩]

/-- The end of the table's first entry wraps. -/
theorem not_reads_safely_far : ¬∀ headers elfBytes, ReadsSafely headers elfBytes := by
  intro h
  obtain ⟨result,n,hnew,-,hsafe⟩ := h farHeaders farTable
  have hreader : new farHeaders farTable = .after 6 (.ok (some farReader)) := by decide +kernel
  obtain ⟨rfl,-⟩ := Prod.mk.inj (Option.some.inj (hreader.symm.trans hnew))
  obtain ⟨relocs,k,hrelocs,-⟩ := (hsafe farReader rfl).2.2
  have hstop : farReader.relocations = .stop := by decide +kernel
  exact nomatch hstop.symm.trans hrelocs

end SceDynamic

end Unemups4.Loader

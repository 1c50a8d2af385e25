import Unemups4.Counted
import Unemups4.LoadImage
import Unemups4.SelfContainer

/-! The reader of a retail image's dynamic tables: the tags of PT_DYNAMIC locate a string, a symbol and
two relocation tables in the dynlib segment, all at offsets and with sizes that the file chooses. -/
namespace Unemups4.Loader

section Text

/-- A sequence that has begun: the bits so far, how many bytes are to come, and which the next may be. -/
structure Utf8Pending where
  bits : ℕ
  need : ℕ
  low : ℕ
  high : ℕ
  deriving DecidableEq, Repr

def replacement : Char := Char.ofNat 0xFFFD

/-- What the first byte of a sequence yields, and what has begun with it. -/
def utf8Start (b : ℕ) : List Char × Option Utf8Pending :=
  if b < 0x80 then ([Char.ofNat b],none)
  else if 0xC2 ≤ b ∧ b ≤ 0xDF then ([],some ⟨b-0xC0,1,0x80,0xBF⟩)
  else if b = 0xE0 then ([],some ⟨0,2,0xA0,0xBF⟩)
  else if b = 0xED then ([],some ⟨0xD,2,0x80,0x9F⟩)
  else if 0xE1 ≤ b ∧ b ≤ 0xEF then ([],some ⟨b-0xE0,2,0x80,0xBF⟩)
  else if b = 0xF0 then ([],some ⟨0,3,0x90,0xBF⟩)
  else if 0xF1 ≤ b ∧ b ≤ 0xF3 then ([],some ⟨b-0xF0,3,0x80,0xBF⟩)
  else if b = 0xF4 then ([],some ⟨4,3,0x80,0x8F⟩)
  else ([replacement],none)

/-- A sequence that breaks off yields one replacement for what there was of it. -/
def utf8Chars : Option Utf8Pending → List UInt8 → List Char
  | none,[] => []
  | some _,[] => [replacement]
  | none,b :: bs => (utf8Start b.toNat).1++utf8Chars (utf8Start b.toNat).2 bs
  | some p,b :: bs =>
      if p.low ≤ b.toNat ∧ b.toNat ≤ p.high then
        let bits := p.bits*64+(b.toNat-0x80)
        if p.need = 1 then Char.ofNat bits :: utf8Chars none bs
        else utf8Chars (some ⟨bits,p.need-1,0x80,0xBF⟩) bs
      else replacement :: ((utf8Start b.toNat).1++utf8Chars (utf8Start b.toNat).2 bs)

def fromUtf8Lossy (bytes : List UInt8) : String := String.ofList (utf8Chars none bytes)

end Text

def ptDynamic : ℕ := 2
def ptSceDynlibdata : ℕ := 0x61000000

def dtSceJmprel : ℕ := 0x61000029
def dtScePltrelsz : ℕ := 0x6100002d
def dtSceRela : ℕ := 0x6100002f
def dtSceRelasz : ℕ := 0x61000031
def dtSceStrtab : ℕ := 0x61000035
def dtSceStrsz : ℕ := 0x61000037
def dtSceSymtab : ℕ := 0x61000039
def dtSceSymtabsz : ℕ := 0x6100003f
def dtSceNeededModule : ℕ := 0x6100000f
def dtSceExportLib : ℕ := 0x61000013
def dtSceImportLib : ℕ := 0x61000015

def symEnt : ℕ := 24
def relaEnt : ℕ := 24

structure Phdr where
  pType : ℕ
  pOffset : UInt64
  pFilesz : UInt64
  deriving DecidableEq, Repr

structure SceTables where
  symtab : ℕ
  symtabSz : ℕ
  strtab : ℕ
  strtabSz : ℕ
  rela : ℕ
  relaSz : ℕ
  jmprel : ℕ
  jmprelSz : ℕ
  deriving DecidableEq, Repr

def SceTables.default : SceTables := ⟨0,0,0,0,0,0,0,0⟩

structure NamedId where
  nameOffset : ℕ
  id : ℕ
  deriving DecidableEq, Repr

def NamedId.fromVal (val : ℕ) : NamedId := ⟨val % 2^32,val/2^48 % 2^16⟩

/-- What the tags say: the tables, the libraries and the needed modules. -/
structure SceTags where
  tables : SceTables
  libEntries : List NamedId
  moduleEntries : List NamedId
  deriving DecidableEq, Repr

def SceTables.set (t : SceTables) (tag val : ℕ) : SceTables :=
  if tag = dtSceSymtab then { t with symtab := val }
  else if tag = dtSceSymtabsz then { t with symtabSz := val }
  else if tag = dtSceStrtab then { t with strtab := val }
  else if tag = dtSceStrsz then { t with strtabSz := val }
  else if tag = dtSceRela then { t with rela := val }
  else if tag = dtSceRelasz then { t with relaSz := val }
  else if tag = dtSceJmprel then { t with jmprel := val }
  else if tag = dtScePltrelsz then { t with jmprelSz := val }
  else t

/-- Every other tag is passed over. -/
def SceTags.set (t : SceTags) (tag val : ℕ) : SceTags :=
  { tables := t.tables.set tag val
    libEntries := if tag = dtSceImportLib ∨ tag = dtSceExportLib
      then t.libEntries++[NamedId.fromVal val] else t.libEntries
    moduleEntries := if tag = dtSceNeededModule
      then t.moduleEntries++[NamedId.fromVal val] else t.moduleEntries }

def codes : List Char := "ABCDEFGHIJKLMNOPQRSTUVWXYZabcdefghijklmnopqrstuvwxyz0123456789+-".toList

def code (n : ℕ) : Char := codes.getD (n % 64) 'A'

/-- Six bits a letter. -/
def encodeId (id : ℕ) : String :=
  if id < 0x40 then String.ofList [code id]
  else if id < 0x1000 then String.ofList [code (id/64),code id]
  else String.ofList [code (id/4096),code (id/64),code id]

/-- An entry of a hash map goes in, in place of the one that its key had. -/
def insertEntry {V : Type} (key : String) (value : V) (entries : List (String × V)) : List (String × V) :=
  (key,value) :: entries.filter fun entry => entry.1 ≠ key

/-- Chunks of a size; what is left at the end is not one. -/
def chunksExact (size : ℕ) (bytes : List UInt8) : List (List UInt8) :=
  (List.range (bytes.length/size)).map fun i => slice bytes (i*size) size

/-- A range of a slice, if there is one. -/
def getRange (bytes : List UInt8) (start stop : ℕ) : Option (List UInt8) :=
  if start ≤ stop ∧ stop ≤ bytes.length then some (slice bytes start (stop-start)) else none

/-- The index of the first NUL from a start on, or else that of the end. -/
def cstrEnd (dynlib tail : List UInt8) (start : ℕ) : Counted ℕ :=
  match tail.findIdx? (· = 0) with
  | some p => Counted.add start p
  | none => pure dynlib.length

def readCstr (dynlib : List UInt8) (strtabBase offset : ℕ) : Counted String :=
  if 2^64 ≤ strtabBase+offset then pure ""
  else
    let start := strtabBase+offset
    if dynlib.length ≤ start then pure ""
    else do
      let tail ← Counted.between dynlib start dynlib.length
      Counted.spend (tail.findIdx (· = 0)+1)
      let stop ← cstrEnd dynlib tail start
      let text ← Counted.between dynlib start stop
      Counted.spend text.length
      pure (fromUtf8Lossy text)

structure SceSym where
  stName : ℕ
  stShndx : ℕ
  stValue : ℕ
  deriving DecidableEq, Repr

def SceSym.parse (raw : List UInt8) : Counted SceSym := do
  let name ← Counted.between raw 0 4
  let shndx ← Counted.between raw 6 8
  let value ← Counted.between raw 8 16
  pure ⟨fromLeBytes name,fromLeBytes shndx,fromLeBytes value⟩

structure DecodedName where
  nid : String
  libName : String
  deriving DecidableEq, Repr

structure Import where
  libName : String
  symbolName : String
  symbolId : ℕ
  deriving DecidableEq, Repr

structure SceRelocation extends Relocation where
  symbolIndex : Option ℕ
  deriving DecidableEq, Repr

def relocationKinds : List (ℕ × RelocationKind) :=
  [(0,.none),(1,.absolute64),(2,.pc32),(3,.got32),(4,.plt32),(5,.copy),(6,.globDat),(7,.jumpSlot),
    (8,.relative),(9,.gotPcRel),(10,.absolute32),(11,.absolute32S),(12,.absolute16),(13,.pc16),
    (14,.absolute8),(15,.pc8),(16,.dtpMod64),(17,.dtpOff64),(18,.tpOff64),(19,.tlsGd),(20,.tlsLd),
    (21,.dtpOff32),(22,.gotTpOff),(23,.tpOff32),(24,.pc64),(25,.gotOff64),(26,.gotPc32),(32,.size32),
    (33,.size64),(34,.gotPc32TlsDesc),(35,.tlsDescCall),(36,.tlsDesc),(37,.iRelative)]

def mapGoblinToKind (rType : ℕ) : RelocationKind := (relocationKinds.lookup rType).getD (.unknown rType)

structure SceDynamic where
  dynlib : List UInt8
  tables : SceTables
  librariesByEnc : List (String × String)
  libraryNames : List String
  moduleNames : List String
  deriving DecidableEq, Repr

namespace SceDynamic

section New

/-- The bytes of a segment, whose extent is checked. -/
def segmentBytes (elfBytes : List UInt8) (what : String) (ph : Phdr) :
    Counted (Except String (List UInt8)) :=
  if 2^64 ≤ ph.pOffset.toNat+ph.pFilesz.toNat then pure (.error (what ++ " extent overflow"))
  else if elfBytes.length < ph.pOffset.toNat+ph.pFilesz.toNat then
    pure (.error (what ++ " out of file bounds"))
  else do
    let part ← Counted.between elfBytes ph.pOffset.toNat (ph.pOffset.toNat+ph.pFilesz.toNat)
    pure (.ok part)

def readTag (t : SceTags) (chunk : List UInt8) : Counted SceTags := do
  Counted.spend 1
  let tag ← Counted.between chunk 0 8
  let val ← Counted.between chunk 8 16
  pure (t.set (fromLeBytes tag) (fromLeBytes val))

/-- A name that is not there yet goes in; it is compared with those that are. -/
def pushName (names : List String) (name : String) : Counted (List String) := do
  Counted.spend (names.length*(name.length+1)+1)
  pure (if name ∈ names then names else names++[name])

def readModule (dynlib : List UInt8) (strtab : ℕ) (names : List String) (m : NamedId) :
    Counted (List String) := do
  let name ← readCstr dynlib strtab m.nameOffset
  if name = "" then pure names else pushName names name

def readLibrary (dynlib : List UInt8) (strtab : ℕ) (libs : List (String × String) × List String)
    (lib : NamedId) : Counted (List (String × String) × List String) := do
  let name ← readCstr dynlib strtab lib.nameOffset
  if name = "" then pure libs
  else do
    Counted.spend (name.length+4)
    let names ← pushName libs.2 name
    pure (insertEntry (encodeId lib.id) name libs.1,names)

/-- From the two segments: the tags are read, and the names that they refer to. -/
def ofSegments (dynlib dynBytes : List UInt8) : Counted SceDynamic := do
  let tags ← (chunksExact 16 dynBytes).foldlM readTag ⟨.default,[],[]⟩
  let moduleNames ← tags.moduleEntries.foldlM (readModule dynlib tags.tables.strtab) []
  let libs ← tags.libEntries.foldlM (readLibrary dynlib tags.tables.strtab) ([],[])
  pure ⟨dynlib,tags.tables,libs.1,libs.2,moduleNames⟩

/-- An image without a dynlib segment is not one of these. -/
def new (headers : List Phdr) (elfBytes : Bytes) : Counted (Except String (Option SceDynamic)) := do
  Counted.spend headers.length
  match headers.find? fun ph => ph.pType = ptSceDynlibdata with
  | none => pure (.ok none)
  | some dynlibPh => do
      match ← segmentBytes elfBytes.1 "PT_SCE_DYNLIBDATA" dynlibPh with
      | .error e => pure (.error e)
      | .ok dynlib => do
          Counted.spend headers.length
          match headers.find? fun ph => ph.pType = ptDynamic with
          | none => pure (.error "SCE image has no PT_DYNAMIC")
          | some dynPh => do
              match ← segmentBytes elfBytes.1 "PT_DYNAMIC" dynPh with
              | .error e => pure (.error e)
              | .ok dynBytes => do
                  let d ← ofSegments dynlib dynBytes
                  pure (.ok (some d))

end New

variable (d : SceDynamic)

/-- `symbol#library#module`, or a plain name. -/
def decodeName (encoded : String) : Counted DecodedName := do
  Counted.spend (encoded.length+1)
  match encoded.toList.splitOn '#' with
  | sym :: lib :: _ :: _ =>
      pure ⟨String.ofList sym,(d.librariesByEnc.lookup (String.ofList lib)).getD ""⟩
  | sym :: _ => pure ⟨String.ofList sym,""⟩
  | [] => pure ⟨"",""⟩

/-- A symbol with its name. -/
def readSymbol (raw : List UInt8) : Counted (SceSym × DecodedName) := do
  let sym ← SceSym.parse raw
  let encoded ← readCstr d.dynlib d.tables.strtab sym.stName
  let decoded ← d.decodeName encoded
  pure (sym,decoded)

/-- An entry of the symbol table that lies outside is passed over. -/
def symbolAt (i : ℕ) : Counted (Option (SceSym × DecodedName)) := do
  Counted.spend 1
  let o ← Counted.mul i symEnt
  let off ← Counted.add d.tables.symtab o
  let stop ← Counted.add off symEnt
  match getRange d.dynlib off stop with
  | none => pure none
  | some raw => do
      let read ← d.readSymbol raw
      pure (some read)

/-- No more entries than the segment has room for. -/
def symbolCount : ℕ := min (d.tables.symtabSz/symEnt) ((d.dynlib.length-d.tables.symtab)/symEnt)

def pushImport (result : List Import) (i : ℕ) : Counted (List Import) := do
  match ← d.symbolAt i with
  | none => pure result
  | some (sym,decoded) =>
      if sym.stShndx = 0 ∧ decoded.nid ≠ "" then pure (result++[⟨decoded.libName,decoded.nid,i⟩])
      else pure result

def imports : Counted (List Import) := (List.range d.symbolCount).foldlM d.pushImport []

def pushExport (exports : List (String × ℕ)) (i : ℕ) : Counted (List (String × ℕ)) := do
  match ← d.symbolAt i with
  | none => pure exports
  | some (sym,decoded) =>
      if sym.stShndx ≠ 0 ∧ decoded.nid ≠ "" then do
        Counted.spend decoded.nid.length
        pure (insertEntry decoded.nid sym.stValue exports)
      else pure exports

def exports : Counted (List (String × ℕ)) := (List.range d.symbolCount).foldlM d.pushExport []

/-- The symbol of a relocation, where its offset is one and lies in the segment. -/
def symbolBytes (rSym : ℕ) : Option (List UInt8) :=
  let off := d.tables.symtab+rSym*symEnt
  if rSym*symEnt < 2^64 ∧ off < 2^64 ∧ off+symEnt < 2^64 then getRange d.dynlib off (off+symEnt) else none

/-- The name and the value of a relocation's symbol; the value is that of one that is defined. -/
def relocationSymbol (rSym : ℕ) : Counted (Option String × Option ℕ) :=
  if 0 < rSym then
    match d.symbolBytes rSym with
    | none => pure (none,none)
    | some sraw => do
        let (sym,decoded) ← d.readSymbol sraw
        pure (some decoded.nid,if sym.stShndx ≠ 0 then some sym.stValue else none)
  else pure (none,none)

def readRelocation (raw : List UInt8) : Counted SceRelocation := do
  let offset ← Counted.between raw 0 8
  let info ← Counted.between raw 8 16
  let addend ← Counted.between raw 16 24
  let rSym := fromLeBytes info/2^32
  let (symbolName,symbolValue) ← d.relocationSymbol rSym
  pure ⟨⟨fromLeBytes offset,mapGoblinToKind (fromLeBytes info % 2^32),
    Int.bmod (fromLeBytes addend) (2^64),symbolName,symbolValue⟩,if 0 < rSym then some rSym else none⟩

/-- The loop over a relocation table, which ends at the first entry that lies outside. -/
def relocsFrom (base : ℕ) : (count i : ℕ) → Counted (List SceRelocation)
  | 0, _ => pure []
  | count+1, i => do
      Counted.spend 1
      let o ← Counted.mul i relaEnt
      let off ← Counted.add base o
      let stop ← Counted.add off relaEnt
      match getRange d.dynlib off stop with
      | none => pure []
      | some raw => do
          let reloc ← d.readRelocation raw
          let rest ← relocsFrom base count (i+1)
          pure (reloc :: rest)

/-- The room for the entries is taken beforehand, though no more than the segment can hold. -/
def relocsIn (base size : ℕ) : Counted (List SceRelocation) := do
  let most ← Counted.add (d.dynlib.length/relaEnt) 1
  Counted.spend (min (size/relaEnt) most)
  d.relocsFrom base (size/relaEnt) 0

def relocations : Counted (List SceRelocation) := do
  let relocs ← d.relocsIn d.tables.rela d.tables.relaSz
  let pltRelocs ← d.relocsIn d.tables.jmprel d.tables.jmprelSz
  pure (relocs++pltRelocs)

end SceDynamic

end Unemups4.Loader

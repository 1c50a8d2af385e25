import Unemups4.DecimalText

/-! The reader of a JSON text: its value, or what was wrong with it and where. -/
namespace Unemups4
open Decimal

/-- A value. The members of an object stand in the order of their keys. -/
inductive Json where
  | null
  | bool (b : Bool)
  | number (x : F64)
  | string (s : String)
  | array (xs : List Json)
  | object (m : List (String × Json))

namespace Json

/-- The value of an equal key is replaced. -/
def insert (m : List (String × Json)) (k : String) (v : Json) : List (String × Json) :=
  match m with
  | [] => [(k,v)]
  | (k',v') :: m =>
      if k = k' then (k,v) :: m
      else if k < k' then (k,v) :: (k',v') :: m
      else (k',v') :: insert m k v

/-- An object of these members, a later one in the place of an earlier of its key. -/
def ofMembers (ms : List (String × Json)) : Json := .object (ms.foldl (fun m kv => insert m kv.1 kv.2) [])

/-- `as i64`: towards zero, and the nearest bound outside. -/
def toI64 : F64 → ℤ
  | .nan => 0
  | .inf neg => if neg then -2^63 else 2^63-1
  | .finite neg mag => max (-2^63) (min (2^63-1) (if neg then -⌊mag⌋ else ⌊mag⌋))

def asI64 : Json → Option ℤ
  | .number x => some (toI64 x)
  | _ => none

structure ParseError where
  offset : ℕ
  msg : String
  deriving DecidableEq, Repr

namespace Parser

/-- A failure by the bytes that were left where it was met. -/
structure Failure where
  left : ℤ
  msg : String

def err {α : Type} (s : List UInt8) (msg : String) : Except Failure α := .error ⟨s.length,msg⟩

def peek (s : List UInt8) : Option Char := s.head?.map Char.ofUInt8

def isWs (b : UInt8) : Bool := Char.ofUInt8 b ∈ [' ','\t','\n','\r']

def ws (s : List UInt8) : List UInt8 := s.dropWhile isWs

def eat (c : Char) (s : List UInt8) : Except Failure (List UInt8) :=
  if peek s = some c then .ok s.tail else err s "expected a specific delimiter"

def bytes (s : List Char) : List UInt8 := s.flatMap String.utf8EncodeChar

def lit (t : String) (s : List UInt8) : Option (List UInt8) :=
  if bytes t.toList <+: s then some (s.drop (bytes t.toList).length) else none

def fromUtf8 (s : List UInt8) : Option (List Char) := s.toByteArray.utf8Decode?.map Array.toList

/-- Byte length of the UTF-8 sequence a leading byte starts. -/
def utf8Len (b : UInt8) : ℕ :=
  if b ≤ 0x7f then 1
  else if 0xc0 ≤ b ∧ b ≤ 0xdf then 2
  else if 0xe0 ≤ b ∧ b ≤ 0xef then 3
  else 4

def hexDigit (c : Char) : Option ℕ :=
  if '0' ≤ c ∧ c ≤ '9' then some (c.toNat - '0'.toNat)
  else if 'a' ≤ c ∧ c ≤ 'f' then some (c.toNat - 'a'.toNat+10)
  else if 'A' ≤ c ∧ c ≤ 'F' then some (c.toNat - 'A'.toNat+10)
  else none

/-- `u32::from_str_radix` to the base 16, of a text too short to overflow. -/
def fromStrRadix16 (s : List Char) : Option ℕ :=
  let ds := if s.head? = some '+' then s.tail else s
  if ds = [] then none else (ds.mapM hexDigit).map (List.foldl (fun n d => 16*n+d) 0)

def hex4 (s : List UInt8) : Except Failure (ℕ × List UInt8) :=
  if s.length < 4 then err s "truncated \\u escape"
  else
    match (fromUtf8 (s.take 4)).bind fromStrRadix16 with
    | some v => .ok (v,s.drop 4)
    | none => err s "bad \\u escape"

/-- `char::from_u32`, or the replacement character. -/
def scalar (n : ℕ) : Char := if n.isValidChar then Char.ofNat n else '\uFFFD'

def isHighSurrogate (n : ℕ) : Prop := 0xd800 ≤ n ∧ n < 0xdc00

instance (n : ℕ) : Decidable (isHighSurrogate n) := inferInstanceAs (Decidable (_ ∧ _))

def isLowSurrogate (n : ℕ) : Prop := 0xdc00 ≤ n ∧ n < 0xe000

instance (n : ℕ) : Decidable (isLowSurrogate n) := inferInstanceAs (Decidable (_ ∧ _))

/-- What follows `\u`. A surrogate pair encodes one scalar; a lone surrogate is replaced. -/
def unicode (s : List UInt8) : Except Failure (Char × List UInt8) := do
  let (cp,s) ← hex4 s
  if isHighSurrogate cp then
    if peek s = some '\\' ∧ peek s.tail = some 'u' then
      let (lo,t) ← hex4 s.tail.tail
      if isLowSurrogate lo then .ok (scalar (0x10000+(cp-0xd800)*2^10+(lo-0xdc00)),t)
      else .ok ('\uFFFD',s)
    else .ok ('\uFFFD',s)
  else .ok (scalar cp,s)

/-- What follows a backslash. -/
def escape (s : List UInt8) : Except Failure (Char × List UInt8) :=
  match peek s with
  | none => err s "unterminated escape"
  | some '"' => .ok ('"',s.tail)
  | some '\\' => .ok ('\\',s.tail)
  | some '/' => .ok ('/',s.tail)
  | some 'b' => .ok ('\x08',s.tail)
  | some 'f' => .ok ('\x0c',s.tail)
  | some 'n' => .ok ('\n',s.tail)
  | some 'r' => .ok ('\r',s.tail)
  | some 't' => .ok ('\t',s.tail)
  | some 'u' => unicode s.tail
  | some _ => err s.tail "unknown string escape"

/-- A raw UTF-8 sequence, by its first byte. -/
def raw (b : UInt8) (s : List UInt8) : Except Failure (List Char × List UInt8) :=
  let more := utf8Len b-1
  match fromUtf8 (b :: s.take more) with
  | some t => .ok (t,s.drop more)
  | none => .error ⟨s.length-more,"invalid UTF-8 in string"⟩

/-- A string behind its opening quote, after so much of it. Every turn takes a byte or more. -/
def chars : ℕ → List Char → List UInt8 → Except Failure (String × List UInt8)
  | 0,_,s => err s "unterminated string"
  | _+1,_,[] => err [] "unterminated string"
  | fuel+1,acc,c :: s =>
      match Char.ofUInt8 c with
      | '"' => .ok (.ofList acc,s)
      | '\\' => do
          let (e,s) ← escape s
          chars fuel (acc ++ [e]) s
      | _ => do
          let (t,s) ← raw c s
          chars fuel (acc ++ t) s

def string (s : List UInt8) : Except Failure (String × List UInt8) := do
  let s ← eat '"' s
  chars (s.length+1) [] s

def isNumeric (b : UInt8) : Bool :=
  (Char.ofUInt8 b).isDigit || Char.ofUInt8 b ∈ ['.','e','E','+','-']

/-- A minus in front is one of the run as well. -/
def number (s : List UInt8) : Except Failure (Json × List UInt8) :=
  match parseF64 ((s.takeWhile isNumeric).map Char.ofUInt8) with
  | some x => .ok (.number x,s.dropWhile isNumeric)
  | none => err s "malformed number"

mutual

/-- A value at the first of the bytes. Every turn of the three takes a byte or more. -/
def value : ℕ → List UInt8 → Except Failure (Json × List UInt8)
  | 0,s => err s "unexpected end"
  | fuel+1,s =>
      match peek s with
      | none => err s "unexpected end"
      | some '{' =>
          if peek (ws s.tail) = some '}' then .ok (.object [],(ws s.tail).tail)
          else members fuel [] (ws s.tail)
      | some '[' =>
          if peek (ws s.tail) = some ']' then .ok (.array [],(ws s.tail).tail)
          else items fuel [] (ws s.tail)
      | some '"' => do
          let (t,s) ← string s
          .ok (.string t,s)
      | some c =>
          match c, lit "true" s, lit "false" s, lit "null" s with
          | 't',some s,_,_ => .ok (.bool true,s)
          | 'f',_,some s,_ => .ok (.bool false,s)
          | 'n',_,_,some s => .ok (.null,s)
          | c,_,_,_ =>
              if c = '-' ∨ c.isDigit then number s else err s "unexpected character at value"

/-- The members of an object that are left. -/
def members : ℕ → List (String × Json) → List UInt8 → Except Failure (Json × List UInt8)
  | 0,_,s => err s "unexpected end"
  | fuel+1,m,s => do
      let (k,s) ← string (ws s)
      let s ← eat ':' (ws s)
      let (v,s) ← value fuel (ws s)
      let m := insert m k v
      match peek (ws s) with
      | some ',' => members fuel m (ws s).tail
      | some '}' => .ok (.object m,(ws s).tail)
      | _ => err (ws s) "expected ',' or '\x7d' in object"

/-- The items of an array that are left. -/
def items : ℕ → List Json → List UInt8 → Except Failure (Json × List UInt8)
  | 0,_,s => err s "unexpected end"
  | fuel+1,a,s => do
      let (v,s) ← value fuel (ws s)
      let a := a ++ [v]
      match peek (ws s) with
      | some ',' => items fuel a (ws s).tail
      | some ']' => .ok (.array a,(ws s).tail)
      | _ => err (ws s) "expected ',' or ']' in array"

end

end Parser

open Json.Parser in
/-- A whole document. Trailing non-whitespace is an error. -/
def parse (s : String) : Except ParseError Json :=
  let b := bytes s.toList
  let read : Except Failure Json := do
    let (v,s) ← value (b.length+1) (ws b)
    if ws s = [] then .ok v else err (ws s) "trailing data after top-level value"
  read.mapError fun e => ⟨((b.length : ℤ)-e.left).toNat,e.msg⟩

end Json

end Unemups4

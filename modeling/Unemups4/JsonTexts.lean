import Unemups4.JsonReader

/-! Texts that the reader reads, whatever stands behind them. -/
namespace Unemups4.Json.Parser
open Decimal

lemma utf8Len_ofNat {n : ℕ} (hn : n < 256) :
    utf8Len (UInt8.ofNat n) =
      if n ≤ 127 then 1 else if 192 ≤ n ∧ n ≤ 223 then 2 else if 224 ≤ n ∧ n ≤ 239 then 3 else 4 := by
  simp [utf8Len,UInt8.le_iff_toNat_le,Nat.mod_eq_of_lt hn]

lemma toNat_ofUInt8_ofNat {n : ℕ} (hn : n < 256) : (Char.ofUInt8 (UInt8.ofNat n)).toNat = n := by
  simp [Char.ofUInt8,Char.toNat,Nat.mod_eq_of_lt hn]

/-- The first byte of a character tells how many there are, and is the character if that is ASCII. -/
lemma utf8EncodeChar_cons (c : Char) : ∃ b more, String.utf8EncodeChar c = b :: more ∧
    utf8Len b = more.length+1 ∧
      (Char.ofUInt8 b = c ∧ more = [] ∨ 128 ≤ (Char.ofUInt8 b).toNat ∧ 128 ≤ c.toNat) := by
  have hmax : c.val.toNat < 0x110000 := by
    have := c.valid
    simp only [UInt32.isValidChar,Nat.isValidChar] at this
    omega
  have hchar : c.toNat = c.val.toNat := rfl
  fun_cases String.utf8EncodeChar c with
  | case1 v hv =>
    have hn : c.val.toNat < 256 := by omega
    refine ⟨_,_,rfl,?_,.inl ⟨Char.toNat_inj.mp (toNat_ofUInt8_ofNat hn),rfl⟩⟩
    rw [utf8Len_ofNat hn]
    simp
    omega
  | case2 v =>
    have hn : v/64 % 32+192 < 256 := by omega
    refine ⟨_,_,rfl,?_,.inr ⟨?_,by omega⟩⟩
    · rw [utf8Len_ofNat hn,if_neg (by omega),if_pos (by omega)]
      rfl
    · rw [toNat_ofUInt8_ofNat hn]
      omega
  | case3 v =>
    have hn : v/4096 % 16+224 < 256 := by omega
    refine ⟨_,_,rfl,?_,.inr ⟨?_,by omega⟩⟩
    · rw [utf8Len_ofNat hn,if_neg (by omega),if_neg (by omega),if_pos (by omega)]
      rfl
    · rw [toNat_ofUInt8_ofNat hn]
      omega
  | case4 v =>
    have hn : v/262144 % 8+240 < 256 := by omega
    refine ⟨_,_,rfl,?_,.inr ⟨?_,by omega⟩⟩
    · rw [utf8Len_ofNat hn,if_neg (by omega),if_neg (by omega),if_neg (by omega)]
      rfl
    · rw [toNat_ofUInt8_ofNat hn]
      omega

@[simp]
lemma bytes_nil : bytes [] = [] := rfl

lemma bytes_cons (c : Char) (s : List Char) : bytes (c :: s) = String.utf8EncodeChar c ++ bytes s := by
  simp [bytes]

lemma bytes_append (s t : List Char) : bytes (s ++ t) = bytes s ++ bytes t := by
  simp [bytes]

lemma length_le_bytes (s : List Char) : s.length ≤ (bytes s).length := by
  induction s with
  | nil => simp
  | cons c s ih =>
    have := c.utf8Size_pos
    simp only [bytes_cons,List.length_cons,List.length_append,String.length_utf8EncodeChar]
    omega

lemma fromUtf8_bytes (s : List Char) : fromUtf8 (bytes s) = some s := by
  change Option.map Array.toList s.utf8Encode.utf8Decode? = some s
  simp

/-- An ASCII character is one byte. -/
lemma bytes_ascii {c : Char} (hc : c.toNat < 128) (s : List Char) :
    ∃ b, Char.ofUInt8 b = c ∧ bytes (c :: s) = b :: bytes s := by
  obtain ⟨b,more,henc,hlen,⟨hb,rfl⟩ | ⟨hb,hnot⟩⟩ := utf8EncodeChar_cons c
  · exact ⟨b,hb,by simp [bytes_cons,henc]⟩
  · omega

lemma peek_cons {c : Char} (hc : c.toNat < 128) (s : List Char) : peek (bytes (c :: s)) = some c := by
  obtain ⟨b,hb,hbytes⟩ := bytes_ascii hc s
  simp [hbytes,peek,hb]

lemma tail_cons {c : Char} (hc : c.toNat < 128) (s : List Char) :
    (bytes (c :: s)).tail = bytes s := by
  obtain ⟨b,hb,hbytes⟩ := bytes_ascii hc s
  simp [hbytes]

/-- An ASCII character that is next in the bytes is next in the text. -/
lemma peek_some {c : Char} (hc : c.toNat < 128) {s : List Char} (h : peek (bytes s) = some c) :
    ∃ t, s = c :: t := by
  cases s with
  | nil => simp [peek] at h
  | cons d s =>
    obtain ⟨b,more,henc,hlen,⟨hb,rfl⟩ | ⟨hb,hnot⟩⟩ := utf8EncodeChar_cons d
    · rw [bytes_cons,henc] at h
      exact ⟨s,by simpa [peek,hb] using h⟩
    · rw [bytes_cons,henc] at h
      simp only [peek,List.cons_append,List.head?_cons,Option.map_some,Option.some.injEq] at h
      rw [h] at hb
      omega

section Runs

variable {p : Char → Bool}

lemma not_of_beyond (hp : ∀ c, p c → c.toNat < 128) {c : Char} (hc : 128 ≤ c.toNat) : p c = false := by
  by_contra h
  have := hp c (by simpa using h)
  omega

lemma dropWhile_bytes (hp : ∀ c, p c → c.toNat < 128) (s : List Char) :
    (bytes s).dropWhile (fun b => p (Char.ofUInt8 b)) = bytes (s.dropWhile p) := by
  induction s with
  | nil => rfl
  | cons c s ih =>
    obtain ⟨b,more,henc,hlen,⟨hb,rfl⟩ | ⟨hb,hnot⟩⟩ := utf8EncodeChar_cons c
    · cases hc : p c with
      | true => simp [bytes_cons,henc,hb,hc,ih]
      | false => simp [bytes_cons,henc,hb,hc]
    · simp [bytes_cons,henc,not_of_beyond hp hb,not_of_beyond hp hnot]

lemma takeWhile_bytes (hp : ∀ c, p c → c.toNat < 128) (s : List Char) :
    ((bytes s).takeWhile (fun b => p (Char.ofUInt8 b))).map Char.ofUInt8 = s.takeWhile p := by
  induction s with
  | nil => rfl
  | cons c s ih =>
    obtain ⟨b,more,henc,hlen,⟨hb,rfl⟩ | ⟨hb,hnot⟩⟩ := utf8EncodeChar_cons c
    · cases hc : p c with
      | true => simp [bytes_cons,henc,hb,hc,ih]
      | false => simp [bytes_cons,henc,hb,hc]
    · simp [bytes_cons,henc,not_of_beyond hp hb,not_of_beyond hp hnot]

end Runs

section Strings

/-- A character, read by its bytes. -/
lemma raw_cons {c : Char} {b : UInt8} {more s : List UInt8}
    (hc : String.utf8EncodeChar c = b :: more) (hlen : utf8Len b = more.length+1) :
    raw b (more ++ s) = .ok ([c],s) := by
  have hone : fromUtf8 (b :: more) = some [c] := by
    have := fromUtf8_bytes [c]
    rwa [bytes_cons,bytes,List.flatMap_nil,List.append_nil,hc] at this
  simp [raw,hlen,hone]

lemma chars_quote (fuel : ℕ) (acc s : List Char) :
    chars (fuel+1) acc (bytes ('"' :: s)) = .ok (.ofList acc,bytes s) := rfl

lemma chars_backslash (fuel : ℕ) (acc s : List Char) :
    chars (fuel+1) acc (bytes ('\\' :: s)) =
      (escape (bytes s)).bind fun er => chars fuel (acc ++ [er.1]) er.2 := rfl

/-- Any other character is read as itself. -/
lemma chars_raw {c : Char} (hquote : c ≠ '"') (hback : c ≠ '\\') (fuel : ℕ) (acc s : List Char) :
    chars (fuel+1) acc (bytes (c :: s)) = chars fuel (acc ++ [c]) (bytes s) := by
  obtain ⟨b,more,henc,hlen,hfirst⟩ := utf8EncodeChar_cons c
  have hb : Char.ofUInt8 b ≠ '"' ∧ Char.ofUInt8 b ≠ '\\' := by
    rcases hfirst with ⟨rfl,-⟩ | ⟨hb,-⟩
    · exact ⟨hquote,hback⟩
    · constructor
      · intro h
        simp [h] at hb
      · intro h
        simp [h] at hb
  rw [bytes_cons,henc,List.cons_append,chars]
  split
  · next h => exact absurd h hb.1
  · next h => exact absurd h hb.2
  · rw [raw_cons henc hlen]
    rfl

/-- Between the quotes of a string the first of the two stands for the second. -/
def Spells (t u : List Char) : Prop := ∃ n ≤ t.length, ∀ fuel acc s,
  chars (n+fuel) acc (bytes (t ++ s)) = chars fuel (acc ++ u) (bytes s)

namespace Spells

lemma nil : Spells [] [] := ⟨0,le_rfl,fun fuel acc s => by simp⟩

lemma append {t t' u u' : List Char} (h : Spells t u) (h' : Spells t' u') :
    Spells (t ++ t') (u ++ u') := by
  obtain ⟨n,hn,hread⟩ := h
  obtain ⟨n',hn',hread'⟩ := h'
  refine ⟨n+n',by simp; omega,fun fuel acc s => ?_⟩
  rw [Nat.add_assoc,List.append_assoc,hread,hread',List.append_assoc]

/-- A character that stands for itself. -/
def plain (c : Char) : Bool := c ≠ '"' && c ≠ '\\'

/-- A literal is compared as the characters it lists, and not decoded. -/
lemma plain_lit {l : List Char} (h : l.all plain) : (String.ofList l).toList.all plain := by
  rw [String.toList_ofList]
  exact h

lemma plain_text {t : List Char} (h : t.all plain) : Spells t t := by
  refine ⟨t.length,le_rfl,fun fuel acc s => ?_⟩
  induction t generalizing acc with
  | nil => simp
  | cons c t ih =>
    simp only [List.all_cons,plain,Bool.and_eq_true,decide_eq_true_eq,ne_eq] at h
    have hturn : (c :: t).length+fuel = t.length+fuel+1 := by
      rw [List.length_cons]
      omega
    rw [hturn,List.cons_append,chars_raw h.1.1 h.1.2,ih h.2]
    simp

end Spells

/-- The reading of a string whose text is this between the quotes. -/
lemma string_text {t u : List Char} (h : Spells t u) (s : List Char) :
    string (bytes ('"' :: (t ++ '"' :: s))) = .ok (.ofList u,bytes s) := by
  obtain ⟨n,hn,hread⟩ := h
  have hlen : n+1 ≤ (bytes (t ++ '"' :: s)).length+1 := by
    have := length_le_bytes (t ++ '"' :: s)
    rw [List.length_append] at this
    omega
  obtain ⟨more,hmore⟩ := Nat.exists_eq_add_of_le hlen
  have heat : eat '"' (bytes ('"' :: (t ++ '"' :: s))) = .ok (bytes (t ++ '"' :: s)) := rfl
  rw [string,heat]
  change chars _ [] _ = _
  rw [hmore,Nat.add_assoc,hread,List.nil_append,Nat.add_comm,chars_quote]

end Strings

def blank (c : Char) : Bool := c ∈ [' ','\t','\n','\r']

def numeric (c : Char) : Bool := c.isDigit || c ∈ ['.','e','E','+','-']

lemma ascii_of_blank {c : Char} (h : blank c) : c.toNat < 128 := by
  simp only [blank,List.mem_cons,List.not_mem_nil,or_false,decide_eq_true_eq] at h
  rcases h with rfl | rfl | rfl | rfl <;> decide

lemma ascii_of_numeric {c : Char} (h : numeric c) : c.toNat < 128 := by
  simp only [numeric,Bool.or_eq_true,List.mem_cons,List.not_mem_nil,or_false,decide_eq_true_eq] at h
  rcases h with h | rfl | rfl | rfl | rfl | rfl
  · have hbound : c.val ≤ 57 := by
      simp only [Char.isDigit,Bool.and_eq_true,decide_eq_true_eq] at h
      exact h.2
    exact (UInt32.le_iff_toNat_le.mp hbound).trans_lt (by decide)
  all_goals decide

lemma ws_bytes (s : List Char) : ws (bytes s) = bytes (s.dropWhile blank) :=
  dropWhile_bytes (fun _ => ascii_of_blank) s

lemma ws_blank {b : List Char} (hb : b.all blank) (s : List Char) :
    ws (bytes (b ++ s)) = ws (bytes s) := by
  rw [ws_bytes,ws_bytes,List.dropWhile_append_of_pos (by simpa using hb)]

lemma ws_stop {c : Char} (hc : blank c = false) (s : List Char) :
    ws (bytes (c :: s)) = bytes (c :: s) := by
  rw [ws_bytes]
  simp [hc]

/-- The digits of a number do not go on with this. -/
def Ends (s : List Char) : Prop := ∀ c ∈ s.head?, numeric c = false

lemma not_numeric_of_blank {c : Char} (hc : blank c) : numeric c = false := by
  simp only [blank,List.mem_cons,List.not_mem_nil,or_false,decide_eq_true_eq] at hc
  rcases hc with rfl | rfl | rfl | rfl <;> decide

lemma ends_blank {b : List Char} (hb : b.all blank) : Ends b := by
  intro c hc
  simp only [List.all_eq_true] at hb
  exact not_numeric_of_blank (hb c (List.mem_of_mem_head? hc))

lemma ends_after {b : List Char} (hb : b.all blank) {c : Char} (hc : numeric c = false)
    (s : List Char) : Ends (b ++ c :: s) := by
  cases b with
  | nil => simpa [Ends] using hc
  | cons d b => exact fun e he => ends_blank hb e (by simpa using he)

lemma numeric_of_text (n : Numeral) : ∀ c ∈ n.text, numeric c := by
  have hdigits : ∀ c ∈ n.whole ++ n.frac, numeric c := fun c hc => by simp [numeric,n.digits c hc]
  intro c hc
  simp only [Numeral.text,List.mem_append] at hc
  rcases hc with (hneg | hwhole) | hfrac
  · split at hneg <;> simp at hneg
    rw [hneg]
    rfl
  · exact hdigits c (by simp [hwhole])
  · split at hfrac
    · simp at hfrac
    · rcases List.mem_cons.mp hfrac with rfl | hmem
      · rfl
      · exact hdigits c (by simp [hmem])

lemma blank_of_leads {c : Char} (hc : c = '-' ∨ c.isDigit) : blank c = false := by
  cases hblank : blank c with
  | false => rfl
  | true =>
    simp only [blank,List.mem_cons,List.not_mem_nil,or_false,decide_eq_true_eq] at hblank
    rcases hblank with rfl | rfl | rfl | rfl <;> simp at hc

lemma number_bytes (s : List Char) : number (bytes s) =
    match parseF64 (s.takeWhile numeric) with
    | some x => .ok (.number x,bytes (s.dropWhile numeric))
    | none => err (bytes s) "malformed number" := by
  have htake : ((bytes s).takeWhile isNumeric).map Char.ofUInt8 = s.takeWhile numeric :=
    takeWhile_bytes (fun _ => ascii_of_numeric) s
  have hdrop : (bytes s).dropWhile isNumeric = bytes (s.dropWhile numeric) :=
    dropWhile_bytes (fun _ => ascii_of_numeric) s
  have hnumber : number (bytes s) =
      match parseF64 (((bytes s).takeWhile isNumeric).map Char.ofUInt8) with
      | some x => .ok (.number x,(bytes s).dropWhile isNumeric)
      | none => err (bytes s) "malformed number" := rfl
  rw [hnumber,htake,hdrop]

lemma value_number {c : Char} (hc : c = '-' ∨ c.isDigit) (fuel : ℕ) (s : List Char) :
    value (fuel+1) (bytes (c :: s)) = number (bytes (c :: s)) := by
  have hascii : c.toNat < 128 := by
    apply ascii_of_numeric
    rcases hc with rfl | hc
    · rfl
    · simp [numeric,hc]
  rw [value,peek_cons hascii]
  split
  · next h => simp at h
  · next h => simp at h; subst h; simp at hc
  · next h => simp at h; subst h; simp at hc
  · next h => simp at h; subst h; simp at hc
  · next d _ _ _ h =>
    simp at h
    subst h
    split
    · simp at hc
    · simp at hc
    · simp at hc
    · exact if_pos hc

/-- A text that is read as this value, blanks in front of it or not. -/
def Reads (t : List Char) (v : Json) : Prop := ∀ s fuel, Ends s → t.length < fuel →
  value fuel (ws (bytes (t ++ s))) = .ok (v,bytes s)

namespace Reads

lemma blanks {b t : List Char} {v : Json} (hb : b.all blank) (h : Reads t v) :
    Reads (b ++ t) v := by
  intro s fuel hs hfuel
  rw [List.append_assoc,ws_blank hb]
  exact h s fuel hs (by rw [List.length_append] at hfuel; omega)

lemma null : Reads "null".toList .null := by
  rintro s (_ | fuel) - hfuel
  · simp at hfuel
  · rfl

lemma bool (b : Bool) : Reads (toString b).toList (.bool b) := by
  rintro s (_ | fuel) - hfuel
  · simp at hfuel
  · cases b <;> rfl

lemma string {t u : List Char} (h : Spells t u) : Reads ('"' :: (t ++ ['"'])) (.string (.ofList u)) := by
  rintro s (_ | fuel) - hfuel
  · simp at hfuel
  · have hread : Parser.string (bytes ('"' :: (t ++ '"' :: s))) = .ok (.ofList u,bytes s) :=
      string_text h s
    have htext : '"' :: (t ++ ['"']) ++ s = '"' :: (t ++ '"' :: s) := by simp
    rw [htext,ws_stop rfl]
    change (Parser.string (bytes ('"' :: (t ++ '"' :: s)))).bind _ = _
    rw [hread]
    rfl

lemma number (n : Numeral) : Reads n.text (.number n.value) := by
  have hrun := numeric_of_text n
  obtain ⟨c,more,hfirst,hc⟩ : ∃ c more, n.text = c :: more ∧ (c = '-' ∨ c.isDigit) := by
    cases hneg : n.neg with
    | true => exact ⟨'-',_,by simp [Numeral.text,hneg]; rfl,.inl rfl⟩
    | false =>
      cases hwhole : n.whole with
      | nil => exact absurd hwhole n.whole_ne
      | cons c ds =>
        exact ⟨c,_,by simp [Numeral.text,hneg,hwhole]; rfl,.inr (n.digits c (by simp [hwhole]))⟩
  rintro s (_ | fuel) hs hfuel
  · simp at hfuel
  have hstop : (n.text ++ s).takeWhile numeric = n.text ∧ (n.text ++ s).dropWhile numeric = s := by
    rw [List.takeWhile_append_of_pos hrun,List.dropWhile_append_of_pos hrun]
    cases s with
    | nil => simp
    | cons d s => simp [hs d rfl]
  have hnumber : Parser.number (bytes (n.text ++ s)) = .ok (.number n.value,bytes s) := by
    rw [number_bytes,hstop.1,hstop.2,parseF64_text]
  rw [hfirst,List.cons_append] at hnumber ⊢
  rw [ws_stop (blank_of_leads hc),value_number hc,hnumber]

end Reads

lemma value_object (fuel : ℕ) (s : List Char) : value (fuel+1) (bytes ('{' :: s)) =
    if peek (ws (bytes s)) = some '}' then .ok (.object [],(ws (bytes s)).tail)
    else members fuel [] (ws (bytes s)) := rfl

lemma value_array (fuel : ℕ) (s : List Char) : value (fuel+1) (bytes ('[' :: s)) =
    if peek (ws (bytes s)) = some ']' then .ok (.array [],(ws (bytes s)).tail)
    else items fuel [] (ws (bytes s)) := rfl

/-- After a member. -/
def membersAfter (fuel : ℕ) (m : List (String × Json)) (s : List UInt8) :
    Except Failure (Json × List UInt8) :=
  match peek s with
  | some ',' => members fuel m s.tail
  | some '}' => .ok (.object m,s.tail)
  | _ => err s "expected ',' or '\x7d' in object"

lemma members_succ (fuel : ℕ) (m : List (String × Json)) (s : List UInt8) :
    members (fuel+1) m s =
      (string (ws s)).bind fun ks => (eat ':' (ws ks.2)).bind fun s =>
        (value fuel (ws s)).bind fun vs => membersAfter fuel (insert m ks.1 vs.1) (ws vs.2) := rfl

/-- After an item. -/
def itemsAfter (fuel : ℕ) (a : List Json) (s : List UInt8) : Except Failure (Json × List UInt8) :=
  match peek s with
  | some ',' => items fuel a s.tail
  | some ']' => .ok (.array a,s.tail)
  | _ => err s "expected ',' or ']' in array"

lemma items_succ (fuel : ℕ) (a : List Json) (s : List UInt8) :
    items (fuel+1) a s =
      (value fuel (ws s)).bind fun vs => itemsAfter fuel (a ++ [vs.1]) (ws vs.2) := rfl

/-- A member as it is written, behind so many blanks, and what its text is read as, if it is. -/
structure Member where
  before : String
  key : String
  text : String
  value : Json
  plain : Prop

namespace Member

def chars (x : Member) : List Char :=
  x.before.toList ++ '"' :: (x.key.toList ++ '"' :: ':' :: x.text.toList)

/-- Framed as the reader expects a member. -/
structure Ok (x : Member) : Prop where
  blank : x.before.toList.all blank
  plain : x.key.toList.all Spells.plain
  reads : Reads x.text.toList x.value

end Member

lemma members_member {x : Member} (hx : x.Ok) {s : List Char} (hs : Ends s) {fuel : ℕ}
    (hfuel : x.chars.length < fuel+1) (m : List (String × Json)) :
    members (fuel+1) m (bytes (x.chars ++ s)) =
      membersAfter fuel (insert m x.key x.value) (ws (bytes s)) := by
  have hkey : string (ws (bytes (x.chars ++ s))) = .ok (x.key,bytes (':' :: (x.text.toList ++ s))) := by
    have htext : x.chars ++ s =
        x.before.toList ++ ('"' :: (x.key.toList ++ '"' :: ':' :: (x.text.toList ++ s))) := by
      simp [Member.chars]
    rw [htext,ws_blank hx.blank,ws_stop rfl,string_text (Spells.plain_text hx.plain),
      String.ofList_toList]
  have hcolon : eat ':' (ws (bytes (':' :: (x.text.toList ++ s)))) =
      .ok (bytes (x.text.toList ++ s)) := rfl
  have hvalue := hx.reads s fuel hs (by simp [Member.chars] at hfuel; omega)
  rw [members_succ,hkey]
  simp only [Except.bind,hcolon,hvalue]

lemma members_text {xs : List Member} (hne : xs ≠ []) (hxs : ∀ x ∈ xs, x.Ok) {after : List Char}
    (hafter : after.all blank) (s : List Char) (fuel : ℕ) (m : List (String × Json))
    (hfuel : ([','].intercalate (xs.map Member.chars)).length < fuel) :
    members fuel m (bytes ([','].intercalate (xs.map Member.chars) ++ (after ++ '}' :: s))) =
      .ok (.object (xs.foldl (fun m x => insert m x.key x.value) m),bytes s) := by
  induction xs generalizing fuel m with
  | nil => contradiction
  | cons x xs ih =>
    cases fuel with
    | zero => simp at hfuel
    | succ fuel =>
    have hx := hxs x (by simp)
    cases xs with
    | nil =>
      rw [List.map_singleton,List.intercalate_singleton] at hfuel ⊢
      rw [members_member hx (ends_after hafter rfl s) hfuel,ws_blank hafter,ws_stop rfl]
      rfl
    | cons y ys =>
      rw [List.map_cons,List.map_cons,List.intercalate_cons_cons,← List.map_cons] at hfuel ⊢
      simp only [List.length_append,List.length_singleton] at hfuel
      rw [List.append_assoc,List.append_assoc]
      rw [members_member hx (by simp [Ends]; rfl) (by omega),List.singleton_append,ws_stop rfl]
      exact ih (by simp) (fun z hz => hxs z (by simp [hz])) fuel _ (by omega)

def objectText (xs : List Member) (after : String) : List Char :=
  '{' :: ([','].intercalate (xs.map Member.chars) ++ (after.toList ++ ['}']))

/-- The object of these members. -/
def membersValue (xs : List Member) : Json := ofMembers (xs.map fun x => (x.key,x.value))

/-- The first of the members starts with a quote, behind blanks. -/
lemma members_first {xs : List Member} (hne : xs ≠ []) (hxs : ∀ x ∈ xs, x.Ok) (s : List Char) :
    ∃ b t, b.all blank ∧ [','].intercalate (xs.map Member.chars) ++ s = b ++ '"' :: t := by
  cases xs with
  | nil => contradiction
  | cons x xs =>
    cases xs with
    | nil => exact ⟨x.before.toList,_,(hxs x (by simp)).blank,by simp [Member.chars]; rfl⟩
    | cons y ys =>
      exact ⟨x.before.toList,_,(hxs x (by simp)).blank,by
        simp [Member.chars,List.intercalate_cons_cons]; rfl⟩

theorem Reads.object {xs : List Member} (hne : xs ≠ []) (hxs : ∀ x ∈ xs, x.Ok) {after : String}
    (hafter : after.toList.all blank) : Reads (objectText xs after) (membersValue xs) := by
  rintro s (_ | fuel) - hfuel
  · simp at hfuel
  obtain ⟨b,t,hb,hfirst⟩ := members_first hne hxs (after.toList ++ '}' :: s)
  have htext : objectText xs after ++ s =
      '{' :: ([','].intercalate (xs.map Member.chars) ++ (after.toList ++ '}' :: s)) := by
    simp [objectText]
  have hmembers := members_text hne hxs hafter s fuel []
    (by simp [objectText] at hfuel; omega)
  rw [hfirst] at hmembers htext
  rw [htext,ws_stop rfl,value_object,ws_blank hb,ws_stop rfl,peek_cons (by decide),if_neg (by simp)]
  have hskip : members fuel [] (bytes (b ++ '"' :: t)) = members fuel [] (bytes ('"' :: t)) := by
    cases fuel with
    | zero => exact nomatch hmembers
    | succ fuel => rw [members_succ,members_succ,ws_blank hb]
  rw [← hskip,hmembers,membersValue,ofMembers,List.foldl_map]

/-- The items of an array, each of them in front of its blanks, and the end. -/
def arrayText (ts : List (List Char)) (after : String) : List Char :=
  '[' :: ([','].intercalate ts ++ (after.toList ++ [']']))

lemma items_text {ts : List (List Char)} {vs : List Json} (hts : List.Forall₂ Reads ts vs)
    (hne : ts ≠ []) {after : List Char} (hafter : after.all blank) (s : List Char) (fuel : ℕ)
    (a : List Json) (hfuel : ([','].intercalate ts).length+1 < fuel) :
    items fuel a (bytes ([','].intercalate ts ++ (after ++ ']' :: s))) =
      .ok (.array (a ++ vs),bytes s) := by
  induction hts generalizing fuel a with
  | nil => contradiction
  | @cons t v ts vs ht hts ih =>
    cases fuel with
    | zero => simp at hfuel
    | succ fuel =>
    cases hts with
    | nil =>
      rw [List.intercalate_singleton] at hfuel ⊢
      rw [items_succ,ht _ fuel (ends_after hafter rfl s) (by omega)]
      change itemsAfter fuel (a ++ [v]) (ws (bytes (after ++ ']' :: s))) = _
      rw [ws_blank hafter,ws_stop rfl]
      rfl
    | @cons t' v' ts' vs' ht' hts' =>
      rw [List.intercalate_cons_cons] at hfuel ⊢
      simp only [List.length_append,List.length_singleton] at hfuel
      rw [items_succ,List.append_assoc,List.append_assoc,
        ht _ fuel (by simp [Ends]; rfl) (by omega)]
      change itemsAfter fuel (a ++ [v]) (ws (bytes ([','] ++ _))) = _
      rw [List.singleton_append,ws_stop rfl]
      change items fuel (a ++ [v]) (bytes _) = _
      rw [ih (by simp) fuel (a ++ [v]) (by omega),List.append_assoc,List.singleton_append]

lemma ws_ws (s : List UInt8) : ws (ws s) = ws s := List.dropWhile_idempotent _ _

lemma value_close {s : List UInt8} (hs : peek s = some ']') (fuel : ℕ) :
    value fuel s = err s "unexpected end" ∨ value fuel s = err s "unexpected character at value" := by
  cases fuel with
  | zero => exact .inl rfl
  | succ fuel =>
    right
    rw [value,hs]
    rfl

theorem Reads.array {ts : List (List Char)} {vs : List Json} (hts : List.Forall₂ Reads ts vs)
    {after : String} (hafter : after.toList.all blank) : Reads (arrayText ts after) (.array vs) := by
  rintro s (_ | fuel) - hfuel
  · simp at hfuel
  have htext : arrayText ts after ++ s =
      '[' :: ([','].intercalate ts ++ (after.toList ++ ']' :: s)) := by
    simp [arrayText]
  rw [htext,ws_stop rfl,value_array]
  cases hts with
  | nil =>
    rw [List.intercalate_nil,List.nil_append,ws_blank hafter,ws_stop rfl,peek_cons (by decide)]
    rfl
  | @cons t v ts vs ht hts =>
    have hitems := items_text (.cons ht hts) (by simp) hafter s fuel []
      (by simp [arrayText] at hfuel; omega)
    cases fuel with
    | zero => simp [arrayText] at hfuel
    | succ fuel =>
    have hopen : peek (ws (bytes ([','].intercalate (t :: ts) ++ (after.toList ++ ']' :: s)))) ≠
        some ']' := by
      intro hclose
      rw [items_succ] at hitems
      rcases value_close hclose fuel with h | h <;> rw [h] at hitems <;> exact nomatch hitems
    rw [if_neg hopen]
    rw [items_succ] at hitems ⊢
    rw [ws_ws,hitems,List.nil_append]

/-- A whole text. -/
theorem parse_text {t after : List Char} {v : Json} (h : Reads t v) (hafter : after.all blank)
    {text : String} (htext : text.toList = t ++ after) : parse text = .ok v := by
  have hlen := length_le_bytes (t ++ after)
  rw [List.length_append] at hlen
  have hread := h after ((bytes (t ++ after)).length+1) (ends_blank hafter) (by omega)
  have hend : ws (bytes after) = [] := by
    rw [ws_bytes,List.dropWhile_eq_nil_iff.mpr (by simpa using hafter),bytes_nil]
  rw [parse,htext,hread]
  change Except.mapError _ (if ws (bytes after) = [] then Except.ok v else _) = _
  rw [if_pos hend]
  rfl

end Unemups4.Json.Parser

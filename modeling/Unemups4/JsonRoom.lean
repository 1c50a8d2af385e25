import Unemups4.JsonTexts

/-! How much can stand in the strings of a value that is read from a text. -/
namespace Unemups4.Json
open Decimal

mutual

/-- The characters of the strings of a value, the keys of its objects among them. -/
def weight : Json → ℕ
  | .string s => s.length
  | .array xs => weightItems xs
  | .object m => weightMembers m
  | _ => 0

def weightItems : List Json → ℕ
  | [] => 0
  | x :: xs => weight x+weightItems xs

def weightMembers : List (String × Json) → ℕ
  | [] => 0
  | (k,v) :: m => k.length+weight v+weightMembers m

end

lemma weightItems_append (xs ys : List Json) :
    weightItems (xs ++ ys) = weightItems xs+weightItems ys := by
  induction xs with
  | nil => simp [weightItems]
  | cons x xs ih => simp [weightItems,ih,Nat.add_assoc]

lemma weightMembers_insert_le (m : List (String × Json)) (k : String) (v : Json) :
    weightMembers (insert m k v) ≤ weightMembers m+(k.length+weight v) := by
  induction m with
  | nil => simp [insert,weightMembers]
  | cons kv m ih =>
    simp only [insert]
    split_ifs <;> simp only [weightMembers] <;> omega

namespace Parser

/-- Where in a text a character stands. -/
inductive Place where
  | outside
  | inside
  | escaped
  | hex (more : ℕ)
  deriving DecidableEq

/-- What may stand outside of strings. -/
def mark (c : Char) : Bool := blank c || numeric c || c ∈ "\x7b\x7d[]:,truefalsn".toList

def hexish (c : Char) : Bool := (hexDigit c).isSome || c = '+'

/-- What may stand after a backslash for one character. -/
def escapes : List Char := ['"','\\','/','b','f','n','r','t']

/-- The characters in the strings of a text from this place on, an escape as one. -/
def room : Place → List Char → Option ℕ
  | .outside,[] => some 0
  | _,[] => none
  | .outside,c :: s =>
      if c = '"' then room .inside s else if mark c then room .outside s else none
  | .inside,c :: s =>
      if c = '"' then room .outside s
      else if c = '\\' then room .escaped s
      else (room .inside s).map (·+1)
  | .escaped,c :: s =>
      if c = 'u' then room (.hex 3) s
      else if c ∈ escapes then (room .inside s).map (·+1)
      else none
  | .hex more,c :: s =>
      if hexish c then
        match more with
        | 0 => (room .inside s).map (·+1)
        | more+1 => room (.hex more) s
      else none

/-- Between two places in a text so much was read, on top of what there was. -/
def Leaves (p : Place) (s : List Char) (q : Place) (r : List UInt8) (before after : ℕ) : Prop :=
  ∃ t, r = bytes t ∧ ∀ n, room q t = some n → ∃ k, room p s = some k ∧ after+n ≤ before+k

lemma Leaves.trans {p p' q : Place} {s : List Char} {r r' : List UInt8} {a b c : ℕ}
    (h : Leaves p s p' r a b) (h' : ∀ t, r = bytes t → Leaves p' t q r' b c) :
    Leaves p s q r' a c := by
  obtain ⟨t,ht,hroom⟩ := h
  obtain ⟨t',ht',hroom'⟩ := h' t ht
  refine ⟨t',ht',fun n hn => ?_⟩
  obtain ⟨k,hk,hle⟩ := hroom' n hn
  obtain ⟨k',hk',hle'⟩ := hroom k hk
  exact ⟨k',hk',by omega⟩

lemma room_dropWhile {f : Char → Bool} (hf : ∀ c, f c → mark c ∧ c ≠ '"') (s : List Char) :
    room .outside (s.dropWhile f) = room .outside s := by
  induction s with
  | nil => rfl
  | cons c s ih =>
    cases hc : f c with
    | true => simp [hc,ih,room,hf c hc]
    | false => simp [hc]

lemma split_bytes {u : List Char} (hu : ∀ c ∈ u, c.toNat < 128) {s : List Char} {r : List UInt8}
    (h : bytes s = bytes u ++ r) : ∃ t, s = u ++ t ∧ r = bytes t := by
  induction u generalizing s with
  | nil => exact ⟨s,rfl,by simpa using h.symm⟩
  | cons c u ih =>
    have hc := hu c (by simp)
    obtain ⟨b,hb,hbytes⟩ := bytes_ascii hc u
    rw [hbytes,List.cons_append] at h
    obtain ⟨s,rfl⟩ := peek_some hc (s := s) (by simp [peek,h,hb])
    obtain ⟨b',hb',hbytes'⟩ := bytes_ascii hc s
    rw [hbytes'] at h
    obtain ⟨t,rfl,ht⟩ := ih (fun d hd => hu d (by simp [hd])) (List.cons.inj h).2
    exact ⟨t,rfl,ht⟩

lemma eat_ok {c : Char} (hc : c.toNat < 128) {s : List Char} {r : List UInt8}
    (h : eat c (bytes s) = .ok r) : ∃ t, s = c :: t ∧ r = bytes t := by
  unfold eat at h
  split at h
  · next hpeek =>
    obtain ⟨t,rfl⟩ := peek_some hc hpeek
    rw [tail_cons hc] at h
    exact ⟨t,rfl,(Except.ok.inj h).symm⟩
  · exact nomatch h

lemma lit_some {u : String} (hu : ∀ c ∈ u.toList, c.toNat < 128) {s : List Char} {r : List UInt8}
    (h : lit u (bytes s) = some r) : ∃ t, s = u.toList ++ t ∧ r = bytes t := by
  unfold lit at h
  split at h
  · next hprefix =>
    obtain ⟨t,ht⟩ := hprefix
    obtain ⟨s',rfl,rfl⟩ := split_bytes hu ht.symm
    refine ⟨s',rfl,?_⟩
    simpa [bytes_append] using h.symm
  · exact nomatch h

lemma ascii_of_hexish {c : Char} (hc : hexish c) : c.toNat < 128 := by
  have hle {a : Char} (h : c ≤ a) (ha : a.toNat < 128) : c.toNat < 128 :=
    (UInt32.le_iff_toNat_le.mp h).trans_lt ha
  simp only [hexish,hexDigit,Bool.or_eq_true,decide_eq_true_eq] at hc
  rcases hc with hc | rfl
  · split_ifs at hc with h₁ h₂ h₃
    · exact hle h₁.2 (by decide)
    · exact hle h₂.2 (by decide)
    · exact hle h₃.2 (by decide)
    · simp at hc
  · decide

lemma hexish_of_mapM {ds : List Char} {ns : List ℕ} (h : ds.mapM hexDigit = some ns) :
    ∀ c ∈ ds, hexish c := by
  induction ds generalizing ns with
  | nil => simp
  | cons d ds ih =>
    simp only [List.mapM_cons,Option.pure_def,Option.bind_eq_bind,Option.bind_eq_some_iff] at h
    obtain ⟨n,hn,ns,hns,-⟩ := h
    intro c hc
    rcases List.mem_cons.mp hc with rfl | hc
    · simp [hexish,hn]
    · exact ih hns c hc

lemma hexish_of_fromStrRadix16 {u : List Char} {v : ℕ} (h : fromStrRadix16 u = some v) :
    ∀ c ∈ u, hexish c := by
  simp only [fromStrRadix16] at h
  split_ifs at h with hplus hnil hnil
  · obtain ⟨ns,hns,-⟩ := Option.map_eq_some_iff.mp h
    cases u with
    | nil => simp
    | cons d ds =>
      intro c hc
      rcases List.mem_cons.mp hc with rfl | hc
      · simp only [List.head?_cons,Option.some.injEq] at hplus
        simp [hexish,hplus]
      · exact hexish_of_mapM hns c hc
  · obtain ⟨ns,hns,-⟩ := Option.map_eq_some_iff.mp h
    exact hexish_of_mapM hns

lemma bytes_of_fromUtf8 {s : List UInt8} {u : List Char} (h : fromUtf8 s = some u) : bytes u = s := by
  obtain ⟨a,ha,rfl⟩ := Option.map_eq_some_iff.mp h
  have henc := ByteArray.utf8Encode_get_utf8Decode? (b := s.toByteArray) (h := by simp [ha])
  simp only [ha,Option.get_some] at henc
  have hdata := congrArg (fun b => b.data.toList) henc
  simpa [List.utf8Encode,bytes] using hdata

lemma bytes_length_ascii {u : List Char} (hu : ∀ c ∈ u, c.toNat < 128) :
    (bytes u).length = u.length := by
  induction u with
  | nil => rfl
  | cons c u ih =>
    obtain ⟨b,-,hbytes⟩ := bytes_ascii (hu c (by simp)) u
    rw [hbytes,List.length_cons,List.length_cons,ih (fun d hd => hu d (by simp [hd]))]

/-- Four digits were next in the text. -/
lemma hex4_leaves {s : List Char} {v : ℕ} {r : List UInt8} (h : hex4 (bytes s) = .ok (v,r)) :
    Leaves (.hex 3) s .inside r 0 1 := by
  unfold hex4 at h
  split at h
  · exact nomatch h
  next hlen =>
  split at h
  · next v' hv =>
    obtain ⟨u,hu,hdigits⟩ := Option.bind_eq_some_iff.mp hv
    have hhex := hexish_of_fromStrRadix16 hdigits
    have hascii : ∀ c ∈ u, c.toNat < 128 := fun c hc => ascii_of_hexish (hhex c hc)
    have hbytes := bytes_of_fromUtf8 hu
    have hfour : u.length = 4 := by
      rw [← bytes_length_ascii hascii,hbytes,List.length_take]
      omega
    have hsplit : bytes s = bytes u ++ (bytes s).drop 4 := by
      rw [hbytes,List.take_append_drop]
    obtain ⟨t,hs,ht⟩ := split_bytes hascii hsplit
    obtain ⟨-,rfl⟩ := Prod.mk.inj (Except.ok.inj h)
    refine ⟨t,ht,fun n hn => ⟨n+1,?_,by omega⟩⟩
    match u,hfour with
    | [c₁,c₂,c₃,c₄],_ =>
      simp only [List.mem_cons,List.not_mem_nil,or_false,forall_eq_or_imp,forall_eq] at hhex
      simp [hs,room,hhex,hn]
  · exact nomatch h

lemma unicode_leaves {s : List Char} {c : Char} {r : List UInt8}
    (h : unicode (bytes s) = .ok (c,r)) : Leaves (.hex 3) s .inside r 0 1 := by
  cases hcp : hex4 (bytes s) with
  | error e =>
    rw [unicode,hcp] at h
    exact nomatch h
  | ok vr =>
    obtain ⟨cp,r₁⟩ := vr
    have hfirst := hex4_leaves hcp
    rw [unicode,hcp] at h
    change (if isHighSurrogate cp then _ else Except.ok (scalar cp,r₁)) = _ at h
    split at h
    · split at h
      · next hpair =>
        cases hlo : hex4 r₁.tail.tail with
        | error e =>
          rw [hlo] at h
          exact nomatch h
        | ok vr =>
          obtain ⟨lo,r₂⟩ := vr
          rw [hlo] at h
          change (if isLowSurrogate lo then _ else Except.ok ('\uFFFD',r₁)) = _ at h
          split at h
          · -- the second escape of the pair counts once more than the character of the two
            obtain ⟨-,rfl⟩ := Prod.mk.inj (Except.ok.inj h)
            refine hfirst.trans fun t ht => ?_
            subst ht
            obtain ⟨t,rfl⟩ := peek_some (by decide) hpair.1
            rw [tail_cons (by decide)] at hpair hlo
            obtain ⟨t,rfl⟩ := peek_some (by decide) hpair.2
            rw [tail_cons (by decide)] at hlo
            obtain ⟨t',ht',hroom⟩ := hex4_leaves hlo
            refine ⟨t',ht',fun n hn => ?_⟩
            obtain ⟨k,hk,hle⟩ := hroom n hn
            exact ⟨k,by simpa [room] using hk,by omega⟩
          · obtain ⟨-,rfl⟩ := Prod.mk.inj (Except.ok.inj h)
            exact hfirst
      · obtain ⟨-,rfl⟩ := Prod.mk.inj (Except.ok.inj h)
        exact hfirst
    · obtain ⟨-,rfl⟩ := Prod.mk.inj (Except.ok.inj h)
      exact hfirst

lemma ascii_of_escapes : ∀ c ∈ escapes, c.toNat < 128 ∧ c ≠ 'u' := by simp [escapes]

lemma escape_leaves {s : List Char} {c : Char} {r : List UInt8}
    (h : escape (bytes s) = .ok (c,r)) : Leaves .escaped s .inside r 0 1 := by
  have hone {d e : Char} (hd : d ∈ escapes) (hpeek : peek (bytes s) = some d)
      (hread : Except.ok (ε := Failure) (e,(bytes s).tail) = .ok (c,r)) :
      Leaves .escaped s .inside r 0 1 := by
    obtain ⟨hascii,hu⟩ := ascii_of_escapes d hd
    obtain ⟨t,rfl⟩ := peek_some hascii hpeek
    rw [tail_cons hascii] at hread
    obtain ⟨-,rfl⟩ := Prod.mk.inj (Except.ok.inj hread)
    refine ⟨t,rfl,fun n hn => ⟨n+1,?_,by omega⟩⟩
    rw [room,if_neg hu,if_pos hd,hn]
    rfl
  unfold escape at h
  split at h
  · exact nomatch h
  · next hpeek => exact hone (by decide) hpeek h
  · next hpeek => exact hone (by decide) hpeek h
  · next hpeek => exact hone (by decide) hpeek h
  · next hpeek => exact hone (by decide) hpeek h
  · next hpeek => exact hone (by decide) hpeek h
  · next hpeek => exact hone (by decide) hpeek h
  · next hpeek => exact hone (by decide) hpeek h
  · next hpeek => exact hone (by decide) hpeek h
  · next hpeek =>
    obtain ⟨t,rfl⟩ := peek_some (by decide) hpeek
    rw [tail_cons (by decide)] at h
    obtain ⟨t',ht',hroom⟩ := unicode_leaves h
    exact ⟨t',ht',fun n hn => by simpa [room] using hroom n hn⟩
  · exact nomatch h

lemma chars_leaves {fuel : ℕ} {acc s : List Char} {u : String} {r : List UInt8}
    (h : chars fuel acc (bytes s) = .ok (u,r)) :
    Leaves .inside s .outside r acc.length u.length := by
  induction fuel generalizing acc s with
  | zero => exact nomatch h
  | succ fuel ih =>
    cases s with
    | nil => exact nomatch h
    | cons c s =>
      by_cases hquote : c = '"'
      · subst hquote
        rw [chars_quote] at h
        obtain ⟨rfl,rfl⟩ := Prod.mk.inj (Except.ok.inj h)
        exact ⟨s,rfl,fun n hn => ⟨n,by simpa [room] using hn,by simp⟩⟩
      by_cases hback : c = '\\'
      · subst hback
        rw [chars_backslash] at h
        cases he : escape (bytes s) with
        | error e =>
          rw [he] at h
          exact nomatch h
        | ok er =>
          obtain ⟨e,r₁⟩ := er
          rw [he] at h
          obtain ⟨t,rfl,hroom⟩ := escape_leaves he
          obtain ⟨t',ht',hroom'⟩ := ih h
          refine ⟨t',ht',fun n hn => ?_⟩
          obtain ⟨k,hk,hle⟩ := hroom' n hn
          obtain ⟨k',hk',hle'⟩ := hroom k hk
          refine ⟨k',by simpa [room] using hk',?_⟩
          simp only [List.length_append,List.length_singleton] at hle
          omega
      · rw [chars_raw hquote hback] at h
        obtain ⟨t,ht,hroom⟩ := ih h
        refine ⟨t,ht,fun n hn => ?_⟩
        obtain ⟨k,hk,hle⟩ := hroom n hn
        refine ⟨k+1,by simp [room,hquote,hback,hk],?_⟩
        simp only [List.length_append,List.length_singleton] at hle
        omega

lemma string_leaves {s : List Char} {u : String} {r : List UInt8}
    (h : string (bytes s) = .ok (u,r)) : Leaves .outside s .outside r 0 u.length := by
  unfold string at h
  cases he : eat '"' (bytes s) with
  | error e =>
    rw [he] at h
    exact nomatch h
  | ok r₁ =>
    rw [he] at h
    obtain ⟨t,rfl,rfl⟩ := eat_ok (by decide) he
    obtain ⟨t',ht',hroom⟩ := chars_leaves h
    exact ⟨t',ht',fun n hn => by simpa [room] using hroom n hn⟩

lemma Leaves.refl {p : Place} {s : List Char} {a : ℕ} : Leaves p s p (bytes s) a a :=
  ⟨s,rfl,fun n hn => ⟨n,hn,le_rfl⟩⟩

/-- With more before there is as much more after. -/
lemma Leaves.add {p q : Place} {s : List Char} {r : List UInt8} {a b : ℕ} (h : Leaves p s q r a b)
    (c : ℕ) : Leaves p s q r (c+a) (c+b) := by
  obtain ⟨t,ht,hroom⟩ := h
  refine ⟨t,ht,fun n hn => ?_⟩
  obtain ⟨k,hk,hle⟩ := hroom n hn
  exact ⟨k,hk,by omega⟩

lemma Leaves.mono {p q : Place} {s : List Char} {r : List UInt8} {a a' b : ℕ}
    (h : Leaves p s q r a b) (ha : a ≤ a') : Leaves p s q r a' b := by
  obtain ⟨t,ht,hroom⟩ := h
  refine ⟨t,ht,fun n hn => ?_⟩
  obtain ⟨k,hk,hle⟩ := hroom n hn
  exact ⟨k,hk,by omega⟩

lemma Leaves.skip {f : Char → Bool} (hf : ∀ c, f c → mark c ∧ c ≠ '"') {s : List Char} {a : ℕ} :
    Leaves .outside s .outside (bytes (s.dropWhile f)) a a :=
  ⟨_,rfl,fun n hn => ⟨n,by rwa [room_dropWhile hf] at hn,le_rfl⟩⟩

lemma mark_of_blank (c : Char) (hc : blank c) : mark c ∧ c ≠ '"' := by
  refine ⟨by simp [mark,hc],?_⟩
  rintro rfl
  contradiction

lemma mark_of_numeric (c : Char) (hc : numeric c) : mark c ∧ c ≠ '"' := by
  refine ⟨by simp [mark,hc],?_⟩
  rintro rfl
  contradiction

lemma Leaves.ws {s : List Char} {a : ℕ} : Leaves .outside s .outside (ws (bytes s)) a a := by
  rw [ws_bytes]
  exact .skip mark_of_blank

lemma Leaves.cons {c : Char} (hc : mark c) (hquote : c ≠ '"') {s : List Char} {q : Place}
    {r : List UInt8} {a b : ℕ} (h : Leaves .outside s q r a b) : Leaves .outside (c :: s) q r a b := by
  obtain ⟨t,ht,hroom⟩ := h
  exact ⟨t,ht,fun n hn => by simpa [room,hquote,hc] using hroom n hn⟩

lemma Leaves.append {u : List Char} (hu : ∀ c ∈ u, mark c ∧ c ≠ '"') {s : List Char} {a : ℕ} :
    Leaves .outside (u ++ s) .outside (bytes s) a a := by
  induction u with
  | nil => exact .refl
  | cons c u ih =>
    have hc := hu c (by simp)
    exact .cons hc.1 hc.2 (ih fun d hd => hu d (by simp [hd]))

lemma lit_leaves {u : String} (hu : ∀ c ∈ u.toList, c.toNat < 128 ∧ mark c ∧ c ≠ '"') {s : List Char}
    {r : List UInt8} (h : lit u (bytes s) = some r) {a : ℕ} : Leaves .outside s .outside r a a := by
  obtain ⟨t,rfl,rfl⟩ := lit_some (fun c hc => (hu c hc).1) h
  exact .append fun c hc => (hu c hc).2

lemma eat_leaves {c : Char} (hc : c.toNat < 128) (hmark : mark c) (hquote : c ≠ '"') {s : List Char}
    {r : List UInt8} (h : eat c (bytes s) = .ok r) {a : ℕ} : Leaves .outside s .outside r a a := by
  obtain ⟨t,rfl,rfl⟩ := eat_ok hc h
  exact .cons hmark hquote .refl

/-- A value that ends behind a mark. -/
lemma close_leaves {c : Char} (hc : c.toNat < 128) (hmark : mark c) (hquote : c ≠ '"') {s : List Char}
    {v w : Json} {r : List UInt8} (hpeek : peek (bytes s) = some c)
    (h : Except.ok (ε := Failure) (w,(bytes s).tail) = .ok (v,r)) :
    Leaves .outside s .outside r (weight w) (weight v) := by
  obtain ⟨t,rfl⟩ := peek_some hc hpeek
  rw [tail_cons hc] at h
  obtain ⟨rfl,rfl⟩ := Prod.mk.inj (Except.ok.inj h)
  exact .cons hmark hquote .refl

lemma number_leaves {s : List Char} {v : Json} {r : List UInt8}
    (h : number (bytes s) = .ok (v,r)) : Leaves .outside s .outside r 0 (weight v) := by
  rw [number_bytes] at h
  split at h
  · obtain ⟨rfl,rfl⟩ := Prod.mk.inj (Except.ok.inj h)
    exact .skip mark_of_numeric
  · exact nomatch h

/-- What a turn of the three leaves. -/
structure Turn (fuel : ℕ) : Prop where
  value {s : List Char} {v : Json} {r : List UInt8} :
    value fuel (bytes s) = .ok (v,r) → Leaves .outside s .outside r 0 (weight v)
  members {m : List (String × Json)} {s : List Char} {v : Json} {r : List UInt8} :
    members fuel m (bytes s) = .ok (v,r) → Leaves .outside s .outside r (weightMembers m) (weight v)
  items {a : List Json} {s : List Char} {v : Json} {r : List UInt8} :
    items fuel a (bytes s) = .ok (v,r) → Leaves .outside s .outside r (weightItems a) (weight v)

lemma membersAfter_leaves {fuel : ℕ} (ih : Turn fuel) {m : List (String × Json)} {s : List Char}
    {v : Json} {r : List UInt8} (h : membersAfter fuel m (bytes s) = .ok (v,r)) :
    Leaves .outside s .outside r (weightMembers m) (weight v) := by
  unfold membersAfter at h
  split at h
  · next hpeek =>
    obtain ⟨t,rfl⟩ := peek_some (by decide) hpeek
    rw [tail_cons (by decide)] at h
    exact .cons (by decide) (by decide) (ih.members h)
  · next hpeek =>
    exact close_leaves (by decide) (by decide) (by decide) hpeek h
  · exact nomatch h

lemma itemsAfter_leaves {fuel : ℕ} (ih : Turn fuel) {a : List Json} {s : List Char}
    {v : Json} {r : List UInt8} (h : itemsAfter fuel a (bytes s) = .ok (v,r)) :
    Leaves .outside s .outside r (weightItems a) (weight v) := by
  unfold itemsAfter at h
  split at h
  · next hpeek =>
    obtain ⟨t,rfl⟩ := peek_some (by decide) hpeek
    rw [tail_cons (by decide)] at h
    exact .cons (by decide) (by decide) (ih.items h)
  · next hpeek =>
    exact close_leaves (by decide) (by decide) (by decide) hpeek h
  · exact nomatch h

lemma turn_value {fuel : ℕ} (ih : Turn fuel) {s : List Char} {v : Json} {r : List UInt8}
    (h : value (fuel+1) (bytes s) = .ok (v,r)) : Leaves .outside s .outside r 0 (weight v) := by
  rw [value] at h
  split at h
  · cases h
  · next hpeek =>
    obtain ⟨s,rfl⟩ := peek_some (by decide) hpeek
    rw [tail_cons (by decide),ws_bytes] at h
    refine .cons (by decide) (by decide) (Leaves.trans (.skip mark_of_blank) fun t ht => ?_)
    rw [ht] at h
    split at h
    · next hclose =>
      exact close_leaves (by decide) (by decide) (by decide) hclose h
    · exact ih.members h
  · next hpeek =>
    obtain ⟨s,rfl⟩ := peek_some (by decide) hpeek
    rw [tail_cons (by decide),ws_bytes] at h
    refine .cons (by decide) (by decide) (Leaves.trans (.skip mark_of_blank) fun t ht => ?_)
    rw [ht] at h
    split at h
    · next hclose =>
      exact close_leaves (by decide) (by decide) (by decide) hclose h
    · exact ih.items h
  · cases hread : string (bytes s) with
    | error e =>
      rw [hread] at h
      cases h
    | ok ur =>
      rw [hread] at h
      obtain ⟨rfl,rfl⟩ := Prod.mk.inj (Except.ok.inj h)
      exact string_leaves hread
  · split at h
    · obtain ⟨rfl,rfl⟩ := Prod.mk.inj (Except.ok.inj h)
      exact lit_leaves (by simp [mark]) ‹lit "true" _ = _›
    · obtain ⟨rfl,rfl⟩ := Prod.mk.inj (Except.ok.inj h)
      exact lit_leaves (by simp [mark]) ‹lit "false" _ = _›
    · obtain ⟨rfl,rfl⟩ := Prod.mk.inj (Except.ok.inj h)
      exact lit_leaves (by simp [mark]) ‹lit "null" _ = _›
    · split at h
      · exact number_leaves h
      · cases h

lemma turn_members {fuel : ℕ} (ih : Turn fuel) {m : List (String × Json)} {s : List Char} {v : Json}
    {r : List UInt8} (h : members (fuel+1) m (bytes s) = .ok (v,r)) :
    Leaves .outside s .outside r (weightMembers m) (weight v) := by
  rw [members_succ] at h
  cases hkey : string (ws (bytes s)) with
  | error e =>
    rw [hkey] at h
    exact nomatch h
  | ok kr =>
  obtain ⟨k,r₁⟩ := kr
  rw [hkey] at h
  cases hcolon : eat ':' (ws r₁) with
  | error e =>
    simp only [Except.bind,hcolon] at h
    exact nomatch h
  | ok r₂ =>
  cases hvalue : value fuel (ws r₂) with
  | error e =>
    simp only [Except.bind,hcolon,hvalue] at h
    exact nomatch h
  | ok wr =>
  obtain ⟨w,r₃⟩ := wr
  simp only [Except.bind,hcolon,hvalue] at h
  have hinsert := weightMembers_insert_le m k w
  refine Leaves.trans .ws fun s₁ hs₁ => ?_
  rw [hs₁] at hkey
  refine ((string_leaves hkey).add (weightMembers m)).trans fun s₂ hs₂ => ?_
  subst hs₂
  refine Leaves.trans .ws fun s₃ hs₃ => ?_
  rw [hs₃] at hcolon
  refine (eat_leaves (by decide) (by decide) (by decide) hcolon).trans fun s₄ hs₄ => ?_
  subst hs₄
  refine Leaves.trans .ws fun s₅ hs₅ => ?_
  rw [hs₅] at hvalue
  refine ((ih.value hvalue).add (weightMembers m+k.length)).trans fun s₆ hs₆ => ?_
  subst hs₆
  refine Leaves.trans .ws fun s₇ hs₇ => ?_
  rw [hs₇] at h
  exact (membersAfter_leaves ih h).mono (by omega)

lemma turn_items {fuel : ℕ} (ih : Turn fuel) {a : List Json} {s : List Char} {v : Json}
    {r : List UInt8} (h : items (fuel+1) a (bytes s) = .ok (v,r)) :
    Leaves .outside s .outside r (weightItems a) (weight v) := by
  rw [items_succ] at h
  cases hvalue : value fuel (ws (bytes s)) with
  | error e =>
    rw [hvalue] at h
    exact nomatch h
  | ok wr =>
  obtain ⟨w,r₁⟩ := wr
  rw [hvalue] at h
  change itemsAfter fuel (a ++ [w]) (ws r₁) = _ at h
  refine Leaves.trans .ws fun s₁ hs₁ => ?_
  rw [hs₁] at hvalue
  refine ((ih.value hvalue).add (weightItems a)).trans fun s₂ hs₂ => ?_
  subst hs₂
  refine Leaves.trans .ws fun s₃ hs₃ => ?_
  rw [hs₃] at h
  exact (itemsAfter_leaves ih h).mono (by simp [weightItems_append,weightItems])

lemma turn (fuel : ℕ) : Turn fuel := by
  induction fuel with
  | zero => exact ⟨(nomatch ·),(nomatch ·),(nomatch ·)⟩
  | succ fuel ih => exact ⟨turn_value ih,turn_members ih,turn_items ih⟩

end Parser

open Json.Parser in
/-- The strings of the value have their room in the text that it is read from. -/
theorem weight_parse {text : String} {v : Json} (h : parse text = .ok v) :
    ∃ n, room .outside text.toList = some n ∧ weight v ≤ n := by
  rw [parse] at h
  cases hread : value ((bytes text.toList).length+1) (ws (bytes text.toList)) with
  | error e =>
    rw [hread] at h
    cases h
  | ok wr =>
  obtain ⟨w,r⟩ := wr
  rw [hread] at h
  change Except.mapError _ (if ws r = [] then Except.ok w else _) = _ at h
  split at h
  · next hend =>
    obtain rfl : w = v := Except.ok.inj h
    have hleaves : Leaves .outside text.toList .outside (ws r) 0 (weight w) := by
      refine Leaves.trans .ws fun s hs => ?_
      rw [hs] at hread
      refine ((turn _).value hread).trans fun s' hs' => ?_
      subst hs'
      exact .ws
    obtain ⟨t,ht,hroom⟩ := hleaves
    obtain rfl : t = [] := by
      have hlen := length_le_bytes t
      rw [← ht,hend] at hlen
      simpa using hlen
    obtain ⟨k,hk,hle⟩ := hroom 0 rfl
    exact ⟨k,hk,by omega⟩
  · cases h

end Unemups4.Json

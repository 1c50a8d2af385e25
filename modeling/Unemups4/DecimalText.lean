import Mathlib

/-! Decimal text of integers and single floats, and the double that is read from such a text: the one
nearest to its value. -/
namespace Unemups4.Decimal

/-- A double by its value. -/
inductive F64 where
  | nan
  | inf (neg : Bool)
  | finite (neg : Bool) (mag : ℚ)
  deriving DecidableEq, Repr

/-- The nearest integer, the even one of two. -/
def roundHalfEven (x : ℚ) : ℤ :=
  let below := ⌊x⌋
  if x-below < 1/2 then below
  else if 1/2 < x-below then below+1
  else if below % 2 = 0 then below
  else below+1

/-- The distance between doubles about a value. -/
def ulp (x : ℚ) : ℚ := 2^(max (Int.log 2 x) (-1022)-52)

/-- The double nearest to a magnitude. -/
def nearest (neg : Bool) (x : ℚ) : F64 :=
  let mag := roundHalfEven (x/ulp x)*ulp x
  if 2^1024 ≤ mag then .inf neg else .finite neg mag

/-- The sign in front of a text, and what follows it. -/
def sign : List Char → Bool × List Char
  | '-' :: s => (true,s)
  | '+' :: s => (false,s)
  | s => (false,s)

/-- The decimal exponent at the end of a text. -/
def scale : List Char → Option ℤ
  | [] => some 0
  | c :: s =>
      let (neg,ds) := sign s
      let n : ℤ := Nat.ofDigitChars 10 ds 0
      if (c = 'e' ∨ c = 'E') ∧ ds ≠ [] ∧ ds.all Char.isDigit then some (if neg then -n else n)
      else none

/-- `parse::<f64>` on digits, points, signs and exponents. -/
def parseF64 (s : List Char) : Option F64 :=
  let (neg,s) := sign s
  let whole := s.takeWhile Char.isDigit
  let (frac,s) :=
    match s.dropWhile Char.isDigit with
    | '.' :: s => (s.takeWhile Char.isDigit,s.dropWhile Char.isDigit)
    | s => ([],s)
  if whole = [] ∧ frac = [] then none
  else (scale s).map fun e =>
    nearest neg (Nat.ofDigitChars 10 (whole ++ frac) 0*(10 : ℚ)^(e-(frac.length : ℤ)))

/-- A number written out: digits, with a point somewhere among them or none. -/
structure Numeral where
  neg : Bool
  whole : List Char
  frac : List Char
  whole_ne : whole ≠ []
  digits : ∀ c ∈ whole ++ frac, c.isDigit

namespace Numeral

def text (n : Numeral) : List Char :=
  (if n.neg then ['-'] else []) ++ n.whole ++ if n.frac = [] then [] else '.' :: n.frac

def value (n : Numeral) : F64 :=
  nearest n.neg (Nat.ofDigitChars 10 (n.whole ++ n.frac) 0*(10 : ℚ)^(-(n.frac.length : ℤ)))

/-- An integer. -/
def ofInt (i : ℤ) : Numeral where
  neg := i < 0
  whole := Nat.toDigits 10 i.natAbs
  frac := []
  whole_ne := Nat.toDigits_ne_nil
  digits c hc := by
    rw [List.append_nil] at hc
    exact Nat.isDigit_of_mem_toDigits (by decide) (by decide) hc

/-- Digits with so many zeros after them, or the point so far from their end. -/
def positional (neg : Bool) (digits : ℕ) (exp : ℤ) : Numeral :=
  let ds := Nat.toDigits 10 digits
  let zeros (n : ℕ) := List.replicate n '0'
  have hds : ∀ c ∈ ds, c.isDigit := fun c hc =>
    Nat.isDigit_of_mem_toDigits (by decide) (by decide) hc
  have hzeros (n : ℕ) : ∀ c ∈ zeros n, c.isDigit := fun c hc => by
    rw [List.eq_of_mem_replicate hc]
    decide
  if 0 ≤ exp then
    ⟨neg,ds ++ zeros exp.toNat,[],by simp [ds,Nat.toDigits_ne_nil],by
      simp only [List.append_nil,List.mem_append]
      rintro c (hc | hc)
      · exact hds c hc
      · exact hzeros _ c hc⟩
  else
    let point := ds.length-exp.natAbs
    if h : 0 < point then
      ⟨neg,ds.take point,ds.drop point,by
        rw [ne_eq,List.take_eq_nil_iff]
        rintro (hzero | hnil)
        · omega
        · exact Nat.toDigits_ne_nil hnil,by
        rw [List.take_append_drop]
        exact hds⟩
    else
      ⟨neg,['0'],zeros (exp.natAbs-ds.length) ++ ds,by simp,by
        simp only [List.mem_append,List.mem_singleton]
        rintro c (rfl | hc | hc)
        · decide
        · exact hzeros _ c hc
        · exact hds c hc⟩

end Numeral

/-- A single float by its bits. -/
abbrev F32 := BitVec 32

namespace F32

variable (x : F32)

def neg : Bool := x.msb

def exponentBits : ℕ := ((x >>> 23) &&& 0xff#32).toNat

def fractionBits : ℕ := (x &&& 0x7fffff#32).toNat

def isFinite : Bool := exponentBits x ≠ 255

/-- The magnitude of a finite one is this many times a power of two. -/
def mantissa : ℕ := if exponentBits x = 0 then fractionBits x else fractionBits x+2^23

def exponent : ℤ := if exponentBits x = 0 then -149 else exponentBits x-150

def mag : ℚ := mantissa x*2^exponent x

/-- A decimal that is read as this float. -/
def readAs (q : ℚ) : Bool :=
  let above := ((mantissa x : ℚ)+1/2)*2^exponent x
  let below :=
    if fractionBits x = 0 ∧ 1 < exponentBits x then ((mantissa x : ℚ)-1/4)*2^exponent x
    else ((mantissa x : ℚ)-1/2)*2^exponent x
  if mantissa x % 2 = 0 then below ≤ q ∧ q ≤ above else below < q ∧ q < above

/-- The fewest digits that are read as this float, and of these the nearest to it: so many, for at
least so many digits. -/
def shortest : ℕ → ℕ → ℕ × ℤ
  | 0, n => (0,n)
  | tries+1, n =>
      let exp := Int.log 10 (mag x)-n
      let unit : ℚ := 10^exp
      let low := ⌊mag x/unit⌋₊
      let fits (d : ℕ) : Bool := readAs x (d*unit)
      let d :=
        if fits low ∧ (mag x-low*unit < (low+1)*unit-mag x ∨ ¬fits (low+1)) then low else low+1
      if fits d then if d = 10^(n+1) then (1,exp+(n+1)) else (d,exp)
      else shortest tries (n+1)

/-- What `Display` writes for a finite one. -/
def numeral : Numeral :=
  if mantissa x = 0 then .positional (neg x) 0 0
  else .positional (neg x) (shortest x 9 0).1 (shortest x 9 0).2

def display : String :=
  if isFinite x then .ofList (numeral x).text
  else if fractionBits x ≠ 0 then "NaN"
  else if neg x then "-inf"
  else "inf"

end F32


/-- A character after which the digits of a number cannot go on. -/
def Stops (s : List Char) : Prop := ∀ c ∈ s.head?, ¬c.isDigit

lemma takeWhile_digits {ds s : List Char} (hd : ∀ c ∈ ds, c.isDigit) (hs : Stops s) :
    (ds ++ s).takeWhile Char.isDigit = ds := by
  rw [List.takeWhile_append_of_pos hd]
  cases s with
  | nil => simp
  | cons c s => simpa using hs c rfl

lemma dropWhile_digits {ds s : List Char} (hd : ∀ c ∈ ds, c.isDigit) (hs : Stops s) :
    (ds ++ s).dropWhile Char.isDigit = s := by
  rw [List.dropWhile_append_of_pos hd]
  cases s with
  | nil => simp
  | cons c s => simpa using hs c rfl

/-- A number written out is read as the double nearest to it. -/
theorem parseF64_text (n : Numeral) : parseF64 n.text = some n.value := by
  have hwhole : ∀ c ∈ n.whole, c.isDigit := fun c hc => n.digits c (by simp [hc])
  have hfrac : ∀ c ∈ n.frac, c.isDigit := fun c hc => n.digits c (by simp [hc])
  have hsign : sign n.text =
      (n.neg,n.whole ++ if n.frac = [] then [] else '.' :: n.frac) := by
    unfold Numeral.text
    cases n.neg with
    | true => rfl
    | false =>
      cases hw : n.whole with
      | nil => exact absurd hw n.whole_ne
      | cons c ds =>
        have hc : c.isDigit := hwhole c (by simp [hw])
        simp only [Bool.false_eq_true,if_false,List.nil_append,List.cons_append]
        unfold sign
        split <;> simp_all
  by_cases hnone : n.frac = []
  · have hstop : Stops ([] : List Char) := by simp [Stops]
    simp only [parseF64,hsign,hnone,if_true,takeWhile_digits hwhole hstop,
      dropWhile_digits hwhole hstop]
    simp [n.whole_ne,scale,Numeral.value,hnone]
  · have hstop : Stops ('.' :: n.frac) := by simp [Stops]
    have hend : Stops ([] : List Char) := by simp [Stops]
    have htake := takeWhile_digits hfrac hend
    have hdrop := dropWhile_digits hfrac hend
    rw [List.append_nil] at htake hdrop
    simp only [parseF64,hsign,hnone,if_false,takeWhile_digits hwhole hstop,
      dropWhile_digits hwhole hstop,htake,hdrop]
    simp [n.whole_ne,scale,Numeral.value]

/-- An integer is its own nearest integer. -/
lemma roundHalfEven_intCast (i : ℤ) : roundHalfEven i = i := by
  simp [roundHalfEven]

/-- The integers that a double holds as they are. -/
def Exact (i : ℤ) : Prop := i.natAbs < 2^53

lemma nearest_natCast {n : ℕ} (neg : Bool) (hn : n < 2^53) : nearest neg n = .finite neg n := by
  have hlog : Nat.log 2 n ≤ 52 := by
    rcases Nat.eq_zero_or_pos n with rfl | hpos
    · simp
    · exact Nat.lt_succ_iff.mp (Nat.log_lt_of_lt_pow hpos.ne' hn)
  have hulp : ulp n = (2^(52-Nat.log 2 n) : ℚ)⁻¹ := by
    have hmax : max (Nat.log 2 n : ℤ) (-1022) = Nat.log 2 n := max_eq_left (by omega)
    rw [ulp,Int.log_natCast,hmax,← zpow_natCast,← zpow_neg]
    congr 1
    omega
  have hround : roundHalfEven (n/ulp n) = (n*2^(52-Nat.log 2 n) : ℕ) := by
    have hint := roundHalfEven_intCast ((n*2^(52-Nat.log 2 n) : ℕ) : ℤ)
    rw [hulp,div_inv_eq_mul]
    push_cast at hint ⊢
    exact hint
  have hmag : (roundHalfEven (n/ulp n) : ℚ)*ulp n = n := by
    rw [hround,hulp]
    push_cast
    field_simp
  have hlt : ¬(2 : ℚ)^1024 ≤ n := by
    rw [not_le]
    exact_mod_cast hn.trans_le (Nat.pow_le_pow_right (by decide) (by decide))
  simp only [nearest,hmag,hlt,if_false]

theorem ofInt_value {i : ℤ} (hi : Exact i) : (Numeral.ofInt i).value = .finite (i < 0) i.natAbs := by
  rw [← nearest_natCast _ hi]
  simp [Numeral.value,Numeral.ofInt,Nat.ofDigitChars_ten_toDigits]

end Unemups4.Decimal

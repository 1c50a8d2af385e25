import Unemups4.Decoder

/-! Linear decoding as the code runs it: the loop counts what remains of the slice in 32 bits. Below
2^32 dwords the instructions tile the slice, and each of them is read off its own dwords. -/
namespace Unemups4.Gcn

/-- The loop from `pc` on; `none` tells that it is not over after so many rounds. -/
def decodeRounds (code : List Word) : (rounds pc : ℕ) → Option (List Decoded)
  | 0,_ => none
  | rounds+1,pc =>
      match code.drop pc with
      | [] => some []
      | w0 :: rest =>
          let d := decodeOne w0 rest
          let remaining := (code.length-pc)%2^32
          let size := if remaining < d.sizeDwords then remaining else d.sizeDwords
          (decodeRounds code rounds (pc+size)).map (⟨d.inst,size,pc%2^32⟩ :: ·)

/-- The loop ends, with these instructions. -/
def Decodes (code : List Word) (insts : List Decoded) : Prop :=
  ∃ rounds, decodeRounds code rounds 0 = some insts

/-- One after the other from `pc` to `stop`, and none of them empty. -/
def Tiles : ℕ → List Decoded → ℕ → Prop
  | pc,[],stop => pc = stop
  | pc,d :: ds,stop => d.offsetDwords = pc ∧ 1 ≤ d.sizeDwords ∧ Tiles (pc+d.sizeDwords) ds stop

namespace Decoded

/-- The dwords of an instruction. -/
def own (d : Decoded) (code : List Word) : List Word := (code.drop d.offsetDwords).take d.sizeDwords

/-- What an instruction is follows from its own dwords. -/
def ByOwn (d : Decoded) (code : List Word) : Prop :=
  ∃ w0 rest, d.own code = w0 :: rest ∧ d.inst = (decodeOne w0 rest).inst

/-- The slice does not end inside the instruction. -/
def Whole (d : Decoded) (code : List Word) : Prop :=
  ∃ w0 rest, d.own code = w0 :: rest ∧ d.sizeDwords = (decodeOne w0 rest).sizeDwords

def shift (n : ℕ) (d : Decoded) : Decoded := { d with offsetDwords := d.offsetDwords+n }

end Decoded

/-- Behind a part that ends with a whole instruction, decoding starts anew. -/
def DecodesLinearly (code : List Word) : Prop :=
  ∃ insts, Decodes code insts ∧ Tiles 0 insts code.length ∧
    (insts.map Decoded.sizeDwords).sum = code.length ∧ (∀ d ∈ insts, d.ByOwn code) ∧
    ∀ a b, code = a ++ b → ∀ as, Decodes a as → (∀ d ∈ as, d.Whole a) →
      ∃ bs, Decodes b bs ∧ insts = as ++ bs.map (Decoded.shift a.length)

section Own

/-- A decoder that takes one word does not look at the next. -/
def BySize (f : Word → Decoded) : Prop := (f 0).sizeDwords = 1 → ∀ w1, f w1 = f 0

lemma readSrc_eq {field : ℕ} (h : (decodeSrc field).isLiteral = false) (w1 w1' : Word) :
    readSrc field w1 = readSrc field w1' := by
  simp [readSrc, h]

lemma bySize_decodeVop1 (w0 : Word) : BySize (decodeVop1 w0) := by
  intro h w1
  have hlit : (decodeSrc (bits w0 0 9)).isLiteral = false := by
    simpa [decodeVop1, readSrc_snd] using h
  simp only [decodeVop1, readSrc_eq hlit w1 0]

lemma bySize_decodeVopc (w0 : Word) : BySize (decodeVopc w0) := by
  intro h w1
  have hlit : (decodeSrc (bits w0 0 9)).isLiteral = false := by
    simpa [decodeVopc, readSrc_snd] using h
  simp only [decodeVopc, readSrc_eq hlit w1 0]

lemma bySize_decodeVop2 (w0 : Word) : BySize (decodeVop2 w0) := by
  intro h w1
  simp only [decodeVop2, decoded_sizeDwords, readSrc_snd] at h
  split_ifs at h with hinline
  · omega
  · have hlit : (decodeSrc (bits w0 0 9)).isLiteral = false := by simpa using h
    simp [decodeVop2, readSrc_eq hlit w1 0, hinline]

lemma bySize_decodeScalar (w0 : Word) : BySize (decodeScalar w0) := by
  intro h w1
  unfold decodeScalar at h ⊢
  split_ifs at h ⊢
  · rfl
  · simp only [decoded_sizeDwords, readSrc_snd] at h
    have hlit : (decodeSrc (bits w0 0 8)).isLiteral = false ∧
        (decodeSrc (bits w0 8 8)).isLiteral = false := by simpa using h
    simp only [readSrc_eq hlit.1 w1 0, readSrc_eq hlit.2 w1 0]
  · simp only [decoded_sizeDwords, readSrc_snd] at h
    have hlit : (decodeSrc (bits w0 0 8)).isLiteral = false := by simpa using h
    simp only [readSrc_eq hlit w1 0]
  · rfl
  · simp only [decoded_sizeDwords, readSrc_snd] at h
    have hlit : (decodeSrc (bits w0 0 8)).isLiteral = false ∧
        (decodeSrc (bits w0 8 8)).isLiteral = false := by simpa using h
    simp only [readSrc_eq hlit.1 w1 0, readSrc_eq hlit.2 w1 0]

lemma bySize_ite {f g : Word → Decoded} (c : Prop) [Decidable c] (hf : BySize f)
    (hg : BySize g) : BySize fun w1 => if c then f w1 else g w1 := by
  by_cases hc : c
  · simpa only [if_pos hc] using hf
  · simpa only [if_neg hc] using hg

lemma bySize_of_two {f : Word → Decoded} (hsize : (f 0).sizeDwords = 2) : BySize f :=
  fun h => absurd (hsize.symm.trans h) (by decide)

lemma bySize_decodeOne (w0 : Word) : BySize fun w1 => decodeOne w0 [w1] := by
  unfold decodeOne
  refine bySize_ite _ (bySize_of_two rfl) ?_
  refine bySize_ite _ (bySize_of_two rfl) ?_
  refine bySize_ite _ (bySize_of_two rfl) ?_
  refine bySize_ite _ (fun _ _ => rfl) ?_
  refine bySize_ite _ (bySize_decodeVop1 w0) ?_
  refine bySize_ite _ (bySize_decodeVopc w0) ?_
  refine bySize_ite _ (bySize_of_two rfl) ?_
  refine bySize_ite _ (fun _ _ => rfl) ?_
  refine bySize_ite _ (bySize_decodeScalar w0) ?_
  exact bySize_ite _ (bySize_decodeVop2 w0) fun _ _ => rfl

/-- Words past the size do not count. -/
lemma decodeOne_take (w0 : Word) (rest : List Word) :
    decodeOne w0 (rest.take (instSize w0-1)) = decodeOne w0 rest := by
  rcases Nat.lt_or_ge (instSize w0) 2 with hone | htwo
  · have hsize : instSize w0 = 1 := by
      have hpos := (instSize_bounds w0).1
      omega
    rw [decodeOne_headD, decodeOne_headD w0 rest]
    exact (bySize_decodeOne w0 hsize _).trans (bySize_decodeOne w0 hsize _).symm
  · have hsize : instSize w0-1 = 1 := by
      have hle := (instSize_bounds w0).2
      omega
    rw [hsize, decodeOne_headD, decodeOne_headD w0 rest]
    cases rest <;> rfl

end Own

section Walk

variable {code : List Word} {fuel pc : ℕ}

/-- Enough fuel is enough. -/
lemma decodeFrom_fuel {fuel' : ℕ} (h : code.length ≤ fuel) (h' : code.length ≤ fuel') :
    decodeFrom fuel pc code = decodeFrom fuel' pc code := by
  induction fuel generalizing fuel' pc code with
  | zero =>
    obtain rfl := List.length_eq_zero_iff.mp (Nat.le_zero.mp h)
    simp [decodeFrom]
  | succ fuel ih =>
    cases code with
    | nil => simp [decodeFrom]
    | cons w0 rest =>
      have hpos := (instSize_bounds w0).1
      cases fuel' with
      | zero => simp at h'
      | succ fuel' =>
        simp only [List.length_cons] at h h'
        rw [decodeFrom_cons, decodeFrom_cons, ih] <;> simp only [List.length_drop, List.length_cons] <;> omega

lemma decodeFrom_tiles (h : code.length ≤ fuel) :
    Tiles pc (decodeFrom fuel pc code) (pc+code.length) := by
  induction fuel generalizing pc code with
  | zero =>
    obtain rfl := List.length_eq_zero_iff.mp (Nat.le_zero.mp h)
    simp [decodeFrom, Tiles]
  | succ fuel ih =>
    cases code with
    | nil => simp [decodeFrom, Tiles]
    | cons w0 rest =>
      have hpos := (instSize_bounds w0).1
      simp only [List.length_cons] at h
      rw [decodeFrom_cons]
      refine ⟨rfl,by dsimp only; omega,?_⟩
      have hlen : ((w0 :: rest).drop (min (instSize w0) (rest.length+1))).length ≤ fuel := by
        simp
        omega
      convert ih hlen using 1
      simp only [List.length_drop, List.length_cons]
      omega

lemma tiles_sum {stop : ℕ} {insts : List Decoded} (h : Tiles pc insts stop) :
    stop = pc+(insts.map Decoded.sizeDwords).sum := by
  induction insts generalizing pc with
  | nil => simpa using h.symm
  | cons d ds ih =>
    rw [ih h.2.2, List.map_cons, List.sum_cons, Nat.add_assoc]

lemma take_min_cons (w0 : Word) (rest : List Word) :
    (w0 :: rest).take (min (instSize w0) (rest.length+1)) = w0 :: rest.take (instSize w0-1) := by
  have hpos := (instSize_bounds w0).1
  obtain ⟨n,hn⟩ := Nat.exists_eq_add_of_le' hpos
  rw [hn, Nat.add_sub_cancel, ← List.take_succ_cons, List.take_eq_take_iff, List.length_cons]
  omega

lemma decodeFrom_byOwn : ∀ d ∈ decodeFrom fuel pc (code.drop pc), d.ByOwn code := by
  induction fuel generalizing pc with
  | zero => simp [decodeFrom]
  | succ fuel ih =>
    cases hcode : code.drop pc with
    | nil => simp [decodeFrom]
    | cons w0 rest =>
      have hpos := (instSize_bounds w0).1
      rw [decodeFrom_cons]
      intro d hd
      rcases List.mem_cons.mp hd with rfl | hd
      · refine ⟨w0,rest.take (instSize w0-1),?_,by rw [decodeOne_take]⟩
        rw [Decoded.own, hcode]
        exact take_min_cons w0 rest
      · rw [← hcode, List.drop_drop] at hd
        exact ih d hd

lemma decodeFrom_shift (n : ℕ) :
    decodeFrom fuel (pc+n) code = (decodeFrom fuel pc code).map (Decoded.shift n) := by
  induction fuel generalizing pc code with
  | zero => simp [decodeFrom]
  | succ fuel ih =>
    cases code with
    | nil => simp [decodeFrom]
    | cons w0 rest =>
      rw [decodeFrom_cons, decodeFrom_cons, List.map_cons, ← ih, Nat.add_right_comm]
      rfl

/-- A walk whose instructions all end in the first part goes on with the second. -/
lemma decodeFrom_append {a b : List Word} {fuel' fuel'' : ℕ} (hpc : pc ≤ a.length)
    (hfuel : a.length-pc ≤ fuel) (hfuel' : b.length ≤ fuel') (hfuel'' : a.length-pc+b.length ≤ fuel'')
    (hwhole : ∀ d ∈ decodeFrom fuel pc (a.drop pc), d.Whole a) :
    decodeFrom fuel'' pc (a.drop pc ++ b) =
      decodeFrom fuel pc (a.drop pc) ++ decodeFrom fuel' a.length b := by
  induction fuel generalizing pc fuel'' with
  | zero =>
    obtain rfl : pc = a.length := by omega
    simp only [List.drop_length, List.nil_append, decodeFrom]
    exact decodeFrom_fuel (by omega) hfuel'
  | succ fuel ih =>
    cases hcode : a.drop pc with
    | nil =>
      obtain rfl : pc = a.length := le_antisymm hpc (List.drop_eq_nil_iff.mp hcode)
      simp only [List.nil_append, decodeFrom]
      exact decodeFrom_fuel (by omega) hfuel'
    | cons w0 rest =>
      have hlen := congrArg List.length hcode
      rw [List.length_drop, List.length_cons] at hlen
      rw [hcode, decodeFrom_cons] at hwhole
      -- the first instruction has all its dwords, so none of them comes from the second part
      have hsize : instSize w0 ≤ rest.length+1 := by
        obtain ⟨w0',rest',hown,hd⟩ := hwhole _ List.mem_cons_self
        rw [Decoded.own, hcode, take_min_cons, List.cons.injEq] at hown
        rw [← hown.1, (decodeOne_class _ _).1] at hd
        exact min_eq_left_iff.mp hd
      have hfirst : decodeOne w0 (rest ++ b) = decodeOne w0 rest := by
        rw [← decodeOne_take, List.take_append_of_le_length (by omega), decodeOne_take]
      have hpos := (instSize_bounds w0).1
      cases fuel'' with
      | zero => omega
      | succ fuel'' =>
        have htail : (w0 :: rest).drop (instSize w0) = a.drop (pc+instSize w0) := by
          rw [← hcode, List.drop_drop]
        have hdrop : (w0 :: (rest ++ b)).drop (instSize w0) = a.drop (pc+instSize w0) ++ b := by
          rw [← List.cons_append, List.drop_append_of_le_length hsize, htail]
        rw [List.cons_append, decodeFrom_cons, decodeFrom_cons, hfirst, min_eq_left hsize,
          List.length_append, min_eq_left (by omega), List.cons_append, hdrop, htail]
        refine congrArg (_ :: ·) (ih (by omega) (by omega) (by omega) fun d hd => ?_)
        rw [min_eq_left hsize, htail] at hwhole
        exact hwhole d (List.mem_cons_of_mem _ hd)

end Walk

section Loop

variable {code : List Word} {rounds pc : ℕ}

/-- Where a multiple of 2^32 dwords remains, nothing seems to. -/
lemma decodeRounds_stuck (h : 2^32 ≤ code.length-pc) : decodeRounds code rounds pc = none := by
  induction rounds generalizing pc with
  | zero => rfl
  | succ rounds ih =>
    unfold decodeRounds
    split
    · rename_i hnil
      have hend := List.drop_eq_nil_iff.mp hnil
      omega
    · rw [Option.map_eq_none_iff]
      apply ih
      have hmod := Nat.mod_le (code.length-pc) (2^32)
      split_ifs <;> omega

/-- A shorter slice is walked to its end. -/
lemma decodeRounds_eq {fuel : ℕ} (hlen : code.length < 2^32) (hpc : pc ≤ code.length)
    (hrounds : code.length-pc < rounds) (hfuel : code.length-pc ≤ fuel) :
    decodeRounds code rounds pc = some (decodeFrom fuel pc (code.drop pc)) := by
  induction rounds generalizing pc fuel with
  | zero => omega
  | succ rounds ih =>
    unfold decodeRounds
    cases hcode : code.drop pc with
    | nil => simp [decodeFrom]
    | cons w0 rest =>
      have hleft := congrArg List.length hcode
      rw [List.length_drop, List.length_cons] at hleft
      have hpos := (instSize_bounds w0).1
      have hsize : (if (code.length-pc)%2^32 < (decodeOne w0 rest).sizeDwords then
          (code.length-pc)%2^32 else (decodeOne w0 rest).sizeDwords) =
            min (instSize w0) (rest.length+1) := by
        rw [(decodeOne_class w0 rest).1, Nat.mod_eq_of_lt (by omega), hleft]
        split_ifs <;> omega
      obtain ⟨fuel,rfl⟩ : ∃ n, fuel = n+1 := ⟨fuel-1,by omega⟩
      have htail : decodeRounds code rounds (pc+min (instSize w0) (rest.length+1)) =
          some (decodeFrom fuel (pc+min (instSize w0) (rest.length+1))
            (code.drop (pc+min (instSize w0) (rest.length+1)))) :=
        ih (by omega) (by omega) (by omega)
      dsimp only
      rw [hsize, Nat.mod_eq_of_lt (by omega), htail, decodeFrom_cons, Option.map_some, ← hcode,
        List.drop_drop]

lemma decodeRounds_succ {insts : List Decoded} (h : decodeRounds code rounds pc = some insts) :
    decodeRounds code (rounds+1) pc = some insts := by
  induction rounds generalizing pc insts with
  | zero => cases h
  | succ rounds ih =>
    unfold decodeRounds at h ⊢
    split at h
    · exact h
    · obtain ⟨tail,htail,rfl⟩ := Option.map_eq_some_iff.mp h
      dsimp only
      rw [ih htail, Option.map_some]

end Loop

lemma decodeRounds_mono {code : List Word} {rounds pc : ℕ} {insts : List Decoded}
    (h : decodeRounds code rounds pc = some insts) (n : ℕ) :
    decodeRounds code (rounds+n) pc = some insts := by
  induction n with
  | zero => exact h
  | succ n ih => exact decodeRounds_succ ih

/-- Below 2^32 dwords the loop is the walk over the slice. -/
lemma decodes_iff {code : List Word} {insts : List Decoded} (hlen : code.length < 2^32) :
    Decodes code insts ↔ insts = decodeAll code := by
  have hall : decodeRounds code (code.length+1) 0 = some (decodeAll code) :=
    decodeRounds_eq hlen (Nat.zero_le _) (by omega) (Nat.sub_le _ _)
  constructor
  · rintro ⟨rounds,h⟩
    have hmore := decodeRounds_mono h (code.length+1)
    rw [Nat.add_comm, decodeRounds_mono hall rounds, Option.some.injEq] at hmore
    exact hmore.symm
  · rintro rfl
    exact ⟨_,hall⟩

/-- From 2^32 dwords on the loop is never over. -/
lemma not_decodes {code : List Word} (hlen : 2^32 ≤ code.length) (insts : List Decoded) :
    ¬Decodes code insts := by
  rintro ⟨rounds,h⟩
  rw [decodeRounds_stuck (by omega)] at h
  cases h

/-- A slice is decoded one instruction after the other exactly when its dwords are counted in 32
bits. -/
theorem decodesLinearly_iff (code : List Word) : DecodesLinearly code ↔ code.length < 2^32 := by
  constructor
  · rintro ⟨insts,h,-⟩
    by_contra hlen
    exact not_decodes (not_lt.mp hlen) insts h
  · intro hlen
    have htiles : Tiles 0 (decodeAll code) (0+code.length) := decodeFrom_tiles (le_refl _)
    rw [Nat.zero_add] at htiles
    refine ⟨decodeAll code,(decodes_iff hlen).mpr rfl,htiles,?_,decodeFrom_byOwn,?_⟩
    · rw [tiles_sum htiles, Nat.zero_add]
    · rintro a b rfl as has hwhole
      rw [List.length_append] at hlen
      obtain rfl := (decodes_iff (by omega)).mp has
      refine ⟨decodeAll b,(decodes_iff (by omega)).mpr rfl,?_⟩
      rw [decodeAll, decodeAll, decodeAll, ← decodeFrom_shift, Nat.zero_add]
      exact decodeFrom_append (Nat.zero_le _) (Nat.sub_le _ _) (le_refl _)
        (by rw [List.length_append]; omega) hwhole

/-- A slice of 2^32 dwords: nothing seems to remain at its start. -/
theorem not_decodesLinearly_long : ¬∀ code : List Word, DecodesLinearly code := by
  intro h
  obtain ⟨insts,hdecodes,-⟩ := h (List.replicate (2^32) 0)
  exact not_decodes (by rw [List.length_replicate]) insts hdecodes

end Unemups4.Gcn

import Mathlib

/-! Copies of ranges from one buffer into another: a copy fails when a range runs past its
buffer, and what a sequence of copies leaves at an index is read off the copies that cover it. -/
namespace Unemups4.Blit

variable {α : Type*}

/-- A range of the source and where it goes. -/
structure Copy where
  src : ℕ
  dst : ℕ
  len : ℕ

def Copy.Covers (c : Copy) (i : ℕ) : Prop := c.dst ≤ i ∧ i < c.dst+c.len

def Copy.Fits (c : Copy) (srcLen dstLen : ℕ) : Prop := c.src+c.len ≤ srcLen ∧ c.dst+c.len ≤ dstLen

instance (c : Copy) (srcLen dstLen : ℕ) : Decidable (c.Fits srcLen dstLen) :=
  inferInstanceAs (Decidable (_ ∧ _))

/-- The copy back. -/
def Copy.reverse (c : Copy) : Copy := ⟨c.dst,c.src,c.len⟩

def copySlice (src out : List α) (c : Copy) : Option (List α) :=
  if c.Fits src.length out.length then
    some (out.take c.dst ++ ((src.drop c.src).take c.len ++ out.drop (c.dst+c.len)))
  else none

def copyAll (src out : List α) (copies : List Copy) : Option (List α) :=
  copies.foldlM (copySlice src) out

section Slice

variable {src out : List α} {c : Copy}

lemma copySlice_fits {res : List α} (h : copySlice src out c = some res) :
    c.Fits src.length out.length := by
  unfold copySlice at h
  split_ifs at h with hfits
  exact hfits

lemma copySlice_length {res : List α} (h : copySlice src out c = some res) :
    res.length = out.length := by
  have hfits := copySlice_fits h
  rw [copySlice, if_pos hfits, Option.some.injEq] at h
  obtain ⟨hsrc,hdst⟩ := hfits
  subst h
  simp only [List.length_append, List.length_take, List.length_drop]
  omega

lemma copySlice_covered {res : List α} {i : ℕ} (h : copySlice src out c = some res)
    (hi : c.Covers i) : res[i]? = src[c.src+(i-c.dst)]? := by
  have hfits := copySlice_fits h
  rw [copySlice, if_pos hfits, Option.some.injEq] at h
  obtain ⟨hsrc,hdst⟩ := hfits
  obtain ⟨hle,hlt⟩ := hi
  subst h
  rw [List.getElem?_append_right (by simp; omega), List.getElem?_append_left (by simp; omega),
    List.getElem?_take_of_lt (by simp; omega), List.getElem?_drop]
  congr 2
  simp only [List.length_take]
  omega

lemma copySlice_spared {res : List α} {i : ℕ} (h : copySlice src out c = some res)
    (hi : ¬c.Covers i) : res[i]? = out[i]? := by
  have hfits := copySlice_fits h
  rw [copySlice, if_pos hfits, Option.some.injEq] at h
  obtain ⟨hsrc,hdst⟩ := hfits
  unfold Copy.Covers at hi
  subst h
  by_cases hlt : i < c.dst
  · rw [List.getElem?_append_left (by simp; omega), List.getElem?_take_of_lt hlt]
  · rw [List.getElem?_append_right (by simp; omega), List.getElem?_append_right (by simp; omega),
      List.getElem?_drop]
    congr 1
    simp only [List.length_take, List.length_drop]
    omega

end Slice

section All

variable {src : List α} {copies : List Copy}

/-- Copies that fit all go through. -/
theorem copyAll_isSome {out : List α} (h : ∀ c ∈ copies, c.Fits src.length out.length) :
    ∃ res, copyAll src out copies = some res := by
  induction copies generalizing out with
  | nil => exact ⟨out,rfl⟩
  | cons c copies ih =>
    have hc : copySlice src out c =
        some (out.take c.dst ++ ((src.drop c.src).take c.len ++ out.drop (c.dst+c.len))) :=
      if_pos (h c (by simp))
    obtain ⟨res,hres⟩ := ih fun c' hc' => by
      rw [copySlice_length hc]
      exact h c' (List.mem_cons_of_mem _ hc')
    exact ⟨res,by rw [copyAll, List.foldlM_cons, hc]; exact hres⟩

lemma copyAll_cons {out res : List α} {c : Copy} (h : copyAll src out (c::copies) = some res) :
    ∃ mid, copySlice src out c = some mid ∧ copyAll src mid copies = some res := by
  rw [copyAll, List.foldlM_cons] at h
  exact Option.bind_eq_some_iff.mp h

theorem copyAll_length {out res : List α} (h : copyAll src out copies = some res) :
    res.length = out.length := by
  induction copies generalizing out with
  | nil => cases h; rfl
  | cons c copies ih =>
    obtain ⟨mid,hmid,hres⟩ := copyAll_cons h
    rw [ih hres, copySlice_length hmid]

/-- An index that no copy covers keeps what it had. -/
theorem copyAll_spared {out res : List α} {i : ℕ} (h : copyAll src out copies = some res)
    (hi : ∀ c ∈ copies, ¬c.Covers i) : res[i]? = out[i]? := by
  induction copies generalizing out with
  | nil => cases h; rfl
  | cons c copies ih =>
    obtain ⟨mid,hmid,hres⟩ := copyAll_cons h
    rw [ih hres fun c' hc' => hi c' (List.mem_cons_of_mem _ hc'),
      copySlice_spared hmid (hi c (by simp))]

/-- An index that some copy covers gets what the copies that cover it agree on. -/
theorem copyAll_covered {out res : List α} {i j : ℕ} (h : copyAll src out copies = some res)
    (hsome : ∃ c ∈ copies, c.Covers i)
    (hone : ∀ c ∈ copies, c.Covers i → c.src+(i-c.dst) = j) : res[i]? = src[j]? := by
  induction copies generalizing out with
  | nil => simp at hsome
  | cons c copies ih =>
    obtain ⟨mid,hmid,hres⟩ := copyAll_cons h
    by_cases hlater : ∃ c' ∈ copies, c'.Covers i
    · exact ih hres hlater fun c' hc' => hone c' (List.mem_cons_of_mem _ hc')
    · have hspared : ∀ c' ∈ copies, ¬c'.Covers i := fun c' hc' hi => hlater ⟨c',hc',hi⟩
      have hcovers : c.Covers i := by
        obtain ⟨c',hc',hi⟩ := hsome
        rcases List.mem_cons.mp hc' with rfl | hmem
        · exact hi
        · exact absurd hi (hspared c' hmem)
      rw [copyAll_spared hres hspared, copySlice_covered hmid hcovers, hone c (by simp) hcovers]

end All

section Blocks

/-- A byte lies in one block only. -/
lemma block_eq {a b len k : ℕ} (hk : k < len) (hle : a*len ≤ b*len+k) (hlt : b*len+k < a*len+len) :
    a = b := by
  have hle' : a < b+1 := lt_of_mul_lt_mul_right (a := len) (by linarith) (Nat.zero_le _)
  have hlt' : b < a+1 := lt_of_mul_lt_mul_right (a := len) (by linarith) (Nat.zero_le _)
  omega

/-- The cells of rows are numbered one by one. -/
lemma rowMajor_inj {w x y x' y' : ℕ} (hx : x < w) (hx' : x' < w) (h : y*w+x = y'*w+x') :
    x = x' ∧ y = y' := by
  have hy : y = y' := by
    have hdiv := congrArg (· / w) h
    simpa [Nat.mul_comm _ w, Nat.mul_add_div (Nat.zero_lt_of_lt hx), Nat.div_eq_of_lt hx,
      Nat.div_eq_of_lt hx'] using hdiv
  subst hy
  exact ⟨Nat.add_left_cancel h,rfl⟩

lemma rowMajor_lt {w h x y : ℕ} (hx : x < w) (hy : y < h) : y*w+x < h*w :=
  calc y*w+x < y*w+w := Nat.add_lt_add_left hx _
    _ = (y+1)*w := (Nat.succ_mul y w).symm
    _ ≤ h*w := Nat.mul_le_mul_right w hy

end Blocks

end Unemups4.Blit

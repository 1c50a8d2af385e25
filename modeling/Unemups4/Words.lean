import Mathlib

/-! Arithmetic of 64-bit words: rounding up to a multiple, and the sums and differences that a
computation makes on its way, each of which is exact when its result is a word. -/
namespace Unemups4.Words

section Rounding

variable {n m k : ℕ}

/-- The first multiple of `k` from `n` on. -/
def nextMultipleOf (n k : ℕ) : ℕ := if n % k = 0 then n else n+(k-n%k)

/-- The same, unless it does not fit a word. -/
def checkedNextMultipleOf (n k : ℕ) : Option ℕ :=
  if nextMultipleOf n k < 2^64 then some (nextMultipleOf n k) else none

lemma le_nextMultipleOf (n k : ℕ) : n ≤ nextMultipleOf n k := by
  unfold nextMultipleOf
  split_ifs
  · exact le_refl n
  · exact Nat.le_add_right n _

lemma dvd_nextMultipleOf (n : ℕ) (hk : 0 < k) : k ∣ nextMultipleOf n k := by
  unfold nextMultipleOf
  split_ifs with h
  · exact Nat.dvd_of_mod_eq_zero h
  · have hlt := Nat.mod_lt n hk
    have hdiv := Nat.div_add_mod n k
    exact ⟨n/k+1,by rw [Nat.mul_add, Nat.mul_one]; omega⟩

lemma nextMultipleOf_lt (n : ℕ) (hk : 0 < k) : nextMultipleOf n k < n+k := by
  unfold nextMultipleOf
  split_ifs
  · exact Nat.lt_add_of_pos_right hk
  · omega

/-- Two multiples that are not the same lie a step apart. -/
lemma add_le_of_dvd_of_lt (hn : k ∣ n) (hm : k ∣ m) (h : n < m) : n+k ≤ m := by
  obtain ⟨a,rfl⟩ := hn
  obtain ⟨b,rfl⟩ := hm
  have hab : a+1 ≤ b := lt_of_mul_lt_mul_left' h
  calc k*a+k = k*(a+1) := by ring
    _ ≤ k*b := Nat.mul_le_mul_left k hab

/-- No multiple from `n` on comes before. -/
lemma nextMultipleOf_le (hk : 0 < k) (hm : k ∣ m) (h : n ≤ m) : nextMultipleOf n k ≤ m := by
  by_contra hcon
  have hstep := add_le_of_dvd_of_lt hm (dvd_nextMultipleOf n hk) (not_le.mp hcon)
  have hlt := nextMultipleOf_lt n hk
  omega

lemma nextMultipleOf_mono (hk : 0 < k) (h : n ≤ m) : nextMultipleOf n k ≤ nextMultipleOf m k :=
  nextMultipleOf_le hk (dvd_nextMultipleOf m hk) (h.trans (le_nextMultipleOf m k))

lemma checkedNextMultipleOf_eq_some : checkedNextMultipleOf n k = some m ↔
    nextMultipleOf n k < 2^64 ∧ nextMultipleOf n k = m := by
  simp [checkedNextMultipleOf]

end Rounding

/-- An operation on words that nothing checks. -/
inductive Op where
  | add (a b : ℕ)
  | sub (a b : ℕ)
  | mul (a b : ℕ)
  | round (n k : ℕ)
  | addSigned (a b : ℤ)
  deriving DecidableEq, Repr

/-- Its result is the one that it would have without a bound on words. -/
def Op.Exact : Op → Prop
  | .add a b => a+b < 2^64
  | .sub a b => b ≤ a
  | .mul a b => a*b < 2^64
  | .round n k => nextMultipleOf n k < 2^64
  | .addSigned a b => -2^63 ≤ a+b ∧ a+b < 2^63

instance : DecidablePred Op.Exact
  | .add a b => inferInstanceAs (Decidable (a+b < 2^64))
  | .sub a b => inferInstanceAs (Decidable (b ≤ a))
  | .mul a b => inferInstanceAs (Decidable (a*b < 2^64))
  | .round n k => inferInstanceAs (Decidable (nextMultipleOf n k < 2^64))
  | .addSigned a b => inferInstanceAs (Decidable (-2^63 ≤ a+b ∧ a+b < 2^63))

def Exact (ops : List Op) : Prop := ∀ op ∈ ops, op.Exact

instance (ops : List Op) : Decidable (Exact ops) :=
  inferInstanceAs (Decidable (∀ op ∈ ops, op.Exact))

section Exact

variable {op : Op} {ops ops' : List Op}

@[simp] lemma exact_nil : Exact [] := by simp [Exact]

@[simp] lemma exact_cons : Exact (op :: ops) ↔ op.Exact ∧ Exact ops := List.forall_mem_cons

@[simp] lemma exact_append : Exact (ops++ops') ↔ Exact ops ∧ Exact ops' := List.forall_mem_append

@[simp] lemma exact_map {E : Type*} {l : List E} {f : E → Op} :
    Exact (l.map f) ↔ ∀ e ∈ l, (f e).Exact := List.forall_mem_map

@[simp] lemma exact_flatMap {E : Type*} {l : List E} {f : E → List Op} :
    Exact (l.flatMap f) ↔ ∀ e ∈ l, Exact (f e) := by
  simp only [Exact, List.mem_flatMap]
  exact ⟨fun h e he op hop => h op ⟨e,he,hop⟩,fun h op ⟨e,he,hop⟩ => h e he op hop⟩

end Exact

end Unemups4.Words

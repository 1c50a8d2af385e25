import Unemups4.LoadFrame

/-! What a range of memory holds after stores: a store leaves its bytes where it goes, and other
ranges as they are. -/
namespace Unemups4.Memory

/-- Nothing stored at `b` meets what is stored at `a`. -/
def BytesApart (a n b k : ℕ) : Prop := a+n ≤ b ∨ b+k ≤ a ∨ n = 0 ∨ k = 0

/-- The bytes from an address on. -/
def Holds (contents : ℕ → UInt8) (stores : List Store) (addr : ℕ) (bytes : List UInt8) : Prop :=
  ∀ i < bytes.length, bytes[i]? = some (byteAt contents stores (addr+i))

variable {contents : ℕ → UInt8} {stores : List Store} {addr len a : ℕ} {bytes data : List UInt8}

lemma byteAt_cons (s : Store) (stores : List Store) :
    byteAt contents (s :: stores) a = (s.byte a).getD (byteAt contents stores a) := by
  unfold byteAt
  rw [List.findSome?_cons]
  cases s.byte a <;> rfl

@[simp] lemma holds_nil : Holds contents stores addr [] := fun _ hi => absurd hi (Nat.not_lt_zero _)

lemma holds_write : Holds contents (.write addr data :: stores) addr data := by
  intro i hi
  simp [byteAt_cons, Store.byte, hi]

lemma holds_zero : Holds contents (.zero addr len :: stores) addr (List.replicate len 0) := by
  intro i hi
  rw [List.length_replicate] at hi
  simp [byteAt_cons, Store.byte, hi]

/-- Bytes in a row. -/
lemma Holds.concat (h : Holds contents stores addr bytes)
    (h' : Holds contents stores (addr+bytes.length) data) : Holds contents stores addr (bytes++data) := by
  intro i hi
  rw [List.length_append] at hi
  rw [List.getElem?_append]
  split_ifs with hlt
  · exact h i hlt
  · rw [h' (i-bytes.length) (by omega)]
    congr 2
    omega

/-- A store elsewhere. -/
lemma Holds.cons {s : Store} (h : Holds contents stores addr bytes)
    (hs : ∀ i < bytes.length, ¬s.Covers (addr+i)) : Holds contents (s :: stores) addr bytes := by
  intro i hi
  rw [byteAt_cons, Store.byte_eq_none_iff.mpr (hs i hi)]
  exact h i hi

/-- Stores elsewhere. -/
lemma Holds.append {new : List Store} (h : Holds contents stores addr bytes)
    (hnew : ∀ s ∈ new, ∀ i < bytes.length, ¬s.Covers (addr+i)) :
    Holds contents (new++stores) addr bytes := by
  induction new with
  | nil => exact h
  | cons s new ih =>
    have hrest := ih fun s' hs' => hnew s' (List.mem_cons_of_mem _ hs')
    exact hrest.cons (hnew s List.mem_cons_self)

end Unemups4.Memory

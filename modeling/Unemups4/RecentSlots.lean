import Mathlib

/-! Slots that hold the latest entries of a growing log: entry `i` lives at `place i`, and entries
less than `k` apart have different places. -/
namespace Unemups4.RecentSlots

variable {σ α : Type*}

/-- Entries less than `k` apart do not share a slot. -/
def Spaced (k : ℕ) (place : ℕ → σ) : Prop := ∀ i j, i < j → j < i+k → place i ≠ place j

/-- Each of the last `k` entries of the log is in its slot. -/
def Keeps (k : ℕ) (place : ℕ → σ) (slots : σ → α) (log : List α) : Prop :=
  ∀ (i : ℕ) (hi : i < log.length), log.length ≤ i+k → slots (place i) = log[i]

variable {k : ℕ} {place : ℕ → σ} {slots slots' : σ → α} {log : List α}

lemma keeps_nil : Keeps k place slots [] := fun i hi => absurd hi (by simp)

/-- A new entry takes the slot of the one that falls out. -/
lemma Keeps.append (h : Keeps k place slots log) (hplace : Spaced k place) {a : α}
    (hnew : slots' (place log.length) = a)
    (hold : ∀ s, s ≠ place log.length → slots' s = slots s) :
    Keeps k place slots' (log ++ [a]) := by
  intro i hi hrecent
  rw [List.length_append, List.length_singleton] at hi hrecent
  by_cases hlast : i = log.length
  · subst hlast
    rw [List.getElem_concat_length rfl]
    exact hnew
  · have hlt : i < log.length := by omega
    rw [List.getElem_append_left hlt, hold _ (hplace i log.length hlt (by omega))]
    exact h i hlt (by omega)

/-- Entries that change where they are. -/
lemma Keeps.map (h : Keeps k place slots log) {f : α → α}
    (hslots : ∀ i < log.length, log.length ≤ i+k → slots' (place i) = f (slots (place i))) :
    Keeps k place slots' (log.map f) := by
  intro i hi hrecent
  rw [List.length_map] at hi hrecent
  rw [List.getElem_map, hslots i hi hrecent, h i hi hrecent]

/-- The slots read in order give the end of the log. -/
lemma Keeps.read (h : Keeps k place slots log) :
    (List.range' (log.length-k) (min k log.length)).map (fun i => slots (place i)) = log.rtake k := by
  have hlength : (log.rtake k).length = min k log.length := by
    simp only [List.rtake, List.length_drop]
    omega
  apply List.ext_getElem
  · simp [hlength]
  · intro i hi hi'
    have hlt : i < min k log.length := by simpa using hi
    rw [List.getElem_map, List.getElem_range']
    simp only [List.rtake, List.getElem_drop, one_mul]
    exact h _ (by omega) (by omega)

end Unemups4.RecentSlots

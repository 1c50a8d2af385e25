import Mathlib

/-! Partial transition systems: the states that runs reach when each step of a run meets a
condition in the state it is taken from, the invariants of such runs, and locks that are taken
in the order of a rank. -/
namespace Unemups4.Transition

variable {S L : Type*}

/-- The states reached from an initial one by steps that meet the condition. -/
inductive Reach (next : S → L → Option S) (init : S → Prop) (ok : S → L → Prop) : S → Prop
  | start {s : S} : init s → Reach next init ok s
  | step {s s' : S} {l : L} : Reach next init ok s → ok s l → next s l = some s' →
      Reach next init ok s'

namespace Reach

variable {next : S → L → Option S} {init : S → Prop} {ok ok' : S → L → Prop} {s : S}

lemma mono (h : ∀ s l, ok s l → ok' s l) (hs : Reach next init ok s) : Reach next init ok' s := by
  induction hs with
  | start hinit => exact .start hinit
  | step _ hok hstep ih => exact .step ih (h _ _ hok) hstep

/-- What holds at the start and over each step that meets the condition holds in every state
reached. -/
theorem invariant {inv : S → Prop} (hinit : ∀ s, init s → inv s)
    (hstep : ∀ s l s', inv s → ok s l → next s l = some s' → inv s')
    (hs : Reach next init ok s) : inv s := by
  induction hs with
  | start h => exact hinit _ h
  | step _ hok h ih => exact hstep _ _ _ ih hok h

/-- The same, with what was proved of the states reached before. -/
theorem invariant_of {known inv : S → Prop} (hknown : ∀ s, Reach next init ok s → known s)
    (hinit : ∀ s, init s → inv s)
    (hstep : ∀ s l s', known s → inv s → ok s l → next s l = some s' → inv s')
    (hs : Reach next init ok s) : inv s := by
  induction hs with
  | start h => exact hinit _ h
  | step hreach hok h ih => exact hstep _ _ _ (hknown _ hreach) ih hok h

end Reach

/-- A run by its labels. -/
def exec (next : S → L → Option S) (s : S) : List L → Option S
  | [] => some s
  | l :: ls => (next s l).bind fun s' => exec next s' ls

/-- A run that stops before a step that does not meet the condition. -/
def guarded (next : S → L → Option S) (ok : S → L → Prop) [∀ s l, Decidable (ok s l)] (s : S)
    (l : L) : Option S := if ok s l then next s l else none

/-- The state a run ends in is reached. -/
lemma Reach.exec {next : S → L → Option S} {init : S → Prop} {ok : S → L → Prop}
    [∀ s l, Decidable (ok s l)] {s s' : S} {ls : List L} (hs : Reach next init ok s)
    (h : exec (guarded next ok) s ls = some s') : Reach next init ok s' := by
  induction ls generalizing s with
  | nil =>
    obtain rfl : s = s' := by simpa [Transition.exec] using h
    exact hs
  | cons l ls ih =>
    obtain ⟨s'',hstep,hrun⟩ := Option.bind_eq_some_iff.mp h
    unfold guarded at hstep
    split_ifs at hstep with hok
    exact ih (.step hs hok hstep) hrun

section LockOrder

variable {T K : Type*} {holds awaits : T → K → Prop} {rank : K → ℕ}

/-- One waits for another that holds what it awaits. -/
def WaitsFor (holds awaits : T → K → Prop) (t u : T) : Prop := ∃ k, awaits t k ∧ holds u k

lemma rank_le_of_waits (h : ∀ t k l, holds t k → awaits t l → rank k < rank l) {t u : T}
    (hw : Relation.TransGen (WaitsFor holds awaits) t u) :
    ∃ k l, awaits t k ∧ holds u l ∧ rank k ≤ rank l := by
  induction hw with
  | single hw =>
    obtain ⟨k,ha,hh⟩ := hw
    exact ⟨k,k,ha,hh,le_refl _⟩
  | tail _ hw ih =>
    obtain ⟨k,l,ha,hh,hle⟩ := ih
    obtain ⟨l',ha',hh'⟩ := hw
    exact ⟨k,l',ha,hh',hle.trans (h _ _ _ hh ha').le⟩

/-- When each awaits only what ranks above all it holds, none waits for itself. -/
theorem not_waits_self (rank : K → ℕ) (h : ∀ t k l, holds t k → awaits t l → rank k < rank l) (t : T) :
    ¬Relation.TransGen (WaitsFor holds awaits) t t := by
  intro hw
  obtain ⟨k,l,ha,hh,hle⟩ := rank_le_of_waits h hw
  have hlt := h t l k hh ha
  omega

end LockOrder

end Unemups4.Transition

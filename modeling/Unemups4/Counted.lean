import Mathlib

/-! Computations that count their steps, and that stop short where an index is out of range or a sum is
not a word. -/
namespace Unemups4

universe u

/-- A result with the number of steps it took, or nothing where the computation was stopped. -/
def Counted (α : Type u) : Type u := Option (α × ℕ)

namespace Counted

variable {α β : Type u}

def after (n : ℕ) (a : α) : Counted α := some (a,n)

def followed (x : Counted α) (f : α → Counted β) : Counted β :=
  match x with
  | none => none
  | some (a,n) =>
      match f a with
      | none => none
      | some (b,k) => some (b,n+k)

instance : Monad Counted where
  pure := after 0
  bind := followed

instance [DecidableEq α] : DecidableEq (Counted α) := inferInstanceAs (DecidableEq (Option (α × ℕ)))

def stop : Counted α := none

def spend (n : ℕ) : Counted PUnit.{u+1} := after n ⟨⟩

def add (a b : ℕ) : Counted ℕ := if a+b < 2^64 then pure (a+b) else stop

def mul (a b : ℕ) : Counted ℕ := if a*b < 2^64 then pure (a*b) else stop

/-- The part of a list from one index up to another. -/
def between {E : Type} (l : List E) (start stop : ℕ) : Counted (List E) :=
  if start ≤ stop ∧ stop ≤ l.length then pure ((l.drop start).take (stop-start)) else Counted.stop

/-- It is not stopped, and its result is as said after no more steps than that. -/
def Meets (x : Counted α) (bound : ℕ) (Q : α → Prop) : Prop := ∃ a n, x = some (a,n) ∧ n ≤ bound ∧ Q a

/-- It returns within some steps. -/
def Returns (x : Counted α) (bound : ℕ) : Prop := x.Meets bound fun _ => True

section Rules

variable {x : Counted α} {f : α → Counted β} {a b n k : ℕ} {P : α → Prop} {Q : β → Prop}

lemma meets_pure {c : α} (h : P c) : Meets (pure c) n P := ⟨c,0,rfl,Nat.zero_le n,h⟩

lemma Meets.bind (hx : x.Meets n P) (hf : ∀ c, P c → (f c).Meets k Q) : (x >>= f).Meets (n+k) Q := by
  obtain ⟨c,i,rfl,hi,hc⟩ := hx
  obtain ⟨d,j,hd,hj,hQ⟩ := hf c hc
  refine ⟨d,i+j,?_,Nat.add_le_add hi hj,hQ⟩
  show followed (some (c,i)) f = some (d,i+j)
  rw [followed, hd]

lemma Meets.mono {P' : α → Prop} (h : x.Meets n P) (hle : n ≤ k) (hP : ∀ c, P c → P' c) :
    x.Meets k P' := by
  obtain ⟨c,i,heq,hi,hc⟩ := h
  exact ⟨c,i,heq,hi.trans hle,hP c hc⟩

lemma Meets.returns (h : x.Meets n P) (hle : n ≤ k) : x.Returns k := h.mono hle fun _ _ => trivial

lemma meets_spend (n : ℕ) : (spend n).Meets n fun _ => True := ⟨⟨⟩,n,rfl,le_refl n,trivial⟩

lemma meets_add (h : a+b < 2^64) : (add a b).Meets 0 fun c => c = a+b := by
  rw [add, if_pos h]
  exact meets_pure rfl

lemma meets_mul (h : a*b < 2^64) : (mul a b).Meets 0 fun c => c = a*b := by
  rw [mul, if_pos h]
  exact meets_pure rfl

lemma meets_between {E : Type} {l : List E} (h : a ≤ b) (hb : b ≤ l.length) :
    (between l a b).Meets 0 fun part => part = (l.drop a).take (b-a) ∧ part.length = b-a := by
  rw [between, if_pos ⟨h,hb⟩]
  refine meets_pure ⟨rfl,?_⟩
  rw [List.length_take, List.length_drop]
  omega

/-- A computation that starts by being stopped. -/
lemma stop_bind : (stop >>= f) = stop := rfl

lemma Meets.bind_stop (hx : x.Meets n P) (hf : ∀ c, P c → f c = stop) : (x >>= f) = stop := by
  obtain ⟨c,i,rfl,-,hc⟩ := hx
  show followed (some (c,i)) f = none
  rw [followed, hf c hc]
  rfl

lemma add_eq_stop (h : ¬a+b < 2^64) : add a b = stop := if_neg h

/-- A loop over a list, from what holds of its state after each number of rounds. -/
lemma meets_foldlM {E : Type} {step : β → E → Counted β} {init : β} {l : List E}
    (Inv : ℕ → β → Prop) (hinit : Inv 0 init)
    (hstep : ∀ i b e, e ∈ l → i < l.length → Inv i b → (step b e).Meets n (Inv (i+1))) :
    (l.foldlM step init).Meets (l.length*n) (Inv l.length) := by
  induction l generalizing init Inv with
  | nil => exact meets_pure hinit
  | cons e l ih =>
    rw [List.foldlM_cons, List.length_cons, Nat.succ_mul, Nat.add_comm]
    refine (hstep 0 init e List.mem_cons_self (Nat.succ_pos _) hinit).bind fun b hb => ?_
    exact ih (fun i => Inv (i+1)) hb fun i b' e' he' hi hInv =>
      hstep (i+1) b' e' (List.mem_cons_of_mem e he') (Nat.succ_lt_succ hi) hInv

/-- A loop whose rounds take a step each. -/
lemma foldlM_eq {E : Type} {step : β → E → Counted β} {g : β → E → β} {l : List E} (init : β)
    (h : ∀ e ∈ l, ∀ b, step b e = some (g b e,1)) : l.foldlM step init = some (l.foldl g init,l.length) := by
  induction l generalizing init with
  | nil => rfl
  | cons e l ih =>
    have hrest := ih (g init e) fun e' he' => h e' (List.mem_cons_of_mem e he')
    rw [List.foldlM_cons, h e List.mem_cons_self, List.foldl_cons, List.length_cons, Nat.add_comm]
    show followed (some (g init e,1)) (fun b => l.foldlM step b) = _
    rw [followed, hrest]

end Rules

end Counted

end Unemups4

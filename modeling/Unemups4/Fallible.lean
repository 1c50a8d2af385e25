import Mathlib

/-! Peeling apart computations in `Except`, loops in it, and two computations in `Option`
side by side. -/
namespace Unemups4.Fallible

universe u v

variable {ε : Type v} {α β : Type u}

@[simp] lemma ok_bind (a : α) (f : α → Except ε β) : (Except.ok a >>= f) = f a := rfl

@[simp] lemma error_bind (e : ε) (f : α → Except ε β) : (Except.error e >>= f) = .error e := rfl

@[simp] lemma pure_eq_ok (a : α) : (pure a : Except ε α) = .ok a := rfl

@[simp] lemma ok_map (f : α → β) (a : α) : (f <$> (Except.ok a : Except ε α)) = .ok (f a) := rfl

@[simp] lemma error_map (f : α → β) (e : ε) :
    (f <$> (Except.error e : Except ε α)) = .error e := rfl

lemma bind_eq_ok {x : Except ε α} {f : α → Except ε β} {r : β} :
    (x >>= f) = .ok r ↔ ∃ a, x = .ok a ∧ f a = .ok r := by
  cases x with
  | error e => simp
  | ok a => simp

lemma bind_eq_error {x : Except ε α} {f : α → Except ε β} {e : ε} :
    (x >>= f) = .error e ↔ x = .error e ∨ ∃ a, x = .ok a ∧ f a = .error e := by
  cases x with
  | error e => simp
  | ok a => simp

lemma map_eq_ok {x : Except ε α} {f : α → β} {r : β} :
    (f <$> x) = .ok r ↔ ∃ a, x = .ok a ∧ f a = r := by
  cases x with
  | error e => simp
  | ok a => simp

section Loop

variable {σ τ : Type u} {ι : Type*}

/-- What every step of a loop does not change, the loop does not change. -/
lemma foldlM_rel {f : σ → ι → Except ε σ} {R : σ → σ → Prop} (hrefl : ∀ s, R s s)
    (htrans : ∀ s t u, R s t → R t u → R s u) {xs : List ι}
    (hstep : ∀ s x t, x ∈ xs → f s x = .ok t → R s t) {s t : σ} (h : xs.foldlM f s = .ok t) :
    R s t := by
  induction xs generalizing s with
  | nil =>
    cases h
    exact hrefl _
  | cons x xs ih =>
    rw [List.foldlM_cons] at h
    obtain ⟨u,hu,h⟩ := bind_eq_ok.mp h
    refine htrans s u t (hstep s x u (by simp) hu) (ih ?_ h)
    intro s x t hx
    exact hstep s x t (List.mem_cons_of_mem _ hx)

/-- A loop around the step of one element, when no step of another changes what `R` keeps. -/
lemma foldlM_around {f : σ → ι → Except ε σ} {R : σ → σ → Prop} (hrefl : ∀ s, R s s)
    (htrans : ∀ s t u, R s t → R t u → R s u) {xs : List ι} (hnodup : xs.Nodup) {x : ι}
    (hx : x ∈ xs) (hother : ∀ s y t, y ≠ x → f s y = .ok t → R s t) {s v : σ}
    (h : xs.foldlM f s = .ok v) : ∃ t u, R s t ∧ f t x = .ok u ∧ R u v := by
  obtain ⟨pre,post,rfl⟩ := List.append_of_mem hx
  have hne : ∀ y ∈ pre ++ post, y ≠ x := fun y hy heq =>
    (List.nodup_cons.mp (List.nodup_middle.mp hnodup)).1 (heq ▸ hy)
  rw [List.foldlM_append] at h
  obtain ⟨t,hpre,h⟩ := bind_eq_ok.mp h
  rw [List.foldlM_cons] at h
  obtain ⟨u,hstep,hpost⟩ := bind_eq_ok.mp h
  refine ⟨t,u,?_,hstep,?_⟩
  · apply foldlM_rel hrefl htrans ?_ hpre
    exact fun s y t hy => hother s y t (hne y (List.mem_append_left _ hy))
  · apply foldlM_rel hrefl htrans ?_ hpost
    exact fun s y t hy => hother s y t (hne y (List.mem_append_right _ hy))

end Loop

section Related

variable {α α' β β' : Type*} {r : α → α' → Prop} {s : β → β' → Prop}

lemma rel_bind {x : Option α} {y : Option α'} {f : α → Option β} {g : α' → Option β'}
    (hxy : Option.Rel r x y) (hfg : ∀ a b, r a b → Option.Rel s (f a) (g b)) :
    Option.Rel s (x.bind f) (y.bind g) := by
  cases hxy with
  | some h => exact hfg _ _ h
  | none => exact .none

/-- As `rel_bind`, with what the first computation gave at hand. -/
lemma rel_bind_mem {x : Option α} {y : Option α'} {f : α → Option β} {g : α' → Option β'}
    (hxy : Option.Rel r x y) (hfg : ∀ a b, x = some a → r a b → Option.Rel s (f a) (g b)) :
    Option.Rel s (x.bind f) (y.bind g) := by
  cases hxy with
  | some h => exact hfg _ _ rfl h
  | none => exact .none

lemma rel_map {x : Option α} {y : Option α'} {f : α → β} {g : α' → β'} (hxy : Option.Rel r x y)
    (hfg : ∀ a b, r a b → s (f a) (g b)) : Option.Rel s (x.map f) (y.map g) := by
  cases hxy with
  | some h => exact .some (hfg _ _ h)
  | none => exact .none

lemma rel_of_eq {x y : Option α} {r : α → α → Prop} (hxy : x = y) (hr : ∀ a, r a a) :
    Option.Rel r x y := by
  subst hxy
  cases x with
  | none => exact .none
  | some a => exact .some (hr a)

end Related

end Unemups4.Fallible

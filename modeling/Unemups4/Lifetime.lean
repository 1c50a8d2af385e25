import Mathlib

/-! Lifetimes of numbered objects: a stream of creations, uses and frees is followed
by a ledger of the ids handed out and still live. -/
namespace Unemups4.Lifetime

inductive Event where
  | create (id : ℕ)
  | use (id : ℕ)
  | free (id : ℕ)
  deriving DecidableEq, Repr

def Event.id : Event → ℕ
  | create id | use id | free id => id

/-- Ids below `next` were handed out; `live` are those not freed. -/
structure Ledger where
  next : ℕ
  live : Finset ℕ
  bound : ∀ id ∈ live, id < next

namespace Ledger

def create (l : Ledger) (id : ℕ) (h : l.next ≤ id) : Ledger where
  next := id+1
  live := insert id l.live
  bound := by
    intro x hx
    rcases Finset.mem_insert.mp hx with rfl | hx
    · omega
    · have := l.bound x hx
      omega

def free (l : Ledger) (id : ℕ) : Ledger where
  next := l.next
  live := l.live.erase id
  bound := fun x hx => l.bound x (Finset.mem_of_mem_erase hx)

@[ext] lemma ext {l m : Ledger} (hnext : l.next = m.next) (hlive : l.live = m.live) : l = m := by
  cases l
  cases m
  simp_all

end Ledger

/-- The ledger follows the events: ids are created in increasing order, and only live
ids are used or freed. -/
inductive Follows : Ledger → List Event → Ledger → Prop
  | nil (l : Ledger) : Follows l [] l
  | create {l m : Ledger} {id : ℕ} {es : List Event} (h : l.next ≤ id) :
      Follows (l.create id h) es m → Follows l (.create id :: es) m
  | use {l m : Ledger} {id : ℕ} {es : List Event} :
      id ∈ l.live → Follows l es m → Follows l (.use id :: es) m
  | free {l m : Ledger} {id : ℕ} {es : List Event} :
      id ∈ l.live → Follows (l.free id) es m → Follows l (.free id :: es) m

def created : List Event → List ℕ :=
  List.filterMap fun e => match e with
    | .create id => some id
    | _ => none

def freed : List Event → List ℕ :=
  List.filterMap fun e => match e with
    | .free id => some id
    | _ => none

@[simp] lemma created_create (id : ℕ) (es : List Event) :
    created (.create id :: es) = id :: created es := rfl

@[simp] lemma created_use (id : ℕ) (es : List Event) :
    created (.use id :: es) = created es := rfl

@[simp] lemma created_free (id : ℕ) (es : List Event) :
    created (.free id :: es) = created es := rfl

@[simp] lemma freed_create (id : ℕ) (es : List Event) :
    freed (.create id :: es) = freed es := rfl

@[simp] lemma freed_use (id : ℕ) (es : List Event) : freed (.use id :: es) = freed es := rfl

@[simp] lemma freed_free (id : ℕ) (es : List Event) :
    freed (.free id :: es) = id :: freed es := rfl

namespace Follows

variable {l m n : Ledger} {es fs : List Event}

lemma append (h : Follows l es m) (h' : Follows m fs n) : Follows l (es ++ fs) n := by
  induction h with
  | nil l => exact h'
  | create hid _ ih => exact .create hid (ih h')
  | use hid _ ih => exact .use hid (ih h')
  | free hid _ ih => exact .free hid (ih h')

/-- The first of a lawful stream of events, with the ledger it leads to. -/
lemma uncons {e : Event} (h : Follows l (e :: es) m) :
    ∃ l₁, Follows l₁ es m ∧
      (∀ id, (e = .create id → l.next ≤ id) ∧ (e = .create id → id < l₁.next) ∧
        (e = .free id → id < l₁.next)) ∧ l.next ≤ l₁.next := by
  cases h with
  | @create _ _ id _ hid hrest =>
    refine ⟨_,hrest,fun x => ⟨?_,?_,nofun⟩,?_⟩
    · rintro ⟨⟩
      exact hid
    · rintro ⟨⟩
      exact Nat.lt_succ_self _
    · exact hid.trans (Nat.le_succ id)
  | use hid hrest => exact ⟨_,hrest,fun x => ⟨nofun,nofun,nofun⟩,le_rfl⟩
  | @free _ _ id _ hid hrest =>
    refine ⟨_,hrest,fun x => ⟨nofun,nofun,?_⟩,le_rfl⟩
    rintro ⟨⟩
    exact l.bound id hid

lemma created_ge (h : Follows l es m) : ∀ id ∈ created es, l.next ≤ id := by
  induction h with
  | nil l => simp [created]
  | @create l m id es hid _ ih =>
    intro x hx
    rcases List.mem_cons.mp hx with rfl | hx
    · exact hid
    · have := ih x hx
      simp only [Ledger.create] at this
      omega
  | use _ _ ih => exact ih
  | free _ _ ih => exact ih

/-- Ids are created in strictly increasing order, so each at most once. -/
theorem created_pairwise (h : Follows l es m) : (created es).Pairwise (· < ·) := by
  induction h with
  | nil l => exact List.Pairwise.nil
  | @create l m id es hid h ih =>
    refine List.Pairwise.cons (fun x hx => ?_) ih
    have := h.created_ge x hx
    simp only [Ledger.create] at this
    omega
  | use _ _ ih => exact ih
  | free _ _ ih => exact ih

/-- Once an id below the bound is not live, no event names it again. -/
lemma ne_of_dead (h : Follows l es m) {id : ℕ} (hid : id < l.next) (hdead : id ∉ l.live) :
    ∀ e ∈ es, e.id ≠ id := by
  induction h with
  | nil l => simp
  | @create l m x es hx _ ih =>
    have hne : x ≠ id := by omega
    have := ih (by simp only [Ledger.create]; omega) (by simp [Ledger.create, hne.symm, hdead])
    simpa [Event.id, hne] using this
  | @use l m x es hx _ ih =>
    have hne : x ≠ id := fun heq => hdead (heq ▸ hx)
    simpa [Event.id, hne] using ih hid hdead
  | @free l m x es hx _ ih =>
    have hne : x ≠ id := fun heq => hdead (heq ▸ hx)
    simpa [Event.id, hne] using ih hid (by simp [Ledger.free, hdead])

/-- Every id named was created on the way, if it was not live before. -/
lemma mem_created (h : Follows l es m) : ∀ e ∈ es, e.id ∈ l.live ∨ e.id ∈ created es := by
  induction h with
  | nil l => simp
  | @create l m x es hx _ ih =>
    intro e he
    rcases List.mem_cons.mp he with rfl | he
    · exact .inr (by simp [Event.id])
    · have := ih e he
      simp only [Ledger.create, Finset.mem_insert] at this
      rw [created_create, List.mem_cons]
      tauto
  | @use l m x es hx _ ih =>
    intro e he
    rcases List.mem_cons.mp he with rfl | he
    · exact .inl hx
    · exact ih e he
  | @free l m x es hx _ ih =>
    intro e he
    rcases List.mem_cons.mp he with rfl | he
    · exact .inl hx
    · exact (ih e he).imp_left Finset.mem_of_mem_erase

theorem freed_nodup (h : Follows l es m) : (freed es).Nodup := by
  induction h with
  | nil l => exact List.nodup_nil
  | create _ _ ih => exact ih
  | use _ _ ih => exact ih
  | @free l m id es hid h ih =>
    refine List.nodup_cons.mpr ⟨fun hmem => ?_,ih⟩
    obtain ⟨e,he,heq⟩ := List.mem_filterMap.mp hmem
    have hdead := h.ne_of_dead (l.bound id hid) (by simp [Ledger.free]) e he
    cases e with
    | create x => simp at heq
    | use x => simp at heq
    | free x => exact hdead (by simpa [Event.id] using heq)

/-- The live ids are those created and not freed. -/
theorem live_eq (h : Follows l es m) :
    m.live = (l.live ∪ (created es).toFinset) \ (freed es).toFinset := by
  induction h with
  | nil l => simp [created, freed]
  | @create l m id es hid h ih =>
    rw [ih]
    simp only [Ledger.create, created_create, freed_create, List.toFinset_cons]
    rw [Finset.insert_union, Finset.union_insert]
  | use _ _ ih => simpa using ih
  | @free l m id es hid h ih =>
    rw [ih]
    have hnew : id ∉ created es := fun hmem => by
      have hge := h.created_ge id hmem
      have := l.bound id hid
      simp only [Ledger.free] at hge
      omega
    ext x
    simp only [Ledger.free, created_free, freed_free, List.toFinset_cons, Finset.mem_sdiff,
      Finset.mem_union, Finset.mem_erase, Finset.mem_insert, List.mem_toFinset]
    by_cases hx : x = id
    · subst hx
      simp [hnew]
    · simp [hx]

lemma next_le (h : Follows l es m) : l.next ≤ m.next := by
  induction h with
  | nil l => exact le_rfl
  | create hid _ ih =>
    simp only [Ledger.create] at ih
    omega
  | use _ _ ih => exact ih
  | free _ _ ih => exact ih

/-- Every id named was handed out by the end. -/
lemma id_lt (h : Follows l es m) : ∀ e ∈ es, e.id < m.next := by
  induction h with
  | nil l => simp
  | @create l m id es hid h ih =>
    intro e he
    rcases List.mem_cons.mp he with rfl | he
    · have := h.next_le
      simp only [Ledger.create, Event.id] at this ⊢
      omega
    · exact ih e he
  | @use l m id es hid h ih =>
    intro e he
    rcases List.mem_cons.mp he with rfl | he
    · exact (l.bound _ hid).trans_le h.next_le
    · exact ih e he
  | @free l m id es hid h ih =>
    intro e he
    rcases List.mem_cons.mp he with rfl | he
    · exact (l.bound _ hid).trans_le h.next_le
    · exact ih e he

/-- An id live at both ends is only used in between. -/
lemma eq_use_of_live (h : Follows l es m) {id : ℕ} (hl : id ∈ l.live) (hm : id ∈ m.live) :
    ∀ e ∈ es, e.id = id → e = .use id := by
  intro e he heq
  rw [h.live_eq] at hm
  have hfreed : id ∉ freed es := fun hmem =>
    (Finset.mem_sdiff.mp hm).2 (List.mem_toFinset.mpr hmem)
  cases e with
  | create x =>
    have hmem : x ∈ created es := List.mem_filterMap.mpr ⟨_,he,rfl⟩
    have hge := h.created_ge x hmem
    have := l.bound id hl
    simp only [Event.id] at heq
    omega
  | use x => rw [← heq]; rfl
  | free x =>
    simp only [Event.id] at heq
    exact absurd (List.mem_filterMap.mpr ⟨_,he,by simp [heq]⟩) hfreed

/-- A use comes after the creation of the id, if it was not live before. -/
theorem created_before_use (h : Follows l es m) {i id : ℕ} (hi : es[i]? = some (.use id)) :
    id ∈ l.live ∨ ∃ j < i, es[j]? = some (.create id) := by
  induction h generalizing i with
  | nil l => simp at hi
  | @create l m x es hx _ ih =>
    cases i with
    | zero => simp at hi
    | succ i =>
      rcases ih (by simpa using hi) with hlive | ⟨j,hj,hcreate⟩
      · rcases Finset.mem_insert.mp hlive with rfl | hlive
        · exact .inr ⟨0,by omega,rfl⟩
        · exact .inl hlive
      · exact .inr ⟨j+1,by omega,by simpa using hcreate⟩
  | @use l m x es hx _ ih =>
    cases i with
    | zero =>
      simp only [List.getElem?_cons_zero, Option.some.injEq, Event.use.injEq] at hi
      exact .inl (hi ▸ hx)
    | succ i =>
      refine (ih (by simpa using hi)).imp_right ?_
      rintro ⟨j,hj,hcreate⟩
      exact ⟨j+1,by omega,by simpa using hcreate⟩
  | @free l m x es hx _ ih =>
    cases i with
    | zero => simp at hi
    | succ i =>
      rcases ih (by simpa using hi) with hlive | ⟨j,hj,hcreate⟩
      · exact .inl (Finset.mem_of_mem_erase hlive)
      · exact .inr ⟨j+1,by omega,by simpa using hcreate⟩

/-- Nothing names an id after its free. -/
theorem dead_after_free (h : Follows l es m) {i j id : ℕ} (hi : es[i]? = some (.free id))
    (hij : i < j) {e : Event} (hj : es[j]? = some e) : e.id ≠ id := by
  induction h generalizing i j with
  | nil l => simp at hi
  | create _ _ ih | use _ _ ih =>
    cases i with
    | zero => simp at hi
    | succ i =>
      cases j with
      | zero => omega
      | succ j => exact ih (by simpa using hi) (Nat.lt_of_succ_lt_succ hij) (by simpa using hj)
  | @free l m x es hx h ih =>
    cases j with
    | zero => omega
    | succ j =>
      cases i with
      | zero =>
        simp only [List.getElem?_cons_zero, Option.some.injEq, Event.free.injEq] at hi
        subst hi
        have hmem := List.mem_of_getElem? (by simpa using hj : es[j]? = some e)
        exact h.ne_of_dead (l.bound x hx) (by simp [Ledger.free]) e hmem
      | succ i => exact ih (by simpa using hi) (Nat.lt_of_succ_lt_succ hij) (by simpa using hj)

end Follows

end Unemups4.Lifetime

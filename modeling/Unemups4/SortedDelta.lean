import Mathlib

/-! Sparse files, listed under keys that increase, and what changes between two of them: the changes
are found by one merge, each says what it replaces, and made in order they turn the one file into the
other. -/
namespace Unemups4.Deltas

variable {K V : Type*} [LinearOrder K]

/-- A file with one value for each key that it holds. -/
structure Sparse (K V : Type*) [LinearOrder K] where
  entries : List (K × V)
  sorted : entries.Pairwise fun a b => a.1 < b.1

namespace Sparse

def empty : Sparse K V := ⟨[],.nil⟩

def value (file : Sparse K V) (k : K) : Option V := file.entries.lookup k

@[simp] lemma value_empty (k : K) : (empty : Sparse K V).value k = none := rfl

end Sparse

/-- A key whose value differs: what it held, and what it holds. -/
structure Change (K V : Type*) where
  key : K
  before : Option V
  after : Option V
  deriving DecidableEq, Repr

/-- The changes are made in order. -/
def apply (f : K → Option V) (changes : List (Change K V)) : K → Option V :=
  changes.foldl (fun f c => Function.update f c.key c.after) f

@[simp] lemma apply_nil (f : K → Option V) : apply f [] = f := rfl

@[simp] lemma apply_cons (f : K → Option V) (c : Change K V) (cs : List (Change K V)) :
    apply f (c :: cs) = apply (Function.update f c.key c.after) cs := rfl

lemma apply_append (f : K → Option V) (cs ds : List (Change K V)) :
    apply f (cs ++ ds) = apply (apply f cs) ds := List.foldl_append

section Lookup

variable {entries : List (K × V)} {k : K} {v : V}

lemma lookup_eq_none (h : ∀ e ∈ entries, k ≠ e.1) : entries.lookup k = none := by
  induction entries with
  | nil => rfl
  | cons e es ih =>
    rw [List.lookup_cons,beq_false_of_ne (h e (by simp))]
    exact ih fun e he => h e (by simp [he])

/-- With one entry for each key, a key holds what is listed. -/
lemma lookup_eq_some_iff (h : entries.Pairwise fun a b => a.1 < b.1) :
    entries.lookup k = some v ↔ (k,v) ∈ entries := by
  induction entries with
  | nil => simp
  | cons e es ih =>
    obtain ⟨hlt,hes⟩ := List.pairwise_cons.mp h
    rw [List.lookup_cons]
    by_cases hk : k = e.1
    · rw [hk]
      have hnot : (e.1,v) ∉ es := fun hmem => lt_irrefl _ (hlt (e.1,v) hmem)
      simp [hnot,Prod.ext_iff,eq_comm]
    · simp [beq_false_of_ne hk,ih hes,Prod.ext_iff,hk]

lemma lookup_cons_self (k : K) (v : V) (es : List (K × V)) : ((k,v) :: es).lookup k = some v := by
  simp

lemma lookup_cons_ne {e : K × V} (h : e.1 ≠ k) (es : List (K × V)) :
    (e :: es).lookup k = es.lookup k := by
  rw [List.lookup_cons,beq_false_of_ne h.symm]

end Lookup

/-- The changes from one list of entries to another, in the order of the keys. -/
def merge [DecidableEq V] : (current previous : List (K × V)) → List (Change K V)
  | [],[] => []
  | (k,v) :: current,[] => ⟨k,none,some v⟩ :: merge current []
  | [],(k',v') :: previous => ⟨k',some v',none⟩ :: merge [] previous
  | (k,v) :: current,(k',v') :: previous =>
      if k < k' then ⟨k,none,some v⟩ :: merge current ((k',v') :: previous)
      else if k' < k then ⟨k',some v',none⟩ :: merge ((k,v) :: current) previous
      else if v ≠ v' then ⟨k,some v',some v⟩ :: merge current previous
      else merge current previous
  termination_by current previous => current.length+previous.length

/-- The entries of a list lie above a key. -/
def Above (k : K) (entries : List (K × V)) : Prop := ∀ e ∈ entries, k < e.1

lemma Above.lookup {k : K} {entries : List (K × V)} (h : Above k entries) : entries.lookup k = none :=
  lookup_eq_none fun e he => (h e he).ne

lemma above_of_sorted {k : K} {v : V} {es : List (K × V)}
    (h : ((k,v) :: es).Pairwise fun a b => a.1 < b.1) : Above k es := (List.pairwise_cons.mp h).1

section Merge

variable [DecidableEq V] {current previous : List (K × V)}

/-- A change is of a key that one of the files holds. -/
lemma lt_of_mem_merge {k : K} (hc : Above k current) (hp : Above k previous) :
    ∀ c ∈ merge current previous, k < c.key := by
  fun_induction merge current previous with
  | case1 => simp
  | case2 k' v current ih =>
    have hhead : k < k' := hc _ (List.mem_cons_self ..)
    simpa [hhead] using ih (fun e he => hc e (by simp [he])) hp
  | case3 k' v' previous ih =>
    have hhead : k < k' := hp _ (List.mem_cons_self ..)
    simpa [hhead] using ih hc fun e he => hp e (by simp [he])
  | case4 a v current b v' previous hlt ih =>
    have hhead : k < a := hc _ (List.mem_cons_self ..)
    simpa [hhead] using ih (fun e he => hc e (by simp [he])) hp
  | case5 a v current b v' previous hlt hgt ih =>
    have hhead : k < b := hp _ (List.mem_cons_self ..)
    simpa [hhead] using ih hc fun e he => hp e (by simp [he])
  | case6 a v current b v' previous hlt hgt hne ih =>
    have hhead : k < a := hc _ (List.mem_cons_self ..)
    simpa [hhead] using ih (fun e he => hc e (by simp [he])) fun e he => hp e (by simp [he])
  | case7 a v current b v' previous hlt hgt hne ih =>
    exact ih (fun e he => hc e (by simp [he])) fun e he => hp e (by simp [he])

end Merge

/-- What the changes between two files are. -/
structure Delta (changes : List (Change K V)) (current previous : List (K × V)) : Prop where
  increasing : changes.Pairwise fun c d => c.key < d.key
  values : ∀ c ∈ changes, c.before = previous.lookup c.key ∧ c.after = current.lookup c.key
  complete : ∀ k, (∀ c ∈ changes, c.key ≠ k) → current.lookup k = previous.lookup k

namespace Delta

variable {changes : List (Change K V)} {current current' previous previous' : List (K × V)} {k : K}
  {before after : Option V}

/-- The changes of what is left of the files, with one of a key below. -/
lemma extend (h : Delta changes current previous) (hkeys : ∀ c ∈ changes, k < c.key)
    (hc : ∀ j ≠ k, current'.lookup j = current.lookup j)
    (hp : ∀ j ≠ k, previous'.lookup j = previous.lookup j)
    (hbefore : previous'.lookup k = before) (hafter : current'.lookup k = after) :
    Delta (⟨k,before,after⟩ :: changes) current' previous' where
  increasing := List.pairwise_cons.mpr ⟨hkeys,h.increasing⟩
  values := by
    intro c hmem
    obtain rfl | hmem := List.mem_cons.mp hmem
    · exact ⟨hbefore.symm,hafter.symm⟩
    · have hne := (hkeys c hmem).ne'
      rw [hc _ hne,hp _ hne]
      exact h.values c hmem
  complete := by
    intro j hj
    have hne : j ≠ k := fun heq => hj ⟨k,before,after⟩ (by simp) heq.symm
    rw [hc j hne,hp j hne]
    exact h.complete j fun c hmem => hj c (by simp [hmem])

/-- The same with a key below that did not change. -/
lemma skip (h : Delta changes current previous) (hkeys : ∀ c ∈ changes, k < c.key)
    (hc : ∀ j ≠ k, current'.lookup j = current.lookup j)
    (hp : ∀ j ≠ k, previous'.lookup j = previous.lookup j)
    (hsame : current'.lookup k = previous'.lookup k) : Delta changes current' previous' where
  increasing := h.increasing
  values := by
    intro c hmem
    have hne := (hkeys c hmem).ne'
    rw [hc _ hne,hp _ hne]
    exact h.values c hmem
  complete := by
    intro j hj
    by_cases hne : j = k
    · rw [hne,hsame]
    · rw [hc j hne,hp j hne]
      exact h.complete j hj

end Delta

section Spec

variable [DecidableEq V] {current previous : List (K × V)}

theorem merge_delta (hc : current.Pairwise fun a b => a.1 < b.1)
    (hp : previous.Pairwise fun a b => a.1 < b.1) :
    Delta (merge current previous) current previous := by
  fun_induction merge current previous with
  | case1 => exact ⟨.nil,by simp,by simp⟩
  | case2 k v current ih =>
    have habove := above_of_sorted hc
    have hkeys : ∀ c ∈ merge current [], k < c.key := lt_of_mem_merge habove (by simp [Above])
    exact (ih (List.pairwise_cons.mp hc).2 hp).extend hkeys (fun j hj => lookup_cons_ne hj.symm _)
      (fun _ _ => rfl) rfl (lookup_cons_self k v _)
  | case3 k' v' previous ih =>
    have habove := above_of_sorted hp
    have hkeys : ∀ c ∈ merge [] previous, k' < c.key := lt_of_mem_merge (by simp [Above]) habove
    exact (ih hc (List.pairwise_cons.mp hp).2).extend hkeys (fun _ _ => rfl)
      (fun j hj => lookup_cons_ne hj.symm _) (lookup_cons_self k' v' _) rfl
  | case4 k v current k' v' previous hlt ih =>
    have habove : Above k ((k',v') :: previous) := by
      intro e he
      obtain rfl | he := List.mem_cons.mp he
      · exact hlt
      · exact hlt.trans (above_of_sorted hp e he)
    have hkeys := lt_of_mem_merge (above_of_sorted hc) habove
    exact (ih (List.pairwise_cons.mp hc).2 hp).extend hkeys (fun j hj => lookup_cons_ne hj.symm _)
      (fun _ _ => rfl) habove.lookup (lookup_cons_self k v _)
  | case5 k v current k' v' previous hlt hgt ih =>
    have habove : Above k' ((k,v) :: current) := by
      intro e he
      obtain rfl | he := List.mem_cons.mp he
      · exact hgt
      · exact hgt.trans (above_of_sorted hc e he)
    have hkeys := lt_of_mem_merge habove (above_of_sorted hp)
    exact (ih hc (List.pairwise_cons.mp hp).2).extend hkeys (fun _ _ => rfl)
      (fun j hj => lookup_cons_ne hj.symm _) (lookup_cons_self k' v' _) habove.lookup
  | case6 k v current k' v' previous hlt hgt hne ih =>
    obtain rfl : k = k' := le_antisymm (not_lt.mp hgt) (not_lt.mp hlt)
    have hkeys := lt_of_mem_merge (above_of_sorted hc) (above_of_sorted hp)
    exact (ih (List.pairwise_cons.mp hc).2 (List.pairwise_cons.mp hp).2).extend hkeys
      (fun j hj => lookup_cons_ne hj.symm _) (fun j hj => lookup_cons_ne hj.symm _)
      (lookup_cons_self k v' _) (lookup_cons_self k v _)
  | case7 k v current k' v' previous hlt hgt hne ih =>
    obtain rfl : k = k' := le_antisymm (not_lt.mp hgt) (not_lt.mp hlt)
    have hkeys := lt_of_mem_merge (above_of_sorted hc) (above_of_sorted hp)
    refine (ih (List.pairwise_cons.mp hc).2 (List.pairwise_cons.mp hp).2).skip hkeys
      (fun j hj => lookup_cons_ne hj.symm _) (fun j hj => lookup_cons_ne hj.symm _) ?_
    rw [lookup_cons_self,lookup_cons_self,not_not.mp hne]

end Spec

section Apply

variable {changes : List (Change K V)} {current previous : List (K × V)} {f : K → Option V} {k : K}

lemma apply_of_forall_ne (h : ∀ c ∈ changes, c.key ≠ k) : apply f changes k = f k := by
  induction changes generalizing f with
  | nil => rfl
  | cons c cs ih =>
    rw [apply_cons,ih fun d hd => h d (by simp [hd])]
    exact Function.update_of_ne (h c (by simp)).symm _ _

lemma apply_of_mem (h : changes.Pairwise fun c d => c.key < d.key) {c : Change K V}
    (hc : c ∈ changes) : apply f changes c.key = c.after := by
  induction changes generalizing f with
  | nil => simp at hc
  | cons d ds ih =>
    obtain ⟨hlt,hds⟩ := List.pairwise_cons.mp h
    rw [apply_cons]
    obtain rfl | hc := List.mem_cons.mp hc
    · rw [apply_of_forall_ne fun e he => (hlt e he).ne']
      exact Function.update_self ..
    · exact ih hds hc

/-- Made in order, the changes turn the one file into the other. -/
theorem Delta.apply_eq (h : Delta changes current previous) :
    apply (fun k => previous.lookup k) changes = fun k => current.lookup k := by
  funext k
  by_cases hk : ∃ c ∈ changes, c.key = k
  · obtain ⟨c,hc,rfl⟩ := hk
    rw [apply_of_mem h.increasing hc]
    exact (h.values c hc).2
  · have hne : ∀ c ∈ changes, c.key ≠ k := fun c hc heq => hk ⟨c,hc,heq⟩
    rw [apply_of_forall_ne hne]
    exact (h.complete k hne).symm

end Apply

/-- Changes, and the contents they are to lead to. -/
structure Stage (K V : Type*) where
  changes : List (Change K V)
  contents : K → Option V

/-- The changes are of distinct keys, replace what was there and lead to the contents. -/
structure Stage.Follows (s : Stage K V) (f : K → Option V) : Prop where
  distinct : (s.changes.map Change.key).Nodup
  before : ∀ c ∈ s.changes, c.before = f c.key
  contents : apply f s.changes = s.contents

/-- From one file over stages to another. -/
def Chain : (K → Option V) → List (Stage K V) → (K → Option V) → Prop
  | f,[],g => f = g
  | f,s :: stages,g => s.Follows f ∧ Chain s.contents stages g

section Chain

variable {f g : K → Option V} {stages : List (Stage K V)} {s : Stage K V}

lemma Chain.snoc (h : Chain f stages g) (hs : s.Follows g) : Chain f (stages ++ [s]) s.contents := by
  induction stages generalizing f with
  | nil =>
    obtain rfl : f = g := h
    exact ⟨hs,rfl⟩
  | cons t stages ih => exact ⟨h.1,ih h.2⟩

/-- All the changes up to a stage, made in order, lead to its contents. -/
theorem Chain.apply_take (h : Chain f stages g) {i : ℕ} (hi : i < stages.length) :
    apply f ((stages.take (i+1)).flatMap Stage.changes) = stages[i].contents := by
  induction stages generalizing f i with
  | nil => simp at hi
  | cons s stages ih =>
    rw [List.take_succ_cons,List.flatMap_cons,apply_append,h.1.contents]
    cases i with
    | zero => simp
    | succ i => exact ih h.2 (by simpa using hi)

/-- What comes before a stage. -/
def contentsBefore (f : K → Option V) (stages : List (Stage K V)) : ℕ → K → Option V
  | 0 => f
  | i+1 => (stages[i]?.map Stage.contents).getD f

theorem Chain.follows (h : Chain f stages g) {i : ℕ} (hi : i < stages.length) :
    stages[i].Follows (contentsBefore f stages i) := by
  induction stages generalizing f i with
  | nil => simp at hi
  | cons s stages ih =>
    cases i with
    | zero => exact h.1
    | succ i =>
      have hrest := ih h.2 (i := i) (by simpa using hi)
      cases i with
      | zero => simpa [contentsBefore] using hrest
      | succ i =>
        have hi' : i < stages.length := by
          rw [List.length_cons] at hi
          omega
        simpa [contentsBefore,hi'] using hrest

end Chain

namespace Sparse

variable [DecidableEq V]

def delta (current previous : Sparse K V) : List (Change K V) := merge current.entries previous.entries

/-- A delta follows the file it is taken against. -/
theorem delta_follows (current previous : Sparse K V) :
    Stage.Follows ⟨current.delta previous,current.value⟩ previous.value := by
  have h := merge_delta current.sorted previous.sorted
  refine ⟨?_,fun c hc => (h.values c hc).1,h.apply_eq⟩
  exact List.pairwise_map.mpr (h.increasing.imp fun hlt => hlt.ne)

end Sparse

end Unemups4.Deltas

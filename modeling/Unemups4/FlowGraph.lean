import Mathlib

/-! Walks, dominance and post-dominance in a directed graph given by its edge relation. -/
namespace Unemups4.FlowGraph

variable {V : Type*}

/-- `Walk E a vs b`: the vertices `vs`, from `a` to `b`, follow edges of `E`. -/
inductive Walk (E : V → V → Prop) : V → List V → V → Prop
  | nil (a : V) : Walk E a [a] a
  | cons {a b c : V} {vs : List V} : E a b → Walk E b vs c → Walk E a (a :: vs) c

/-- Every walk from `e` to `b` visits `h`. -/
def Dominates (E : V → V → Prop) (e h b : V) : Prop :=
  ∀ vs, Walk E e vs b → h ∈ vs

lemma Walk.mem_of_entry {E : V → V → Prop} {S : Set V} {h a b : V} {vs : List V}
    (entry : ∀ i j, E i j → i ∉ S → j ∈ S → j = h) (w : Walk E a vs b) (ha : a ∉ S)
    (hb : b ∈ S) : h ∈ vs := by
  induction w with
  | nil a => exact absurd hb ha
  | @cons a c b vs hac w ih =>
    by_cases hc : c ∈ S
    · have hch := entry a c hac ha hc
      subst hch
      cases w <;> simp
    · exact List.mem_cons_of_mem _ (ih hc hb)

/-- A region whose only entry is `h` and which the root lies outside of is dominated
by `h`. -/
theorem dominates_of_entry {E : V → V → Prop} {S : Set V} {e h b : V}
    (entry : ∀ i j, E i j → i ∉ S → j ∈ S → j = h) (he : e ∉ S) (hb : b ∈ S) :
    Dominates E e h b :=
  fun _ w => w.mem_of_entry entry he hb

section PostDominance

variable {E : V → V → Prop} {T : V → Prop} {r : V → ℕ}

/-- Every walk from `a` to an end visits `m`. -/
def PostDominates (E : V → V → Prop) (T : V → Prop) (a m : V) : Prop :=
  ∀ vs e, Walk E a vs e → T e → m ∈ vs

/-- `m` comes behind `a`, and no other vertex that all walks from `a` visit comes before it. -/
structure ImmediatePostDominator (E : V → V → Prop) (T : V → Prop) (a m : V) : Prop where
  ne : m ≠ a
  passes : PostDominates E T a m
  first : ∀ x, x ≠ a → PostDominates E T a x →
    ∀ us ws e, Walk E a (us ++ m :: ws) e → T e → x ∉ us

lemma Walk.pairwise (hE : ∀ i j, E i j → r i < r j) {a e : V} {vs : List V} (w : Walk E a vs e) :
    vs.Pairwise (fun i j => r i < r j) ∧ ∀ x ∈ vs, r a ≤ r x := by
  induction w with
  | nil a => simp
  | @cons a b e vs hab w ih =>
    have hlt := hE a b hab
    refine ⟨List.pairwise_cons.mpr ⟨fun x hx => hlt.trans_le (ih.2 x hx),ih.1⟩,?_⟩
    simp only [List.forall_mem_cons,le_refl,true_and]
    exact fun x hx => hlt.le.trans (ih.2 x hx)

/-- Ranks that grow along the edges and stay bounded end every walk that can go on. -/
lemma exists_walk (hE : ∀ i j, E i j → r i < r j) {P : V → Prop} {n : ℕ} (hP : ∀ v, P v → r v < n)
    (hstep : ∀ v, P v → T v ∨ ∃ w, E v w ∧ P w) {a : V} (ha : P a) : ∃ vs e, Walk E a vs e ∧ T e := by
  induction hk : n-r a using Nat.strong_induction_on generalizing a with
  | _ k ih =>
    rcases hstep a ha with hend | ⟨b,hab,hb⟩
    · exact ⟨[a],a,.nil a,hend⟩
    · have hlt := hE a b hab
      have hn := hP b hb
      obtain ⟨vs,e,w,he⟩ := ih (n-r b) (by omega) hb rfl
      exact ⟨a :: vs,e,.cons hab w,he⟩

/-- A step that a walk cannot avoid. -/
def Forced (E : V → V → Prop) (T : V → Prop) (a b : V) : Prop := ¬T a ∧ ∀ c, E a c → c = b

lemma mem_of_forced {F : V → V → Prop} (hF : ∀ a b, F a b → Forced E T a b) {a m e : V} {vs : List V}
    (h : Relation.ReflTransGen F a m) (w : Walk E a vs e) (he : T e) : m ∈ vs := by
  induction h using Relation.ReflTransGen.head_induction_on generalizing vs with
  | refl => cases w <;> simp
  | head hab _ ih =>
    cases w with
    | nil => exact absurd he (hF _ _ hab).1
    | cons hac w =>
      obtain rfl := (hF _ _ hab).2 _ hac
      exact List.mem_cons_of_mem _ (ih w)

/-- What a walk visits before `m` lies on the forced steps to `m`. -/
lemma forced_of_lt {F : V → V → Prop} (hF : ∀ a b, F a b → Forced E T a b)
    (hE : ∀ i j, E i j → r i < r j) {a m x e : V} {vs : List V} (h : Relation.ReflTransGen F a m)
    (w : Walk E a vs e) (he : T e) (hx : x ∈ vs) (hlt : r x < r m) : Relation.ReflTransGen F a x := by
  induction h using Relation.ReflTransGen.head_induction_on generalizing vs with
  | refl =>
    have := (w.pairwise hE).2 x hx
    omega
  | head hab _ ih =>
    cases w with
    | nil => exact absurd he (hF _ _ hab).1
    | cons hac w =>
      obtain rfl := (hF _ _ hab).2 _ hac
      rcases List.mem_cons.mp hx with rfl | hx
      · exact .refl
      · exact .head hab (ih w hx)

/-- Where forced steps from all successors meet first is the immediate post-dominator. -/
theorem immediatePostDominator_of_forced {F : V → V → Prop} (hF : ∀ a b, F a b → Forced E T a b)
    (hE : ∀ i j, E i j → r i < r j) {a m : V} (ha : ¬T a)
    (harms : ∀ c, E a c → Relation.ReflTransGen F c m)
    (hmin : ∀ x, (∀ c, E a c → Relation.ReflTransGen F c x) → r m ≤ r x)
    (hwalk : ∀ c, E a c → ∃ vs e, Walk E c vs e ∧ T e) (hne : m ≠ a) :
    ImmediatePostDominator E T a m where
  ne := hne
  passes vs e w he := by
    cases w with
    | nil => exact absurd he ha
    | cons hac w => exact List.mem_cons_of_mem _ (mem_of_forced hF (harms _ hac) w he)
  first x hxa hx us ws e w he hxus := by
    have hlt : r x < r m := (List.pairwise_append.mp (w.pairwise hE).1).2.2 x hxus m (by simp)
    have := hmin x fun c hac => by
      obtain ⟨vs,f,w,hf⟩ := hwalk c hac
      have hmem := (List.mem_cons.mp (hx _ _ (.cons hac w) hf)).resolve_left hxa
      exact forced_of_lt hF hE (harms c hac) w hf hmem hlt
    omega

end PostDominance

end Unemups4.FlowGraph

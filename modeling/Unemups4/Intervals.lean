import Mathlib.Data.List.Pairwise
import Mathlib.Data.List.Sort
import Mathlib.Order.MinMax

/-! Sets of points kept as a list of entries, each of which holds the points from its start up to
its end: the entry that holds a point, the entries that meet a range, the union with a range, and the
walk from an entry to the next one where it ends. -/
namespace Unemups4.Intervals

section Entries

variable {E α : Type*} [LinearOrder α] {lo hi : E → α} {l l' : List E} {e e' : E} {x start stop : α}

def Covers (lo hi : E → α) (l : List E) (x : α) : Prop := ∃ e ∈ l, lo e ≤ x ∧ x < hi e

/-- No entry is empty, and each ends before the next one starts or right there. -/
structure Ordered (lo hi : E → α) (l : List E) : Prop where
  nonempty : ∀ e ∈ l, lo e < hi e
  apart : l.Pairwise fun a b => hi a ≤ lo b

/-- No entry is empty, and between two there is a gap. -/
structure Separated (lo hi : E → α) (l : List E) : Prop where
  nonempty : ∀ e ∈ l, lo e < hi e
  gap : l.Pairwise fun a b => hi a < lo b

lemma Separated.ordered (h : Separated lo hi l) : Ordered lo hi l :=
  ⟨h.nonempty,h.gap.imp le_of_lt⟩

lemma Separated.gap_of_ne (h : Separated lo hi l) (he : e ∈ l) (he' : e' ∈ l) (hne : e ≠ e') :
    hi e < lo e' ∨ hi e' < lo e := by
  have hsymm : Std.Symm fun a b => hi a < lo b ∨ hi b < lo a := ⟨fun _ _ => Or.symm⟩
  have hpair : l.Pairwise fun a b => hi a < lo b ∨ hi b < lo a := h.gap.imp Or.inl
  exact hpair.forall he he' hne

lemma covers_perm (h : l.Perm l') : Covers lo hi l x ↔ Covers lo hi l' x := by
  simp only [Covers, h.mem_iff]

lemma covers_cons : Covers lo hi (e :: l) x ↔ (lo e ≤ x ∧ x < hi e) ∨ Covers lo hi l x := by
  simp [Covers]

/-- Entries that lie apart, in the order of their starts. -/
lemma ordered_of_sorted (hne : ∀ e ∈ l, lo e < hi e) (hsorted : l.Pairwise fun a b => lo a ≤ lo b)
    (happ : l.Pairwise fun a b => hi a ≤ lo b ∨ hi b ≤ lo a) : Ordered lo hi l := by
  refine ⟨hne,(hsorted.and happ).imp_of_mem fun {a b} ha hb hab => ?_⟩
  obtain ⟨hle,h | h⟩ := hab
  · exact h
  · exact absurd ((hne b hb).trans_le (h.trans hle)) (lt_irrefl _)

lemma separated_of_sorted (hne : ∀ e ∈ l, lo e < hi e)
    (hsorted : l.Pairwise fun a b => lo a ≤ lo b)
    (happ : l.Pairwise fun a b => hi a < lo b ∨ hi b < lo a) : Separated lo hi l := by
  refine ⟨hne,(hsorted.and happ).imp_of_mem fun {a b} ha hb hab => ?_⟩
  obtain ⟨hle,h | h⟩ := hab
  · exact h
  · exact absurd ((hne b hb).trans (h.trans_le hle)) (lt_irrefl _)

lemma Ordered.lo_lt (h : Ordered lo hi l) : l.Pairwise fun a b => lo a < lo b :=
  h.apart.imp_of_mem fun ha _ hab => (h.nonempty _ ha).trans_le hab

/-- A point lies in one entry only. -/
lemma Ordered.eq_of_mem (h : Ordered lo hi l) (he : e ∈ l) {e' : E} (he' : e' ∈ l)
    (hin : lo e ≤ x ∧ x < hi e) (hin' : lo e' ≤ x ∧ x < hi e') : e = e' := by
  by_contra hne
  have hsymm : Std.Symm fun a b => hi a ≤ lo b ∨ hi b ≤ lo a := ⟨fun _ _ => Or.symm⟩
  have happ : l.Pairwise fun a b => hi a ≤ lo b ∨ hi b ≤ lo a := h.apart.imp Or.inl
  rcases happ.forall he he' hne with hle | hle
  · exact absurd hin'.1 (not_le.mpr (hin.2.trans_le hle))
  · exact absurd hin.1 (not_le.mpr (hin'.2.trans_le hle))

/-- The entry that holds a point is the last one that starts at it or below. -/
lemma Ordered.getLast?_filter (h : Ordered lo hi l) (he : e ∈ l) (hlo : lo e ≤ x) (hhi : x < hi e) :
    (l.filter fun e => lo e ≤ x).getLast? = some e := by
  obtain ⟨hne,happ⟩ := h
  induction l with
  | nil => cases he
  | cons a l ih =>
    obtain ⟨ha,hl⟩ := List.pairwise_cons.mp happ
    rcases List.mem_cons.mp he with rfl | he
    · have hnone : l.filter (fun e => lo e ≤ x) = [] := by
        refine List.filter_eq_nil_iff.mpr fun b hb => ?_
        simpa using hhi.trans_le (ha b hb)
      simp [hlo, hnone]
    · have hlast := ih he (fun b hb => hne b (List.mem_cons_of_mem _ hb)) hl
      rw [List.filter_cons]
      split_ifs
      · rw [List.getLast?_cons, hlast]
        rfl
      · exact hlast

/-- Where the look-up by start finds an entry, and what it finds. -/
lemma Ordered.lookup_iff (h : Ordered lo hi l) :
    ((l.filter fun e => lo e ≤ x).getLast?.filter fun e => x < hi e) = some e ↔
      e ∈ l ∧ lo e ≤ x ∧ x < hi e := by
  constructor
  · intro hlook
    obtain ⟨hlast,hhi⟩ := Option.filter_eq_some_iff.mp hlook
    obtain ⟨hmem,hlo⟩ := List.mem_filter.mp (List.mem_of_getLast? hlast)
    exact ⟨hmem,of_decide_eq_true hlo,of_decide_eq_true hhi⟩
  · rintro ⟨he,hlo,hhi⟩
    rw [h.getLast?_filter he hlo hhi]
    simp [hhi]

/-- The entries that meet a range: from the one that reaches into it, up to its end. -/
def reaching (lo hi : E → α) (l : List E) (start stop : α) : List E :=
  let first := (((l.filter fun e => lo e ≤ start).getLast?.filter
    fun e => start < hi e).map lo).getD start
  (l.filter fun e => first ≤ lo e).takeWhile fun e => lo e < stop

lemma mem_takeWhile (hlt : l.Pairwise fun a b => lo a < lo b) (he : e ∈ l) (hlo : lo e < stop) :
    e ∈ l.takeWhile fun e => lo e < stop := by
  induction l with
  | nil => cases he
  | cons a l ih =>
    obtain ⟨ha,hl⟩ := List.pairwise_cons.mp hlt
    rcases List.mem_cons.mp he with rfl | he
    · simp [hlo]
    · rw [List.takeWhile_cons_of_pos (by simpa using (ha e he).trans hlo)]
      exact List.mem_cons_of_mem _ (ih hl he)

lemma Ordered.mem_reaching (h : Ordered lo hi l) (he : e ∈ l) (hlo : lo e ≤ x) (hhi : x < hi e)
    (hstart : start ≤ x) (hstop : x < stop) : e ∈ reaching lo hi l start stop := by
  have hfirst : (((l.filter fun e => lo e ≤ start).getLast?.filter
      fun e => start < hi e).map lo).getD start ≤ lo e := by
    by_cases hle : lo e ≤ start
    · rw [h.lookup_iff.mpr ⟨he,hle,hstart.trans_lt hhi⟩]
      exact le_refl _
    · cases hlook : (l.filter fun e => lo e ≤ start).getLast?.filter fun e => start < hi e with
      | none => exact (not_le.mp hle).le
      | some e' => exact (h.lookup_iff.mp hlook).2.1.trans (not_le.mp hle).le
  exact mem_takeWhile (h.lo_lt.filter _) (List.mem_filter.mpr ⟨he,decide_eq_true hfirst⟩)
    (hlo.trans_lt hstop)

/-- The steps from an entry to where it ends, as long as that lies before a stop: whether they come
to the stop. `none` tells that they take more rounds than `fuel`. -/
def walk (hi : E → α) (holder : α → Option E) (stop : α) : (fuel : ℕ) → (x : α) → Option Bool
  | 0, _ => none
  | fuel+1, x =>
      if x < stop then
        match holder x with
        | none => some false
        | some e => walk hi holder stop fuel (hi e)
      else some true

/-- The end of an entry leaves fewer ends ahead. -/
lemma ahead_lt (he : e ∈ l) (hhi : x < hi e) :
    (l.filter fun e' => hi e < hi e').length < (l.filter fun e' => x < hi e').length := by
  have hsub : (l.filter fun e' => hi e < hi e') =
      (l.filter fun e' => x < hi e').filter fun e' => hi e < hi e' := by
    rw [List.filter_filter]
    refine List.filter_congr fun e' _ => ?_
    by_cases hlt : hi e < hi e'
    · simp [hlt, hhi.trans hlt]
    · simp [hlt]
  rw [hsub, List.length_filter_lt_length_iff_exists]
  exact ⟨e,List.mem_filter.mpr ⟨he,decide_eq_true hhi⟩,by simp⟩

/-- A walk passes an entry in each round, and comes to the stop when there is no gap before it. -/
theorem walk_iff {holder : α → Option E}
    (hholder : ∀ x e, holder x = some e ↔ e ∈ l ∧ lo e ≤ x ∧ x < hi e) {fuel : ℕ}
    (hfuel : (l.filter fun e => x < hi e).length < fuel) :
    ∃ b, walk hi holder stop fuel x = some b ∧
      (b = true ↔ ∀ y, x ≤ y → y < stop → Covers lo hi l y) := by
  induction fuel generalizing x with
  | zero => exact absurd hfuel (Nat.not_lt_zero _)
  | succ fuel ih =>
    rw [walk]
    by_cases hx : x < stop
    · rw [if_pos hx]
      cases hat : holder x with
      | none =>
        refine ⟨false,rfl,fun hcon => (Bool.false_ne_true hcon).elim,fun hall => ?_⟩
        obtain ⟨e,he,hin⟩ := hall x (le_refl x) hx
        rw [(hholder x e).mpr ⟨he,hin⟩] at hat
        cases hat
      | some e =>
        obtain ⟨he,hlo,hhi⟩ := (hholder x e).mp hat
        obtain ⟨b,hwalk,hiff⟩ := ih ((ahead_lt he hhi).trans_le (Nat.lt_succ_iff.mp hfuel))
        refine ⟨b,hwalk,hiff.trans ⟨fun hall y hxy hy => ?_,fun hall y hy => ?_⟩⟩
        · by_cases hey : hi e ≤ y
          · exact hall y hey hy
          · exact ⟨e,he,hlo.trans hxy,not_le.mp hey⟩
        · exact hall y (hhi.le.trans hy)
    · rw [if_neg hx]
      exact ⟨true,rfl,fun _ y hy hlt => absurd (hy.trans_lt hlt) hx,fun _ => rfl⟩

end Entries

section Union

variable {α : Type*} [LinearOrder α] {l l' : List (α × α)} {e : α × α} {x start stop : α}

/-- The entries that a range touches. -/
def touched (l : List (α × α)) (start stop : α) : List (α × α) :=
  l.filter fun e => e.1 ≤ stop ∧ start ≤ e.2

def untouched (l : List (α × α)) (start stop : α) : List (α × α) :=
  l.filter fun e => ¬(e.1 ≤ stop ∧ start ≤ e.2)

/-- A range together with the entries that it touches. -/
def merged (l : List (α × α)) (start stop : α) : α × α :=
  (((touched l start stop).map Prod.fst).foldl min start,
    ((touched l start stop).map Prod.snd).foldl max stop)

lemma mem_touched : e ∈ touched l start stop ↔ e ∈ l ∧ e.1 ≤ stop ∧ start ≤ e.2 := by
  simp [touched]

lemma mem_untouched : e ∈ untouched l start stop ↔ e ∈ l ∧ (e.2 < start ∨ stop < e.1) := by
  simp only [untouched, List.mem_filter, decide_eq_true_eq, not_and_or, not_le]
  rw [or_comm]

lemma foldl_min (bs : List α) (a : α) : (bs.foldl min a = a ∨ bs.foldl min a ∈ bs) ∧
    bs.foldl min a ≤ a ∧ ∀ b ∈ bs, bs.foldl min a ≤ b := by
  induction bs generalizing a with
  | nil => exact ⟨.inl rfl,le_refl a,by simp⟩
  | cons b bs ih =>
    obtain ⟨hmem,hle,hall⟩ := ih (min a b)
    rw [List.foldl_cons]
    refine ⟨?_,hle.trans (min_le_left a b),?_⟩
    · rcases hmem with hmem | hmem
      · rw [hmem]
        rcases min_choice a b with h | h
        · exact .inl h
        · exact .inr (h.symm ▸ List.mem_cons_self)
      · exact .inr (List.mem_cons_of_mem _ hmem)
    · intro c hc
      rcases List.mem_cons.mp hc with rfl | hc
      · exact hle.trans (min_le_right a c)
      · exact hall c hc

lemma foldl_max (bs : List α) (a : α) : (bs.foldl max a = a ∨ bs.foldl max a ∈ bs) ∧
    a ≤ bs.foldl max a ∧ ∀ b ∈ bs, b ≤ bs.foldl max a :=
  @foldl_min αᵒᵈ _ bs a

/-- What the range does not touch, it does not touch with its entries either. -/
lemma Separated.merged_apart (h : Separated Prod.fst Prod.snd l) (he : e ∈ untouched l start stop) :
    e.2 < (merged l start stop).1 ∨ (merged l start stop).2 < e.1 := by
  obtain ⟨hmem,hside⟩ := mem_untouched.mp he
  have hne := h.nonempty e hmem
  have hother : ∀ e' ∈ touched l start stop, e.2 < e'.1 ∨ e'.2 < e.1 := by
    intro e' he'
    obtain ⟨hmem',htouch⟩ := mem_touched.mp he'
    refine h.gap_of_ne hmem hmem' ?_
    rintro rfl
    rcases hside with hside | hside
    · exact absurd htouch.2 (not_le.mpr hside)
    · exact absurd htouch.1 (not_le.mpr hside)
  obtain ⟨hlow,-,-⟩ := foldl_min ((touched l start stop).map Prod.fst) start
  obtain ⟨hhigh,-,-⟩ := foldl_max ((touched l start stop).map Prod.snd) stop
  rcases hside with hside | hside
  · left
    rcases hlow with hlow | hlow
    · rwa [merged, hlow]
    · obtain ⟨e',he',heq⟩ := List.mem_map.mp hlow
      rw [merged, ← heq]
      rcases hother e' he' with hcase | hcase
      · exact hcase
      · exact absurd ((mem_touched.mp he').2.2.trans_lt (hcase.trans (hne.trans hside))) (lt_irrefl _)
  · right
    rcases hhigh with hhigh | hhigh
    · rwa [merged, hhigh]
    · obtain ⟨e',he',heq⟩ := List.mem_map.mp hhigh
      rw [merged, ← heq]
      rcases hother e' he' with hcase | hcase
      · exact absurd ((hside.trans hne).trans (hcase.trans_le (mem_touched.mp he').2.1)) (lt_irrefl _)
      · exact hcase

lemma merged_lt (hlt : start < stop) : (merged l start stop).1 < (merged l start stop).2 := by
  obtain ⟨-,hlow,-⟩ := foldl_min ((touched l start stop).map Prod.fst) start
  obtain ⟨-,hhigh,-⟩ := foldl_max ((touched l start stop).map Prod.snd) stop
  exact hlow.trans_lt (hlt.trans_le hhigh)

/-- The union with a range: it takes the place of the entries that it touches. -/
theorem Separated.union (h : Separated Prod.fst Prod.snd l) (hlt : start < stop)
    (hperm : l'.Perm (merged l start stop :: untouched l start stop))
    (hsorted : l'.Pairwise fun a b => a.1 ≤ b.1) : Separated Prod.fst Prod.snd l' ∧
      ∀ x, Covers Prod.fst Prod.snd l' x ↔ Covers Prod.fst Prod.snd l x ∨ (start ≤ x ∧ x < stop) := by
  obtain ⟨hlow,hlowle,hlowall⟩ := foldl_min ((touched l start stop).map Prod.fst) start
  obtain ⟨hhigh,hhighle,hhighall⟩ := foldl_max ((touched l start stop).map Prod.snd) stop
  constructor
  · apply separated_of_sorted _ hsorted
    · rw [hperm.pairwise_iff fun {_ _} => Or.symm]
      refine List.pairwise_cons.mpr ⟨fun e he => (h.merged_apart he).symm,?_⟩
      exact (h.gap.imp Or.inl).filter _
    · intro e he
      rcases List.mem_cons.mp (hperm.mem_iff.mp he) with rfl | he
      · exact merged_lt hlt
      · exact h.nonempty e (mem_untouched.mp he).1
  · intro x
    rw [covers_perm hperm, covers_cons]
    constructor
    · rintro (⟨hlo,hhi⟩ | ⟨e,he,hin⟩)
      · by_cases hstart : start ≤ x
        · by_cases hstop : x < stop
          · exact .inr ⟨hstart,hstop⟩
          · rcases hhigh with hhigh | hhigh
            · exact absurd (hhigh ▸ hhi) hstop
            · obtain ⟨e,he,heq⟩ := List.mem_map.mp hhigh
              obtain ⟨hmem,hle,-⟩ := mem_touched.mp he
              exact .inl ⟨e,hmem,hle.trans (not_lt.mp hstop),heq ▸ hhi⟩
        · rcases hlow with hlow | hlow
          · exact absurd (hlow ▸ hlo) hstart
          · obtain ⟨e,he,heq⟩ := List.mem_map.mp hlow
            obtain ⟨hmem,-,hge⟩ := mem_touched.mp he
            exact .inl ⟨e,hmem,heq ▸ hlo,(not_le.mp hstart).trans_le hge⟩
      · exact .inl ⟨e,(mem_untouched.mp he).1,hin⟩
    · rintro (⟨e,he,hin⟩ | hin)
      · by_cases htouch : e.1 ≤ stop ∧ start ≤ e.2
        · have hmem : e ∈ touched l start stop := mem_touched.mpr ⟨he,htouch⟩
          exact .inl ⟨(hlowall _ (List.mem_map_of_mem hmem)).trans hin.1,
            hin.2.trans_le (hhighall _ (List.mem_map_of_mem hmem))⟩
        · exact .inr ⟨e,List.mem_filter.mpr ⟨he,decide_eq_true htouch⟩,hin⟩
      · exact .inl ⟨hlowle.trans hin.1,hin.2.trans_le hhighle⟩

end Union

section Difference

variable {E α : Type*} [LinearOrder α] {lo hi : E → α} {mk : α → α → E} {l : List E} {e : E}
  {x start stop : α}

/-- What is left of an entry without the points of a range. -/
def cut (lo hi : E → α) (mk : α → α → E) (start stop : α) (e : E) : List E :=
  if lo e < stop ∧ start < hi e then
    (if lo e < start then [mk (lo e) start] else [])++if stop < hi e then [mk stop (hi e)] else []
  else [e]

/-- An entry is made from its ends. -/
structure Makes (lo hi : E → α) (mk : α → α → E) : Prop where
  lo_mk : ∀ {a b}, a < b → lo (mk a b) = a
  hi_mk : ∀ {a b}, a < b → hi (mk a b) = b

/-- The parts of an entry lie in it, in order. -/
lemma Makes.cut_within (h : Makes lo hi mk) (hne : lo e < hi e) (hlt : start < stop) :
    (∀ e' ∈ cut lo hi mk start stop e, lo e ≤ lo e' ∧ lo e' < hi e' ∧ hi e' ≤ hi e) ∧
      (cut lo hi mk start stop e).Pairwise fun a b => hi a ≤ lo b := by
  obtain ⟨hlo,hhi⟩ := h
  unfold cut
  split_ifs with hmeet hhead htail htail
  · simp [hlo hhead, hhi hhead, hlo htail, hhi htail, hhead, htail, hlt.le, hmeet.1.le, hmeet.2.le]
  · simp [hlo hhead, hhi hhead, hhead, hmeet.2.le]
  · simp [hlo htail, hhi htail, htail, hmeet.1.le]
  · simp
  · simp [hne]

/-- A piece starts where its entry does, or where the range stops. -/
lemma Makes.cut_start (h : Makes lo hi mk) {e' : E} (he : e' ∈ cut lo hi mk start stop e) :
    lo e' = lo e ∨ lo e' = stop := by
  obtain ⟨hlo,-⟩ := h
  unfold cut at he
  split_ifs at he with hmeet hhead htail htail
  · rcases List.mem_append.mp he with he | he
    · obtain rfl := List.mem_singleton.mp he
      exact .inl (hlo hhead)
    · obtain rfl := List.mem_singleton.mp he
      exact .inr (hlo htail)
  · obtain rfl := List.mem_singleton.mp (by simpa using he)
    exact .inl (hlo hhead)
  · obtain rfl := List.mem_singleton.mp (by simpa using he)
    exact .inr (hlo htail)
  · simp at he
  · obtain rfl := List.mem_singleton.mp he
    exact .inl rfl

/-- They hold its points outside the range. -/
lemma Makes.covers_cut (h : Makes lo hi mk) :
    Covers lo hi (cut lo hi mk start stop e) x ↔
      (lo e ≤ x ∧ x < hi e) ∧ ¬(start ≤ x ∧ x < stop) := by
  obtain ⟨hlo,hhi⟩ := h
  unfold cut Covers
  split_ifs with hmeet hhead htail htail
  · simp only [List.cons_append, List.nil_append, List.mem_cons, List.not_mem_nil, or_false,
      exists_eq_or_imp, exists_eq_left, hlo hhead, hhi hhead, hlo htail, hhi htail]
    grind
  · simp only [List.append_nil, List.mem_cons, List.not_mem_nil, or_false, exists_eq_left, hlo hhead,
      hhi hhead]
    grind
  · simp only [List.nil_append, List.mem_cons, List.not_mem_nil, or_false, exists_eq_left, hlo htail,
      hhi htail]
    grind
  · simp only [List.append_nil, List.not_mem_nil, false_and, exists_false, false_iff]
    grind
  · simp only [List.mem_cons, List.not_mem_nil, or_false, exists_eq_left]
    grind

lemma Makes.cut_flatMap_within (h : Makes lo hi mk) (hl : Ordered lo hi l) (hlt : start < stop)
    (he : e ∈ l.flatMap (cut lo hi mk start stop)) :
    ∃ e' ∈ l, lo e' ≤ lo e ∧ lo e < hi e ∧ hi e ≤ hi e' := by
  obtain ⟨e',he',hcut⟩ := List.mem_flatMap.mp he
  exact ⟨e',he',(h.cut_within (hl.nonempty e' he') hlt).1 e hcut⟩

/-- The difference with a range: every entry is cut. -/
theorem Ordered.difference (hl : Ordered lo hi l) (h : Makes lo hi mk) (hlt : start < stop) :
    Ordered lo hi (l.flatMap (cut lo hi mk start stop)) ∧
      ∀ x, Covers lo hi (l.flatMap (cut lo hi mk start stop)) x ↔
        Covers lo hi l x ∧ ¬(start ≤ x ∧ x < stop) := by
  refine ⟨⟨fun e he => ?_,List.pairwise_flatMap.mpr ⟨fun e he => ?_,?_⟩⟩,fun x => ?_⟩
  · obtain ⟨-,-,-,hne,-⟩ := h.cut_flatMap_within hl hlt he
    exact hne
  · exact (h.cut_within (hl.nonempty e he) hlt).2
  · refine hl.apart.imp_of_mem fun {a b} ha hb hab x hx y hy => ?_
    obtain ⟨-,-,hxa⟩ := (h.cut_within (hl.nonempty a ha) hlt).1 x hx
    obtain ⟨hby,-,-⟩ := (h.cut_within (hl.nonempty b hb) hlt).1 y hy
    exact hxa.trans (hab.trans hby)
  · constructor
    · rintro ⟨e,he,hin⟩
      obtain ⟨e',he',hcut⟩ := List.mem_flatMap.mp he
      obtain ⟨hin',hout⟩ := h.covers_cut.mp ⟨e,hcut,hin⟩
      exact ⟨⟨e',he',hin'⟩,hout⟩
    · rintro ⟨⟨e,he,hin⟩,hout⟩
      obtain ⟨e',hcut,hin'⟩ := h.covers_cut.mpr ⟨hin,hout⟩
      exact ⟨e',List.mem_flatMap.mpr ⟨e,he,hcut⟩,hin'⟩

end Difference

end Unemups4.Intervals

import Unemups4.JsonRoom

/-! Texts that are written of values: what is framed as the reader expects it is read as it was written,
and what is not leaves no room for it. -/
namespace Unemups4.Json.Parser
open Decimal

/-- A text leads back to the place it stands at and has room for so much, for less if it is not
tight. -/
def Keeps (p : Place) (t : List Char) (w : ℕ) (tight : Prop) : Prop := ∀ s n,
  room p (t ++ s) = some n → ∃ k, room p s = some k ∧ n ≤ w+k ∧ (¬tight → n < w+k)

namespace Keeps

variable {p : Place} {t t' : List Char} {w w' : ℕ} {a b : Prop}

lemma append (h : Keeps p t w a) (h' : Keeps p t' w' b) : Keeps p (t ++ t') (w+w') (a ∧ b) := by
  intro s n hn
  rw [List.append_assoc] at hn
  obtain ⟨k,hk,hle,hlt⟩ := h _ n hn
  obtain ⟨k',hk',hle',hlt'⟩ := h' s k hk
  refine ⟨k',hk',by omega,fun hab => ?_⟩
  rcases not_and_or.mp hab with ha | hb
  · have := hlt ha
    omega
  · have := hlt' hb
    omega

lemma iff (h : Keeps p t w a) (hab : a ↔ b) : Keeps p t w b := by
  rwa [← propext hab]

lemma marks (ht : ∀ c ∈ t, mark c ∧ c ≠ '"') : Keeps .outside t 0 True := by
  intro s n hn
  induction t generalizing n with
  | nil => exact ⟨n,hn,by omega,by simp⟩
  | cons c t ih =>
    have hc := ht c (by simp)
    rw [List.cons_append,room,if_neg hc.2,if_pos hc.1] at hn
    exact ih (fun d hd => ht d (by simp [hd])) n hn

lemma one {c : Char} (hc : mark c ∧ c ≠ '"') : Keeps .outside [c] 0 True :=
  .marks (by simpa using hc)

lemma plain (ht : t.all Spells.plain) : Keeps .inside t t.length True := by
  intro s n hn
  induction t generalizing n with
  | nil => exact ⟨n,hn,by simp,by simp⟩
  | cons c t ih =>
    simp only [List.all_cons,Spells.plain,Bool.and_eq_true,decide_eq_true_eq,ne_eq] at ht
    rw [List.cons_append,room,if_neg ht.1.1,if_neg ht.1.2] at hn
    obtain ⟨m,hm,rfl⟩ := Option.map_eq_some_iff.mp hn
    obtain ⟨k,hk,hle,-⟩ := ih ht.2 m hm
    exact ⟨k,hk,by rw [List.length_cons]; omega,by simp⟩

lemma string (h : Keeps .inside t w a) : Keeps .outside ('"' :: (t ++ ['"'])) w a := by
  intro s n hn
  rw [List.cons_append,List.append_assoc,room,if_pos rfl] at hn
  obtain ⟨k,hk,hlek⟩ := h _ n hn
  rw [List.singleton_append,room,if_pos rfl] at hk
  exact ⟨k,hk,hlek⟩

end Keeps

/-- What a string goes on with but no text outside of one and no escape. -/
structure Guard (q : List Char) : Prop where
  plain : q.all Spells.plain
  escaped : ∀ c ∈ q.head?, c ≠ 'u' ∧ c ∉ escapes ∧ hexish c = false
  outside : ∃ c ∈ q, mark c = false

namespace Guard

variable {q : List Char}

lemma room_outside (hplain : q.all Spells.plain) {d : Char} (hd : d ∈ q) (hmark : mark d = false)
    (s : List Char) : room .outside (q ++ s) = none := by
  induction q with
  | nil => simp at hd
  | cons c q ih =>
    simp only [List.all_cons,Spells.plain,Bool.and_eq_true,decide_eq_true_eq,ne_eq] at hplain
    rw [List.cons_append,room,if_neg hplain.1.1]
    split_ifs with hc
    · rcases List.mem_cons.mp hd with rfl | hd
      · simp [hc] at hmark
      · exact ih hplain.2 hd
    · rfl

/-- What stands in front of it ended in a string. -/
lemma place_inside (hq : Guard q) {p : Place} {s : List Char} {n : ℕ} (hn : room p (q ++ s) = some n) :
    p = .inside := by
  obtain ⟨d,hd,hmark⟩ := hq.outside
  cases q with
  | nil => simp at hd
  | cons c q =>
    obtain ⟨hu,hescape,hhex⟩ := hq.escaped c rfl
    cases p with
    | outside =>
      rw [room_outside hq.plain hd hmark] at hn
      exact nomatch hn
    | inside => rfl
    | escaped => simp [room,hu,hescape] at hn
    | hex more => simp [room,hhex] at hn

/-- Text of any kind in front of it: what is not plain of it takes more than it has room for. -/
lemma keeps_any (hq : Guard q) (t s : List Char) (p : Place) (n : ℕ)
    (hn : room p (t ++ (q ++ s)) = some n) : ∃ k, room .inside s = some k ∧
      n ≤ t.length+q.length+k ∧ (p = .inside → ¬t.all Spells.plain → n < t.length+q.length+k) := by
  induction t generalizing p n with
  | nil =>
    obtain rfl := hq.place_inside hn
    obtain ⟨k,hk,hle,-⟩ := Keeps.plain hq.plain s n hn
    exact ⟨k,hk,by simpa using hle,by simp⟩
  | cons c t ih =>
    rw [List.cons_append] at hn
    cases p with
    | outside =>
      rw [room] at hn
      split_ifs at hn
      · obtain ⟨k,hk,hle,-⟩ := ih _ n hn
        exact ⟨k,hk,by rw [List.length_cons]; omega,by simp⟩
      · obtain ⟨k,hk,hle,-⟩ := ih _ n hn
        exact ⟨k,hk,by rw [List.length_cons]; omega,by simp⟩
    | inside =>
      rw [room] at hn
      split_ifs at hn with hquote hback
      · obtain ⟨k,hk,hle,-⟩ := ih _ n hn
        exact ⟨k,hk,by rw [List.length_cons]; omega,fun _ _ => by rw [List.length_cons]; omega⟩
      · obtain ⟨k,hk,hle,-⟩ := ih _ n hn
        exact ⟨k,hk,by rw [List.length_cons]; omega,fun _ _ => by rw [List.length_cons]; omega⟩
      · obtain ⟨m,hm,rfl⟩ := Option.map_eq_some_iff.mp hn
        obtain ⟨k,hk,hle,hlt⟩ := ih _ m hm
        refine ⟨k,hk,by rw [List.length_cons]; omega,fun _ hnot => ?_⟩
        have := hlt rfl (by simpa [Spells.plain,hquote,hback] using hnot)
        rw [List.length_cons]
        omega
    | escaped =>
      rw [room] at hn
      split_ifs at hn
      · obtain ⟨k,hk,hle,-⟩ := ih _ n hn
        exact ⟨k,hk,by rw [List.length_cons]; omega,by simp⟩
      · obtain ⟨m,hm,rfl⟩ := Option.map_eq_some_iff.mp hn
        obtain ⟨k,hk,hle,-⟩ := ih _ m hm
        exact ⟨k,hk,by rw [List.length_cons]; omega,by simp⟩
    | hex more =>
      cases more with
      | zero =>
        rw [room] at hn
        split_ifs at hn
        obtain ⟨m,hm,rfl⟩ := Option.map_eq_some_iff.mp hn
        obtain ⟨k,hk,hle,-⟩ := ih _ m hm
        exact ⟨k,hk,by rw [List.length_cons]; omega,by simp⟩
      | succ more =>
        rw [room] at hn
        split_ifs at hn
        obtain ⟨k,hk,hle,-⟩ := ih _ n hn
        exact ⟨k,hk,by rw [List.length_cons]; omega,by simp⟩

lemma keeps (hq : Guard q) (t : List Char) :
    Keeps .inside (t ++ q) (t.length+q.length) (t.all Spells.plain) := by
  intro s n hn
  rw [List.append_assoc] at hn
  obtain ⟨k,hk,hle,hlt⟩ := hq.keeps_any t s .inside n hn
  exact ⟨k,hk,hle,hlt rfl⟩

end Guard

/-- A text of a value, read as it where it is plain, and with no room for it elsewhere. -/
structure Written (t : List Char) (v : Json) (plain : Prop) : Prop where
  reads : plain → Reads t v
  keeps : Keeps .outside t (weight v) plain

namespace Written

variable {t : List Char} {v : Json} {a b : Prop}

lemma iff (h : Written t v a) (hab : a ↔ b) : Written t v b := by
  rwa [← propext hab]

lemma marks_blank {b : List Char} (hb : b.all blank) : ∀ c ∈ b, mark c ∧ c ≠ '"' := by
  intro c hc
  exact mark_of_blank c (by simp only [List.all_eq_true] at hb; exact hb c hc)

lemma blanks {s : List Char} (hs : s.all blank) (h : Written t v a) : Written (s ++ t) v a where
  reads ha := .blanks hs (h.reads ha)
  keeps := by
    have := (Keeps.marks (marks_blank hs)).append h.keeps
    rw [Nat.zero_add] at this
    exact this.iff (by simp)

lemma null : Written "null".toList .null True where
  reads _ := .null
  keeps := .marks (by simp [mark])

lemma bool (x : Bool) : Written (toString x).toList (.bool x) True where
  reads _ := .bool x
  keeps := by cases x <;> exact .marks (by simp [toString,mark])

lemma number (n : Numeral) : Written n.text (.number n.value) True where
  reads _ := .number n
  keeps := .marks fun c hc => mark_of_numeric c (numeric_of_text n c hc)

lemma string {u : List Char} (hspells : a → Spells t u) (hkeeps : Keeps .inside t u.length a) :
    Written ('"' :: (t ++ ['"'])) (.string (.ofList u)) a where
  reads ha := .string (hspells ha)
  keeps := by
    have hweight : weight (.string (.ofList u)) = u.length := by simp [weight]
    rw [hweight]
    exact hkeeps.string

end Written

/-- The room of all the members. -/
def membersRoom (xs : List Member) : ℕ := (xs.map fun x => x.key.length+weight x.value).sum

lemma weightMembers_insert {m : List (String × Json)} {k : String} (hk : k ∉ m.map Prod.fst)
    (v : Json) : weightMembers (insert m k v) = weightMembers m+(k.length+weight v) := by
  induction m with
  | nil => simp [insert,weightMembers]
  | cons kv m ih =>
    simp only [List.map_cons,List.mem_cons,not_or] at hk
    rw [insert,if_neg hk.1]
    split_ifs
    · simp only [weightMembers]
      omega
    · simp only [weightMembers,ih hk.2]
      omega

lemma mem_keys_insert {m : List (String × Json)} {k x : String} {v : Json}
    (hx : x ∈ (insert m k v).map Prod.fst) : x = k ∨ x ∈ m.map Prod.fst := by
  induction m with
  | nil => simpa [insert] using hx
  | cons kv m ih =>
    simp only [insert] at hx
    split_ifs at hx
    · simp only [List.map_cons,List.mem_cons] at hx ⊢
      exact hx.imp_right .inr
    · simpa using hx
    · simp only [List.map_cons,List.mem_cons] at hx ⊢
      rcases hx with hx | hx
      · exact .inr (.inl hx)
      · exact (ih hx).imp_right .inr

lemma weightMembers_foldl {xs : List Member} (hkeys : (xs.map Member.key).Nodup)
    {m : List (String × Json)} (hm : ∀ x ∈ xs, x.key ∉ m.map Prod.fst) :
    weightMembers (xs.foldl (fun m x => insert m x.key x.value) m) =
      weightMembers m+membersRoom xs := by
  induction xs generalizing m with
  | nil => simp [membersRoom]
  | cons x xs ih =>
    rw [List.map_cons,List.nodup_cons] at hkeys
    have hrest : ∀ y ∈ xs, y.key ∉ (insert m x.key x.value).map Prod.fst := by
      intro y hy hmem
      rcases mem_keys_insert hmem with heq | hmem
      · exact hkeys.1 (List.mem_map.mpr ⟨y,hy,heq⟩)
      · exact hm y (by simp [hy]) hmem
    rw [List.foldl_cons,ih hkeys.2 hrest,weightMembers_insert (hm x (by simp))]
    simp only [membersRoom,List.map_cons,List.sum_cons]
    omega

lemma weight_membersValue {xs : List Member} (hkeys : (xs.map Member.key).Nodup) :
    weight (membersValue xs) = membersRoom xs := by
  rw [membersValue,ofMembers,List.foldl_map,weight,weightMembers_foldl hkeys (by simp),weightMembers,
    Nat.zero_add]

/-- Commas stand between texts and have no room in them. -/
lemma Keeps.commas {α : Type} {f : α → List Char} {w : α → ℕ} {a : α → Prop} {xs : List α}
    (hxs : ∀ x ∈ xs, Keeps .outside (f x) (w x) (a x)) :
    Keeps .outside ([','].intercalate (xs.map f)) (xs.map w).sum (∀ x ∈ xs, a x) := by
  induction xs with
  | nil => exact (Keeps.marks (by simp)).iff (by simp)
  | cons x xs ih =>
    have hx := hxs x (by simp)
    cases xs with
    | nil => exact (by simpa using hx)
    | cons y ys =>
      have hcomma : Keeps .outside [','] 0 True := .one (by simp [mark])
      have hall := (hx.append hcomma).append (ih fun z hz => hxs z (by simp [hz]))
      rw [List.map_cons,List.map_cons,List.intercalate_cons_cons,← List.map_cons]
      rw [Nat.add_zero] at hall
      exact hall.iff (by simp)

lemma Member.keeps {x : Member} (hblank : x.before.toList.all Parser.blank)
    (hkey : x.key.toList.all Spells.plain) (hx : Written x.text.toList x.value x.plain) :
    Keeps .outside x.chars (x.key.length+weight x.value) x.plain := by
  have hall := ((((Keeps.marks (Written.marks_blank hblank)).append (Keeps.plain hkey).string).append
    (.one (c := ':') (by simp [mark]))).append hx.keeps)
  simpa [Member.chars,String.length_toList] using hall

/-- A member that is framed as the reader expects it. -/
structure Framed extends Member where
  blank_before : before.toList.all blank
  plain_key : key.toList.all Spells.plain
  written : Written text.toList value plain

/-- The text behind a key and a blank. -/
def framed (before key : String) {text : String} {v : Json} {p : Prop} (h : Written text.toList v p)
    (hbefore : before.toList.all blank) (hkey : key.toList.all Spells.plain) : Framed where
  before := before
  key := key
  text := " " ++ text
  value := v
  plain := p
  blank_before := hbefore
  plain_key := hkey
  written := by
    rw [String.toList_append]
    exact h.blanks rfl

theorem Written.object (xs : List Framed) (after : String) (hne : xs ≠ [])
    (hkeys : (xs.map fun x => x.key).Nodup) (hafter : after.toList.all blank) :
    Written (objectText (xs.map Framed.toMember) after) (membersValue (xs.map Framed.toMember))
      (∀ x ∈ xs, x.plain) where
  reads hplain := by
    refine .object (by simpa using hne) ?_ hafter
    intro y hy
    obtain ⟨x,hx,rfl⟩ := List.mem_map.mp hy
    exact ⟨x.blank_before,x.plain_key,x.written.reads (hplain x hx)⟩
  keeps := by
    have hmembers : Keeps .outside ([','].intercalate ((xs.map Framed.toMember).map Member.chars))
        (membersRoom (xs.map Framed.toMember)) (∀ x ∈ xs, x.plain) := by
      have hall := Keeps.commas fun x (hx : x ∈ xs) =>
        Member.keeps x.blank_before x.plain_key x.written
      simpa [membersRoom,Function.comp_def] using hall
    have hall := ((Keeps.one (c := '{') (by simp [mark])).append hmembers).append
      ((Keeps.marks (Written.marks_blank hafter)).append (.one (c := '}') (by simp [mark])))
    rw [weight_membersValue (by simpa [Function.comp_def] using hkeys)]
    simpa [objectText] using hall

/-- An item as it is written, behind its blanks, and what it is read as, if it is. -/
structure Item where
  text : List Char
  value : Json
  plain : Prop

lemma weightItems_map (xs : List Item) :
    weightItems (xs.map Item.value) = (xs.map fun x => weight x.value).sum := by
  induction xs with
  | nil => rfl
  | cons x xs ih => simp [weightItems,ih]

theorem Written.array (xs : List Item) (after : String)
    (hxs : ∀ x ∈ xs, Written x.text x.value x.plain) (hafter : after.toList.all blank) :
    Written (arrayText (xs.map Item.text) after) (.array (xs.map Item.value)) (∀ x ∈ xs, x.plain) where
  reads hplain := by
    refine .array ?_ hafter
    rw [List.forall₂_map_left_iff,List.forall₂_map_right_iff,List.forall₂_same]
    exact fun x hx => (hxs x hx).reads (hplain x hx)
  keeps := by
    have hitems := Keeps.commas fun x hx => (hxs x hx).keeps
    have hall := ((Keeps.one (c := '[') (by simp [mark])).append hitems).append
      ((Keeps.marks (Written.marks_blank hafter)).append (.one (c := ']') (by simp [mark])))
    simpa [arrayText,weight,weightItems_map] using hall

end Unemups4.Json.Parser

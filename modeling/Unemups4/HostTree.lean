import Mathlib

/-! A tree of files, directories and symbolic links, and the walk of a path in it. A location is
the list of names from the root. Links are followed up to a limit. -/
namespace Unemups4.HostTree

abbrev Location := List String

/-- A name that a directory can list. -/
def IsName (part : String) : Prop := part ≠ "" ∧ part ≠ "." ∧ part ≠ ".."

instance (part : String) : Decidable (IsName part) := inferInstanceAs (Decidable (_ ∧ _))

inductive Entry where
  | file
  | dir
  | link (absolute : Bool) (parts : List String)
  deriving DecidableEq, Repr

/-- The entries below the root; what holds an entry is a directory. -/
structure Tree where
  entries : List (Location × Entry)
  nonempty : ∀ e ∈ entries, e.1 ≠ []
  named : ∀ e ∈ entries, ∀ name ∈ e.1, IsName name
  closed : ∀ e ∈ entries, e.1.dropLast = [] ∨ entries.lookup e.1.dropLast = some .dir

namespace Tree

variable (tree : Tree)

def entry (loc : Location) : Option Entry := if loc = [] then some .dir else tree.entries.lookup loc

/-- The names that a directory lists. -/
def names (loc : Location) : List String :=
  tree.entries.filterMap fun e => if e.1.dropLast = loc then e.1.getLast? else none

end Tree

/-- Where a walk ends: at an entry, at a name that is missing in a directory, or nowhere. -/
inductive Reached where
  | found (loc : Location)
  | missing (loc : Location)
  | failed
  deriving DecidableEq, Repr

/-- The walk up to the next link, which is followed by what is given for it. -/
def walkParts (entry : Location → Option Entry) (follow : Location → List String → Reached) :
    Location → List String → Reached
  | cur,[] => .found cur
  | cur,part :: rest =>
      if part = "" ∨ part = "." then walkParts entry follow cur rest
      else if part = ".." then walkParts entry follow cur.dropLast rest
      else
        match entry (cur ++ [part]) with
        | none => if rest = [] then .missing (cur ++ [part]) else .failed
        | some .dir => walkParts entry follow (cur ++ [part]) rest
        | some .file => if rest = [] then .found (cur ++ [part]) else .failed
        | some (.link absolute parts) => follow (if absolute then [] else cur) (parts ++ rest)

/-- The walk that may follow some number of links. -/
def walk (entry : Location → Option Entry) : (links : ℕ) → Location → List String → Reached
  | 0 => walkParts entry fun _ _ => .failed
  | links+1 => walkParts entry (walk entry links)

variable {tree : Tree} {links : ℕ} {cur loc : Location} {parts more : List String} {name : String}

lemma Tree.entry_mem {e : Entry} (h : tree.entry loc = some e) (hne : loc ≠ []) :
    (loc,e) ∈ tree.entries := by
  rw [Tree.entry, if_neg hne] at h
  obtain ⟨before,after,heq,-⟩ := List.lookup_eq_some_iff.mp h
  simp [heq]

/-- What holds an entry is a directory. -/
lemma Tree.entry_dropLast {e : Entry} (h : tree.entry loc = some e) :
    tree.entry loc.dropLast = some .dir := by
  by_cases hne : loc = []
  · rw [hne]
    rfl
  · unfold Tree.entry
    split_ifs with hlast
    · rfl
    · exact (tree.closed _ (tree.entry_mem h hne)).resolve_left hlast

lemma Tree.entry_isName {e : Entry} (h : tree.entry (loc ++ [name]) = some e) : IsName name :=
  tree.named _ (tree.entry_mem h (by simp)) name (by simp)

lemma Tree.entry_parent {e : Entry} (h : tree.entry (loc ++ [name]) = some e) :
    tree.entry loc = some .dir := by
  have hparent := tree.entry_dropLast h
  rwa [List.dropLast_concat] at hparent

/-- What is above an entry is a directory. -/
lemma Tree.entry_above {e : Entry} (h : tree.entry (loc ++ more) = some e) (hmore : more ≠ []) :
    tree.entry loc = some .dir := by
  induction more using List.reverseRecOn generalizing e with
  | nil => exact absurd rfl hmore
  | append_singleton more name ih =>
    rw [← List.append_assoc] at h
    have hparent := tree.entry_parent h
    by_cases hnil : more = []
    · rwa [hnil, List.append_nil] at hparent
    · exact ih hparent hnil

/-- A file or a directory, not a link. -/
def Tree.Settled (tree : Tree) (loc : Location) : Prop :=
  tree.entry loc = some .dir ∨ tree.entry loc = some .file

/-- How the first link of a walk is followed. -/
def follow (entry : Location → Option Entry) : (links : ℕ) → Location → List String → Reached
  | 0 => fun _ _ => .failed
  | links+1 => walk entry links

lemma walk_eq_walkParts {entry : Location → Option Entry} :
    walk entry links = walkParts entry (follow entry links) := by
  cases links <;> rfl

section Parts

variable {entry : Location → Option Entry} {next : Location → List String → Reached}
  {part : String} {rest : List String}

lemma part_cases (part : String) : (part = "" ∨ part = ".") ∨ part = ".." ∨ IsName part := by
  by_cases hblank : part = "" ∨ part = "."
  · exact .inl hblank
  · by_cases hup : part = ".."
    · exact .inr (.inl hup)
    · exact .inr (.inr ⟨fun h => hblank (.inl h),fun h => hblank (.inr h),hup⟩)

lemma walkParts_blank (h : part = "" ∨ part = ".") :
    walkParts entry next cur (part :: rest) = walkParts entry next cur rest := if_pos h

lemma walkParts_name (h : IsName part) : walkParts entry next cur (part :: rest) =
    match entry (cur ++ [part]) with
    | none => if rest = [] then .missing (cur ++ [part]) else .failed
    | some .dir => walkParts entry next (cur ++ [part]) rest
    | some .file => if rest = [] then .found (cur ++ [part]) else .failed
    | some (.link absolute parts) => next (if absolute then [] else cur) (parts ++ rest) := by
  obtain ⟨hblank,hdot,hup⟩ := h
  simp only [walkParts, hblank, hdot, hup, or_self, if_false]

end Parts

/-- What a walk finds from a directory is no link, when that holds of what its first link leads
to. -/
lemma walkParts_settled (next : Location → List String → Reached)
    (hnext : ∀ cur parts, tree.entry cur = some .dir → next cur parts = .found loc → tree.Settled loc)
    (h : walkParts tree.entry next cur parts = .found loc) (hcur : tree.entry cur = some .dir) :
    tree.Settled loc := by
  induction parts generalizing cur with
  | nil =>
    obtain rfl := Reached.found.inj h
    exact .inl hcur
  | cons part rest ih =>
    rcases part_cases part with hblank | rfl | hname
    · exact ih (walkParts_blank hblank ▸ h) hcur
    · exact ih h (tree.entry_dropLast hcur)
    · rw [walkParts_name hname] at h
      cases hentry : tree.entry (cur ++ [part]) with
      | none =>
        rw [hentry] at h
        by_cases hlast : rest = [] <;> simp [hlast] at h
      | some e =>
        rw [hentry] at h
        cases e with
        | dir => exact ih h hentry
        | link absolute parts =>
          refine hnext _ _ ?_ h
          split_ifs
          · rfl
          · exact hcur
        | file =>
          by_cases hlast : rest = [] <;> simp only [hlast, if_true, if_false] at h
          · obtain rfl := Reached.found.inj h
            exact .inr hentry
          · cases h

lemma walk_settled (h : walk tree.entry links cur parts = .found loc)
    (hcur : tree.entry cur = some .dir) : tree.Settled loc := by
  induction links generalizing cur parts with
  | zero => exact walkParts_settled (follow tree.entry 0) (fun _ _ _ h => by cases h) h hcur
  | succ links ih => exact walkParts_settled _ (fun _ _ hcur h => ih h hcur) h hcur

/-- A walk that goes on after a directory goes on from there, with the links that are left. -/
lemma walkParts_append (links : ℕ)
    (hfollow : ∀ cur parts, follow tree.entry links cur parts = .found loc →
      ∃ links', ∀ more,
        follow tree.entry links cur (parts ++ more) = walk tree.entry links' loc more)
    (h : walkParts tree.entry (follow tree.entry links) cur parts = .found loc)
    (hloc : tree.entry loc = some .dir) :
    ∃ links', ∀ more, walkParts tree.entry (follow tree.entry links) cur (parts ++ more) =
      walk tree.entry links' loc more := by
  induction parts generalizing cur with
  | nil =>
    obtain rfl := Reached.found.inj h
    exact ⟨links,fun more => by rw [walk_eq_walkParts]; rfl⟩
  | cons part rest ih =>
    rcases part_cases part with hblank | rfl | hname
    · obtain ⟨links',heq⟩ := ih (walkParts_blank hblank ▸ h)
      exact ⟨links',fun more => (walkParts_blank hblank).trans (heq more)⟩
    · exact ih h
    · simp only [List.cons_append, walkParts_name hname] at h ⊢
      cases hentry : tree.entry (cur ++ [part]) with
      | none =>
        rw [hentry] at h
        by_cases hlast : rest = [] <;> simp [hlast] at h
      | some e =>
        rw [hentry] at h
        cases e with
        | dir => exact ih h
        | link absolute parts =>
          obtain ⟨links',heq⟩ := hfollow _ _ h
          exact ⟨links',fun more => by rw [← heq, List.append_assoc]⟩
        | file =>
          by_cases hlast : rest = [] <;> simp only [hlast, if_true, if_false] at h
          · obtain rfl := Reached.found.inj h
            rw [hloc] at hentry
            cases hentry
          · cases h

lemma walk_append (h : walk tree.entry links cur parts = .found loc)
    (hloc : tree.entry loc = some .dir) :
    ∃ links', ∀ more, walk tree.entry links cur (parts ++ more) = walk tree.entry links' loc more := by
  induction links generalizing cur parts with
  | zero => exact walkParts_append 0 (fun _ _ h => by cases h) h hloc
  | succ links ih => exact walkParts_append (links+1) (fun _ _ h => ih h) h hloc

/-- A walk over the names of a directory comes to it. -/
lemma walk_down (cur : Location) {names : List String}
    (h : tree.entry (cur ++ names) = some .dir) :
    walk tree.entry links cur (names ++ more) = walk tree.entry links (cur ++ names) more := by
  induction names generalizing cur with
  | nil => simp
  | cons name rest ih =>
    have hsplit : cur ++ name :: rest = cur ++ [name] ++ rest := by simp
    rw [hsplit] at h ⊢
    have hdir : tree.entry (cur ++ [name]) = some .dir := by
      by_cases hnil : rest = []
      · rwa [hnil, List.append_nil] at h
      · exact tree.entry_above h hnil
    rw [← ih _ h, walk_eq_walkParts, List.cons_append, walkParts_name (tree.entry_isName hdir),
      hdir]

/-- A walk to a file goes down to the directory that holds it. -/
lemma walk_file {rest : List String} (h : tree.entry loc = some .file) :
    walk tree.entry links [] (loc ++ rest) = if rest = [] then .found loc else .failed := by
  rcases List.eq_nil_or_concat loc with rfl | ⟨parent,name,rfl⟩
  · cases h
  · rw [List.concat_eq_append] at h ⊢
    rw [List.append_assoc, walk_down [] (tree.entry_parent h), List.nil_append,
      walk_eq_walkParts, List.singleton_append, walkParts_name (tree.entry_isName h), h]

/-- A walk over a file's or a directory's own names finds it. -/
theorem walk_location (h : tree.Settled loc) : walk tree.entry links [] loc = .found loc := by
  rw [← List.append_nil loc]
  rcases h with hdir | hfile
  · rw [walk_down [] hdir, walk_eq_walkParts]
    simp [walkParts]
  · rw [walk_file hfile, if_pos rfl, List.append_nil]

/-- A walk to a name that is missing leads there or nowhere. -/
theorem walk_missing {rest : List String} (h : tree.entry (loc ++ [name]) = none) (hname : IsName name)
    (hloc : tree.Settled loc) {l : Location}
    (hwalk : walk tree.entry links [] (loc ++ name :: rest) = .found l ∨
      walk tree.entry links [] (loc ++ name :: rest) = .missing l) : l = loc ++ name :: rest := by
  rcases hloc with hdir | hfile
  · rw [walk_down [] hdir, List.nil_append, walk_eq_walkParts, walkParts_name hname, h] at hwalk
    by_cases hlast : rest = [] <;> simp [hlast] at hwalk
    rw [← hwalk, hlast]
  · rw [walk_file hfile, if_neg (by simp)] at hwalk
    rcases hwalk with hwalk | hwalk <;> cases hwalk

section Extend

variable {entry entry' : Location → Option Entry}

/-- More entries lose nothing that a walk found. -/
lemma walkParts_mono {next next' : Location → List String → Reached}
    (hentry : ∀ loc e, entry loc = some e → entry' loc = some e)
    (hnext : ∀ cur parts, next cur parts = .found loc → next' cur parts = .found loc)
    (h : walkParts entry next cur parts = .found loc) :
    walkParts entry' next' cur parts = .found loc := by
  induction parts generalizing cur with
  | nil => exact h
  | cons part rest ih =>
    rcases part_cases part with hblank | rfl | hname
    · rw [walkParts_blank hblank] at h ⊢
      exact ih h
    · exact ih h
    · rw [walkParts_name hname] at h ⊢
      cases he : entry (cur ++ [part]) with
      | none =>
        rw [he] at h
        by_cases hlast : rest = [] <;> simp [hlast] at h
      | some e =>
        rw [he] at h
        rw [hentry _ _ he]
        cases e with
        | dir => exact ih h
        | link absolute parts => exact hnext _ _ h
        | file => exact h

lemma walk_mono (hentry : ∀ loc e, entry loc = some e → entry' loc = some e)
    (h : walk entry links cur parts = .found loc) : walk entry' links cur parts = .found loc := by
  induction links generalizing cur parts with
  | zero =>
    refine walkParts_mono hentry ?_ h
    exact fun _ _ h => by cases h
  | succ links ih => exact walkParts_mono hentry (fun _ _ h => ih h) h

/-- What a walk finds without links it finds with any number of them. -/
lemma walk_of_noLinks (h : walk entry 0 cur parts = .found loc) :
    walk entry links cur parts = .found loc := by
  rw [walk_eq_walkParts]
  refine walkParts_mono (fun _ _ h => h) ?_ h
  exact fun _ _ h => by cases h

/-- A walk finds what it passes, and goes on from there. -/
lemma walkParts_passes (links : ℕ)
    (hfollow : ∀ cur parts, follow entry links cur (parts ++ more) = .found loc →
      ∃ mid links', follow entry links cur parts = .found mid ∧
        walk entry links' mid more = .found loc)
    (h : walkParts entry (follow entry links) cur (parts ++ more) = .found loc) :
    ∃ mid links', walkParts entry (follow entry links) cur parts = .found mid ∧
      walk entry links' mid more = .found loc := by
  induction parts generalizing cur with
  | nil => exact ⟨cur,links,rfl,by rwa [walk_eq_walkParts]⟩
  | cons part rest ih =>
    rw [List.cons_append] at h
    rcases part_cases part with hblank | rfl | hname
    · rw [walkParts_blank hblank] at h ⊢
      exact ih h
    · exact ih h
    · rw [walkParts_name hname] at h ⊢
      cases he : entry (cur ++ [part]) with
      | none =>
        rw [he] at h
        by_cases hlast : rest ++ more = [] <;> simp [hlast] at h
      | some e =>
        rw [he] at h
        cases e with
        | dir => exact ih h
        | link absolute parts =>
          dsimp only at h ⊢
          rw [← List.append_assoc] at h
          exact hfollow _ _ h
        | file =>
          by_cases hlast : rest ++ more = []
          · obtain ⟨rfl,rfl⟩ := List.append_eq_nil_iff.mp hlast
            obtain rfl := Reached.found.inj h
            exact ⟨_,links,rfl,by rw [walk_eq_walkParts]; rfl⟩
          · simp [hlast] at h

lemma walk_passes (h : walk entry links cur (parts ++ more) = .found loc) :
    ∃ mid links', walk entry links cur parts = .found mid ∧ walk entry links' mid more = .found loc := by
  induction links generalizing cur parts with
  | zero => exact walkParts_passes 0 (fun _ _ h => by cases h) h
  | succ links ih => exact walkParts_passes (links+1) (fun _ _ h => ih h) h

/-- Blank parts lead nowhere else. -/
lemma walk_blanks (h : ∀ part ∈ parts, part = "" ∨ part = ".") :
    walk entry links cur parts = .found cur := by
  rw [walk_eq_walkParts]
  induction parts with
  | nil => rfl
  | cons part rest ih =>
    rw [walkParts_blank (h part (by simp))]
    exact ih fun part' hpart' => h part' (List.mem_cons_of_mem _ hpart')

/-- The tree with a directory at every place where there is nothing. -/
def Tree.filled (tree : Tree) (loc : Location) : Option Entry := some ((tree.entry loc).getD .dir)

/-- A tree to which directories were added. -/
def Tree.Grows (tree tree' : Tree) : Prop := ∀ loc,
  tree'.entry loc = tree.entry loc ∨ tree.entry loc = none ∧ tree'.entry loc = some .dir

variable {tree' tree'' : Tree}

lemma Tree.Grows.refl (tree : Tree) : tree.Grows tree := fun _ => .inl rfl

lemma Tree.Grows.trans (h : tree.Grows tree') (h' : tree'.Grows tree'') : tree.Grows tree'' := by
  intro loc
  rcases h loc with heq | ⟨hnone,hdir⟩ <;> rcases h' loc with heq' | ⟨hnone',hdir'⟩
  · exact .inl (heq'.trans heq)
  · exact .inr ⟨heq ▸ hnone',hdir'⟩
  · exact .inr ⟨hnone,heq'.trans hdir⟩
  · rw [hdir] at hnone'
    cases hnone'

end Extend

section Insert

variable {tree' : Tree} {e : Entry}

lemma Tree.Grows.mono (h : tree.Grows tree') (he : tree.entry loc = some e) :
    tree'.entry loc = some e := by
  rcases h loc with heq | ⟨hnone,-⟩
  · rw [heq, he]
  · rw [hnone] at he
    cases he

/-- Directories that are added are where the filled tree has them. -/
lemma Tree.Grows.filled (h : tree.Grows tree') (he : tree'.entry loc = some e) :
    tree.filled loc = some e := by
  unfold Tree.filled
  rcases h loc with heq | ⟨hnone,hdir⟩
  · rw [← heq, he]
    rfl
  · rw [hnone, ← he, hdir]
    rfl

lemma Tree.entry_names (h : tree.entry loc = some e) : ∀ name ∈ loc, IsName name := by
  by_cases hne : loc = []
  · simp [hne]
  · exact tree.named _ (tree.entry_mem h hne)

/-- A directory is put where there is nothing yet. -/
def Tree.Free (tree : Tree) (cur : Location) (name : String) : Prop :=
  tree.entry cur = some .dir ∧ tree.entry (cur ++ [name]) = none ∧ IsName name

instance (cur : Location) (name : String) : Decidable (tree.Free cur name) :=
  inferInstanceAs (Decidable (_ ∧ _ ∧ _))

lemma Tree.Free.named (h : tree.Free cur name) :
    ∀ e ∈ (cur ++ [name],Entry.dir) :: tree.entries, ∀ part ∈ e.1, IsName part := by
  intro e he part hpart
  rcases List.mem_cons.mp he with rfl | he
  · rcases List.mem_append.mp hpart with hpart | hpart
    · exact tree.entry_names h.1 part hpart
    · exact List.mem_singleton.mp hpart ▸ h.2.2
  · exact tree.named e he part hpart

lemma Tree.Free.closed (h : tree.Free cur name) :
    ∀ e ∈ (cur ++ [name],Entry.dir) :: tree.entries, e.1.dropLast = [] ∨
      ((cur ++ [name],Entry.dir) :: tree.entries).lookup e.1.dropLast = some .dir := by
  have hold : ∀ loc, tree.entries.lookup loc = some .dir →
      ((cur ++ [name],Entry.dir) :: tree.entries).lookup loc = some .dir := by
    intro loc hloc
    rw [List.lookup_cons]
    split
    · rfl
    · exact hloc
  intro e he
  rcases List.mem_cons.mp he with rfl | he
  · have hcur := h.1
    unfold Tree.entry at hcur
    rw [List.dropLast_concat]
    split_ifs at hcur with hnil
    · exact .inl hnil
    · exact .inr (hold _ hcur)
  · exact (tree.closed e he).imp_right (hold _)

def Tree.insertDir (tree : Tree) (cur : Location) (name : String) : Tree :=
  if h : tree.Free cur name then
    { entries := (cur ++ [name],.dir) :: tree.entries
      nonempty := by
        intro e he
        rcases List.mem_cons.mp he with rfl | he
        · simp
        · exact tree.nonempty e he
      named := h.named
      closed := h.closed }
  else tree

lemma Tree.entry_insertDir (h : tree.Free cur name) :
    (tree.insertDir cur name).entry loc = if loc = cur ++ [name] then some .dir else tree.entry loc := by
  rw [Tree.insertDir, dif_pos h]
  unfold Tree.entry
  by_cases hnil : loc = []
  · simp [hnil]
  · simp only [if_neg hnil, List.lookup_cons]
    by_cases heq : loc = cur ++ [name]
    · simp [heq]
    · simp [heq, beq_eq_false_iff_ne.mpr heq]

lemma Tree.grows_insertDir (tree : Tree) (cur : Location) (name : String) :
    tree.Grows (tree.insertDir cur name) := by
  by_cases h : tree.Free cur name
  · intro loc
    rw [Tree.entry_insertDir h]
    split_ifs with heq
    · exact .inr ⟨heq ▸ h.2.1,rfl⟩
    · exact .inl rfl
  · rw [Tree.insertDir, dif_neg h]
    exact .refl tree

end Insert

end Unemups4.HostTree

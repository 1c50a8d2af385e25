import Unemups4.SaveSlots
import Unemups4.FileSandbox
import Unemups4.Transition

/-! Save slots over runs of mounts and unmounts. What a name leads to is decided by its text as
long as no link is met, and then it stays below the savedata directory. -/
namespace Unemups4.Files
open HostTree HostPath
open Transition (Reach)

section Make

variable {tree tree' : Tree} {path : HostPath} {loc top : Location}

lemma canonicalize_mono (hgrows : tree.Grows tree') (h : canonicalize tree path = some loc) :
    canonicalize tree' path = some loc := by
  obtain ⟨hstart,hwalk⟩ := canonicalize_eq_some h
  exact canonicalize_of_found _ (hgrows.mono hstart) (walk_mono (fun _ _ => hgrows.mono) hwalk)

lemma isDir_eq_true (h : isDir tree path) : ∃ loc, canonicalize tree path = some loc := by
  unfold isDir at h
  split at h
  · exact ⟨_,‹_›⟩
  · cases h

lemma mkdir_spec (h : mkdir tree path = some tree') : tree.Grows tree' ∧ isDir tree' path := by
  unfold mkdir at h
  split at h
  · cases h
  · rename_i name before hparts
    obtain ⟨cur,hcur,h⟩ := Option.bind_eq_some_iff.mp h
    split_ifs at h with hfree
    obtain rfl := Option.some.inj h
    have hgrows := tree.grows_insertDir cur name
    refine ⟨hgrows,?_⟩
    have hentry : (tree.insertDir cur name).entry (cur ++ [name]) = some .dir := by
      rw [Tree.entry_insertDir hfree, if_pos rfl]
    obtain ⟨hstart,hwalk⟩ := canonicalize_eq_some (canonicalize_mono hgrows hcur)
    obtain ⟨links,hon⟩ := walk_append hwalk (hgrows.mono hfree.1)
    have hsplit : path.parts = before.reverse ++ name ::
        (path.parts.reverse.takeWhile (· = "")).reverse := by
      have heq := congrArg List.reverse (List.takeWhile_append_dropWhile (p := (· = ""))
        (l := path.parts.reverse))
      rw [hparts] at heq
      simpa using heq.symm
    have hblank : ∀ part ∈ (path.parts.reverse.takeWhile (· = "")).reverse, part = "" ∨ part = "." := by
      intro part hpart
      exact .inl (by simpa using List.mem_takeWhile_imp (List.mem_reverse.mp hpart))
    have hfound : walk (tree.insertDir cur name).entry maxLinks path.start path.parts =
        .found (cur ++ [name]) := by
      rw [hsplit, hon, walk_eq_walkParts, walkParts_name hfree.2.2, hentry]
      dsimp only
      rw [← walk_eq_walkParts]
      exact walk_blanks hblank
    rw [isDir, canonicalize_of_found path hstart hfound]
    simp [hentry]

/-- Making directories only adds some, and one that was made is there. -/
lemma createDirAll_spec (fuel : ℕ) (tree : Tree) (path : HostPath) :
    tree.Grows (createDirAll fuel tree path).1 ∧
    ((createDirAll fuel tree path).2 → isDir (createDirAll fuel tree path).1 path) := by
  induction fuel generalizing path with
  | zero => exact ⟨.refl tree,by simp [createDirAll]⟩
  | succ fuel ih =>
    rw [createDirAll]
    cases hmkdir : mkdir tree path with
    | some tree' =>
      obtain ⟨hgrows,hdir⟩ := mkdir_spec hmkdir
      exact ⟨hgrows,fun _ => hdir⟩
    | none =>
      dsimp only
      by_cases hexists : isDir tree path
      · rw [if_pos hexists]
        exact ⟨.refl tree,fun _ => hexists⟩
      · rw [if_neg hexists]
        cases hparent : path.parent with
        | none => exact ⟨.refl tree,by simp⟩
        | some above =>
          obtain ⟨hgrows,-⟩ := ih above
          dsimp only
          generalize createDirAll fuel tree above = made at hgrows
          obtain ⟨mid,ok⟩ := made
          cases ok with
          | false => exact ⟨hgrows,by simp⟩
          | true =>
            dsimp only at hgrows ⊢
            cases hmkdir' : mkdir mid path with
            | none => exact ⟨hgrows,fun h => h⟩
            | some tree' =>
              obtain ⟨hgrows',hdir⟩ := mkdir_spec hmkdir'
              exact ⟨hgrows.trans hgrows',fun _ => hdir⟩

/-- Without links a walk goes where the text says. -/
lemma walk_collapse {entry : Location → Option Entry} {comps : List (List Char)} {out res : List String}
    (hfold : comps.foldlM pushComponent out = some res)
    (hwalk : walk entry 0 (top ++ out) (comps.map String.ofList) = .found loc) : loc = top ++ res := by
  rw [walk_eq_walkParts] at hwalk
  induction comps generalizing out with
  | nil =>
    obtain rfl := Option.some.inj hfold
    exact (Reached.found.inj hwalk).symm
  | cons comp comps ih =>
    rw [List.foldlM_cons] at hfold
    obtain ⟨next,hpush,hfold⟩ := Option.bind_eq_some_iff.mp hfold
    rw [List.map_cons] at hwalk
    unfold pushComponent at hpush
    split_ifs at hpush with hblank hup hout
    · obtain rfl := Option.some.inj hpush
      have hpart : String.ofList comp = "" ∨ String.ofList comp = "." := by
        rcases hblank with rfl | rfl
        · exact .inl rfl
        · exact .inr rfl
      rw [walkParts_blank hpart] at hwalk
      exact ih hfold hwalk
    · obtain rfl := Option.some.inj hpush
      rw [hup] at hwalk
      refine ih hfold ?_
      rw [← List.dropLast_append_of_ne_nil hout]
      exact hwalk
    · obtain rfl := Option.some.inj hpush
      have hname : IsName (String.ofList comp) := by
        refine ⟨fun h => hblank (.inl ?_),fun h => hblank (.inr ?_),fun h => hup ?_⟩
        all_goals simpa using congrArg String.toList h
      rw [walkParts_name hname] at hwalk
      rw [List.append_assoc] at hwalk
      cases hentry : entry (top ++ (out ++ [String.ofList comp])) with
      | none =>
        rw [hentry] at hwalk
        by_cases hlast : comps.map String.ofList = [] <;> simp [hlast] at hwalk
      | some e =>
        rw [hentry] at hwalk
        cases e with
        | dir => exact ih hfold hwalk
        | link absolute parts => cases hwalk
        | file =>
          cases comps with
          | nil =>
            obtain rfl := Option.some.inj hfold
            exact (Reached.found.inj hwalk).symm
          | cons _ _ => simp at hwalk

end Make

/-- A host path names a directory below another one. -/
def StrictlyBeneath (tree : Tree) (root dir : HostPath) : Prop :=
  ∃ top loc, canonicalize tree root = some top ∧ canonicalize tree dir = some loc ∧
    top <+: loc ∧ top ≠ loc

/-- A name that stays below where it starts: it is not absolute, it collapses to something, without
climbing above the start, and no link is met on the way from the directory. -/
structure StaysBelow (tree : Tree) (root : HostPath) (name : String) : Prop where
  relative : ¬isAbsolute name
  collapses : ∃ comp comps, normalizeRelative name.toList = some (comp :: comps)
  unlinked : ∀ top, walk tree.filled maxLinks root.start root.parts = .found top →
    ∃ loc, walk tree.filled 0 top (partsOf name) = .found loc

inductive SaveCall where
  | mount (dirName : String) (requestedBlocks : ℕ)
  | umount (point : String)
  deriving DecidableEq, Repr

/-- The guest prefixes that are mounted apart from the slots. -/
def bootPrefixes : List String :=
  ["/app0","/system","/app0/mono/4.5","/app0/lib/mono/4.5","/temp0"]

namespace SaveState

def step (s : SaveState) : SaveCall → Option SaveState
  | .mount dirName requestedBlocks => some (s.savedataMount dirName requestedBlocks).1
  | .umount point => some (s.savedataUmount point).1

structure Initial (s : SaveState) : Prop where
  mounts : ∀ m ∈ s.mounts, m.guest ∈ bootPrefixes
  slots : s.slots = []

/-- Live slots have names and mount points of their own, their host directories lie below the
savedata directory, and what is resolved under a mount point lies in the slot's directory. -/
structure Separated (s : SaveState) : Prop where
  names : ∀ a ∈ s.slots, ∀ b ∈ s.slots, a.name = b.name → a = b
  points : ∀ a ∈ s.slots, ∀ b ∈ s.slots, a.point = b.point → a = b
  mounted : ∀ slot ∈ s.slots, ∃ m ∈ s.mounts, m.guest = slot.point
  beneath : ∀ slot ∈ s.slots, ∀ m ∈ s.mounts, m.guest = slot.point →
    StrictlyBeneath s.tree slot.root m.root
  confined : ∀ slot ∈ s.slots, ∀ guestPath, mountPrefixMatches guestPath slot.point →
    ∀ loc, resolve s.tree s.mounts guestPath = some loc →
      ∃ own, canonicalize s.tree slot.dir = some own ∧ own <+: loc

/-- A name that is mounted stays below the savedata directory, which is still the one that it was
mounted in before. -/
def Kept (s : SaveState) : SaveCall → Prop
  | .mount dirName _ => ∀ root, s.savedataRoot = some root →
      StaysBelow s.tree root dirName ∧ ∀ slot ∈ s.slots, slot.name = dirName → slot.root = root
  | .umount _ => True

end SaveState

section Beneath

variable {tree tree' : Tree} {root dir : HostPath} {name : String}

lemma StrictlyBeneath.mono (h : StrictlyBeneath tree root dir) (hgrows : tree.Grows tree') :
    StrictlyBeneath tree' root dir := by
  obtain ⟨top,loc,htop,hloc,hsub,hne⟩ := h
  exact ⟨top,loc,canonicalize_mono hgrows htop,canonicalize_mono hgrows hloc,hsub,hne⟩

/-- A directory that was made for a name that stays below lies below. -/
lemma StaysBelow.beneath (h : StaysBelow tree root name) (hgrows : tree.Grows tree')
    (hdir : isDir tree' (root.join name)) : StrictlyBeneath tree' root (root.join name) := by
  obtain ⟨hrelative,⟨comp,comps,hcollapse⟩,hunlinked⟩ := h
  obtain ⟨loc,hloc⟩ := isDir_eq_true hdir
  have hjoin : root.join name = root.extend (partsOf name) := if_neg hrelative
  rw [hjoin] at hloc ⊢
  obtain ⟨hstart,hwalk⟩ := canonicalize_eq_some hloc
  rw [HostPath.extend] at hwalk
  obtain ⟨top,links,htop,hon⟩ := walk_passes hwalk
  have hfilled : ∀ loc e, tree'.entry loc = some e → tree.filled loc = some e :=
    fun _ _ => hgrows.filled
  obtain ⟨loc',hunlinked⟩ := hunlinked top (walk_mono hfilled htop)
  have hsame : loc' = loc :=
    Reached.found.inj ((walk_of_noLinks hunlinked).symm.trans (walk_mono hfilled hon))
  have hbelow : loc = top ++ comp :: comps := by
    rw [← hsame]
    rw [← List.append_nil top] at hunlinked
    exact walk_collapse hcollapse hunlinked
  refine ⟨top,loc,canonicalize_of_found _ hstart htop,hloc,hbelow ▸ List.prefix_append _ _,?_⟩
  rw [hbelow]
  simp

end Beneath

section Points

variable {slots : List Slot} {idx : ℕ} {guestPath : String}

lemma mountPoint_toList (idx : ℕ) :
    (mountPoint idx).toList = "/savedata".toList ++ Nat.toDigits 10 idx := by
  rw [mountPoint, String.toList_append, Nat.toList_repr]

lemma mountPoint_inj {i j : ℕ} (h : mountPoint i = mountPoint j) : i = j := by
  have hlist := congrArg String.toList h
  rw [mountPoint_toList, mountPoint_toList] at hlist
  refine Nat.repr_injective (String.toList_inj.mp ?_)
  rw [Nat.toList_repr, Nat.toList_repr]
  exact List.append_cancel_left hlist

/-- The scan ends at a free point unless all that it passes are live. -/
lemma firstFree_spec (slots : List Slot) (fuel idx : ℕ) :
    ∃ found, firstFree slots fuel idx = mountPoint found ∧
    (mountPoint found ∉ slots.map Slot.point ∨
      found = idx+fuel ∧ ∀ j, idx ≤ j → j < found → mountPoint j ∈ slots.map Slot.point) := by
  induction fuel generalizing idx with
  | zero => exact ⟨idx,rfl,.inr ⟨rfl,fun j hle hlt => by omega⟩⟩
  | succ fuel ih =>
    rw [firstFree]
    split_ifs with hlive
    · obtain ⟨found,heq,hfree | ⟨hend,hall⟩⟩ := ih (idx+1)
      · exact ⟨found,heq,.inl hfree⟩
      · refine ⟨found,heq,.inr ⟨by omega,fun j hle hlt => ?_⟩⟩
        by_cases hj : j = idx
        · exact hj ▸ hlive
        · exact hall j (by omega) hlt
    · exact ⟨idx,rfl,.inl hlive⟩

/-- There are more points than live slots, so a free one is found. -/
lemma firstFree_free (slots : List Slot) : ∃ idx, firstFree slots slots.length 0 = mountPoint idx ∧
    mountPoint idx ∉ slots.map Slot.point := by
  obtain ⟨found,heq,hfree | ⟨hend,hall⟩⟩ := firstFree_spec slots slots.length 0
  · exact ⟨found,heq,hfree⟩
  · refine ⟨found,heq,fun hlive => ?_⟩
    have hnodup : ((List.range (found+1)).map mountPoint).Nodup :=
      List.Nodup.map (fun _ _ => mountPoint_inj) List.nodup_range
    have hsub : (List.range (found+1)).map mountPoint ⊆ slots.map Slot.point := by
      intro point hpoint
      obtain ⟨j,hj,rfl⟩ := List.mem_map.mp hpoint
      by_cases hlast : j = found
      · exact hlast ▸ hlive
      · exact hall j (Nat.zero_le _) (by have hlt := List.mem_range.mp hj; omega)
    have hlen := (List.subperm_of_subset hnodup hsub).length_le
    simp only [List.length_map, List.length_range] at hlen
    omega

lemma mountPrefixMatches_spec {p : String} (h : mountPrefixMatches guestPath p) :
    ∃ rest, guestPath.toList = p.toList ++ rest ∧
      (rest = [] ∨ rest.head? = some '/' ∨ p.toList.getLast? = some '/') := by
  unfold mountPrefixMatches stripPrefix at h
  split_ifs at h with hsub
  · obtain ⟨rest,hrest⟩ := hsub
    refine ⟨rest,hrest.symm,?_⟩
    have hdrop : guestPath.toList.drop p.length = rest := by
      rw [← hrest, ← String.length_toList, List.drop_left]
    simpa [hdrop] using h

/-- Of two prefixes of one path without slashes at their ends the longer one goes on with a slash. -/
lemma matches_cases {a b : String} (ha : mountPrefixMatches guestPath a)
    (hb : mountPrefixMatches guestPath b) (hend : a.toList.getLast? ≠ some '/')
    (hend' : b.toList.getLast? ≠ some '/') :
    a = b ∨ (∃ rest, b.toList = a.toList ++ '/' :: rest) ∨ ∃ rest, a.toList = b.toList ++ '/' :: rest := by
  have hnext : ∀ {rest more next : List Char}, rest = next ++ more → (rest = [] ∨ rest.head? = some '/') →
      next = [] ∨ ∃ others, next = '/' :: others := by
    intro rest more next heq h
    cases next with
    | nil => exact .inl rfl
    | cons c others =>
      subst heq
      refine .inr ⟨others,?_⟩
      simp at h
      rw [h]
  obtain ⟨rest,hrest,hbound⟩ := mountPrefixMatches_spec ha
  obtain ⟨rest',hrest',hbound'⟩ := mountPrefixMatches_spec hb
  have hslash : rest = [] ∨ rest.head? = some '/' := by tauto
  have hslash' : rest' = [] ∨ rest'.head? = some '/' := by tauto
  rcases List.append_eq_append_iff.mp (hrest.symm.trans hrest') with ⟨next,hb,heq⟩ | ⟨next,ha,heq⟩
  · rcases hnext heq hslash with rfl | ⟨others,rfl⟩
    · exact .inl (String.toList_inj.mp (by simpa using hb.symm))
    · exact .inr (.inl ⟨others,hb⟩)
  · rcases hnext heq hslash' with rfl | ⟨others,rfl⟩
    · exact .inl (String.toList_inj.mp (by simpa using ha))
    · exact .inr (.inr ⟨others,ha⟩)

lemma slash_not_mem (idx : ℕ) : '/' ∉ Nat.toDigits 10 idx := by
  intro h
  have hdigit := Nat.isDigit_of_mem_toDigits (by decide) (by decide) h
  exact absurd hdigit (by decide)

lemma mountPoint_slashes (idx : ℕ) : (mountPoint idx).toList.count '/' = 1 := by
  rw [mountPoint_toList, List.count_append, List.count_eq_zero.mpr (slash_not_mem idx)]
  decide

lemma mountPoint_end (idx : ℕ) : (mountPoint idx).toList.getLast? ≠ some '/' := by
  rw [mountPoint_toList, List.getLast?_append]
  intro h
  cases hlast : (Nat.toDigits 10 idx).getLast? with
  | none =>
    rw [hlast] at h
    exact absurd h (by decide)
  | some c =>
    rw [hlast] at h
    obtain rfl := Option.some.inj h
    exact slash_not_mem idx (List.mem_of_getLast? hlast)

/-- A path under a mount point is under no other one, and under none of the other prefixes. -/
lemma matches_mountPoint {p : String} (h : mountPrefixMatches guestPath (mountPoint idx))
    (hp : mountPrefixMatches guestPath p) : p ∉ bootPrefixes ∧ ∀ j, p = mountPoint j → j = idx := by
  constructor
  · intro hboot
    obtain ⟨rest,hrest,-⟩ := mountPrefixMatches_spec h
    obtain ⟨rest',hrest',-⟩ := mountPrefixMatches_spec hp
    have hstart : ∀ q ∈ bootPrefixes, 3 ≤ q.toList.length ∧ q.toList.take 3 ≠ "/sa".toList := by decide
    obtain ⟨hlen,hne⟩ := hstart p hboot
    have htake := congrArg (List.take 3) (hrest.symm.trans hrest')
    rw [mountPoint_toList, List.take_append_of_le_length hlen] at htake
    exact hne htake.symm
  · rintro j rfl
    rcases matches_cases h hp (mountPoint_end idx) (mountPoint_end j) with heq | ⟨rest,heq⟩ | ⟨rest,heq⟩
    · exact (mountPoint_inj heq).symm
    · have hcount := congrArg (List.count '/') heq
      rw [List.count_append, List.count_cons, mountPoint_slashes, mountPoint_slashes] at hcount
      simp at hcount
    · have hcount := congrArg (List.count '/') heq
      rw [List.count_append, List.count_cons, mountPoint_slashes, mountPoint_slashes] at hcount
      simp at hcount

end Points

lemma mem_mount {mounts : List Mount} {guest : String} {root : HostPath} {m : Mount} :
    m ∈ mount mounts guest root ↔ m = ⟨guest,root⟩ ∨ m ∈ mounts := by
  rw [mount, List.mem_insertionSort, List.mem_append, List.mem_singleton, or_comm]

namespace SaveState

/-- The slots are those that the file system has mounted, one for each name and each point. -/
structure Tidy (s : SaveState) : Prop where
  names : ∀ a ∈ s.slots, ∀ b ∈ s.slots, a.name = b.name → a = b
  points : ∀ a ∈ s.slots, ∀ b ∈ s.slots, a.point = b.point → a = b
  formed : ∀ slot ∈ s.slots, ∃ idx, slot.point = mountPoint idx
  mounted : ∀ slot ∈ s.slots, (⟨slot.point,slot.dir⟩ : Mount) ∈ s.mounts
  known : ∀ m ∈ s.mounts, m.guest ∈ bootPrefixes ∨ ∃ slot ∈ s.slots, m = ⟨slot.point,slot.dir⟩
  beneath : ∀ slot ∈ s.slots, StrictlyBeneath s.tree slot.root slot.dir

variable {s s' : SaveState}

/-- The mount under a live point's prefix is the slot's. -/
lemma Tidy.mount_eq (h : Tidy s) {slot : Slot} (hslot : slot ∈ s.slots) {m : Mount} (hm : m ∈ s.mounts)
    {guestPath : String} (hpath : mountPrefixMatches guestPath slot.point)
    (hmatches : mountPrefixMatches guestPath m.guest) : m.root = slot.dir := by
  obtain ⟨idx,hpoint⟩ := h.formed slot hslot
  obtain ⟨hboot,hsame⟩ := matches_mountPoint (hpoint ▸ hpath) hmatches
  rcases h.known m hm with hm | ⟨slot',hslot',rfl⟩
  · exact absurd hm hboot
  · obtain ⟨idx',hpoint'⟩ := h.formed slot' hslot'
    obtain rfl := hsame idx' hpoint'
    rw [h.points slot hslot slot' hslot' (hpoint.trans hpoint'.symm)]

lemma matches_self (guestPath : String) : mountPrefixMatches guestPath guestPath := by
  simp [mountPrefixMatches, stripPrefix, ← String.length_toList]

lemma Tidy.separated (h : Tidy s) : Separated s := by
  refine ⟨h.names,h.points,fun slot hslot => ⟨_,h.mounted slot hslot,rfl⟩,?_,?_⟩
  · intro slot hslot m hm hguest
    rw [h.mount_eq hslot hm (matches_self _) (hguest ▸ matches_self _)]
    exact h.beneath slot hslot
  · intro slot hslot guestPath hpath loc hloc
    obtain ⟨idx,hpoint⟩ := h.formed slot hslot
    have habsolute : ¬isRelative guestPath := by
      obtain ⟨rest,hrest,-⟩ := mountPrefixMatches_spec hpath
      rw [hpoint, mountPoint_toList] at hrest
      simp [isRelative, hrest]
    rw [resolve_eq] at hloc
    obtain ⟨offer,hoffer,rfl⟩ := Option.map_eq_some_iff.mp hloc
    rw [servedFor, if_neg habsolute, Option.or_none] at hoffer
    obtain ⟨m,hm,hoffer⟩ := served_offer hoffer
    obtain ⟨hmatches,hcontained⟩ := offer_contained hoffer
    obtain ⟨top,htop,hsub,-⟩ := contain_eq_some hcontained
    rw [h.mount_eq hslot hm hpath hmatches] at htop
    exact ⟨top,htop,hsub⟩

/-- A name gets the mount point that it has, or else a free one. -/
lemma Tidy.alloc (h : Tidy s) (name : String) :
    (∃ idx, allocSavedataMountPoint s.slots name = mountPoint idx) ∧
    ∀ slot ∈ s.slots, slot.name = name ∨ slot.point = allocSavedataMountPoint s.slots name →
      slot.name = name ∧ slot.point = allocSavedataMountPoint s.slots name := by
  unfold allocSavedataMountPoint
  cases hfind : s.slots.find? fun slot => slot.name = name with
  | none =>
    obtain ⟨idx,heq,hfree⟩ := firstFree_free s.slots
    refine ⟨⟨idx,heq⟩,fun slot hslot hor => ?_⟩
    rcases hor with hname | hpoint
    · have hnone := List.find?_eq_none.mp hfind slot hslot
      exact absurd hname (by simpa using hnone)
    · have hpoint' : slot.point = mountPoint idx := hpoint.trans heq
      exact absurd (hpoint' ▸ List.mem_map_of_mem hslot) hfree
  | some live =>
    have hlive := List.mem_of_find?_eq_some hfind
    have hname : live.name = name := by simpa using List.find?_some hfind
    refine ⟨h.formed live hlive,fun slot hslot hor => ?_⟩
    obtain rfl : slot = live := by
      rcases hor with hname' | hpoint
      · exact h.names slot hslot live hlive (hname'.trans hname.symm)
      · exact h.points slot hslot live hlive hpoint
    exact ⟨hname,rfl⟩

/-- A slot is put among the others, or back to its place. -/
lemma Tidy.insert (h : Tidy s) {tree : Tree} (new : Slot) (hgrows : s.tree.Grows tree)
    (hold : ∀ slot ∈ s.slots, slot.name = new.name ∨ slot.point = new.point → slot = new)
    (hformed : ∃ idx, new.point = mountPoint idx) (hbeneath : StrictlyBeneath tree new.root new.dir) :
    Tidy ⟨tree,mount s.mounts new.point new.dir,
      new :: s.slots.filter fun slot => slot.point ≠ new.point⟩ := by
  have hmem : ∀ slot, slot ∈ new :: s.slots.filter (fun slot => slot.point ≠ new.point) ↔
      slot = new ∨ slot ∈ s.slots := by
    intro slot
    rw [List.mem_cons, List.mem_filter]
    refine or_congr_right' fun hne => and_iff_left_of_imp fun hslot => ?_
    simpa using fun hpoint => hne (hold slot hslot (.inr hpoint))
  constructor
  · intro a ha b hb heq
    rcases (hmem a).mp ha with rfl | ha' <;> rcases (hmem b).mp hb with rfl | hb'
    · rfl
    · exact (hold b hb' (.inl heq.symm)).symm
    · exact hold a ha' (.inl heq)
    · exact h.names a ha' b hb' heq
  · intro a ha b hb heq
    rcases (hmem a).mp ha with rfl | ha' <;> rcases (hmem b).mp hb with rfl | hb'
    · rfl
    · exact (hold b hb' (.inr heq.symm)).symm
    · exact hold a ha' (.inr heq)
    · exact h.points a ha' b hb' heq
  · intro slot hslot
    rcases (hmem slot).mp hslot with rfl | hslot
    · exact hformed
    · exact h.formed slot hslot
  · intro slot hslot
    rcases (hmem slot).mp hslot with rfl | hslot
    · exact mem_mount.mpr (.inl rfl)
    · exact mem_mount.mpr (.inr (h.mounted slot hslot))
  · intro m hm
    rcases mem_mount.mp hm with rfl | hm
    · exact .inr ⟨new,(hmem new).mpr (.inl rfl),rfl⟩
    · exact (h.known m hm).imp_right fun ⟨slot,hslot,heq⟩ => ⟨slot,(hmem slot).mpr (.inr hslot),heq⟩
  · intro slot hslot
    rcases (hmem slot).mp hslot with rfl | hslot
    · exact hbeneath
    · exact (h.beneath slot hslot).mono hgrows

lemma Tidy.grow (h : Tidy s) {tree : Tree} (hgrows : s.tree.Grows tree) : Tidy { s with tree := tree } :=
  { h with beneath := fun slot hslot => (h.beneath slot hslot).mono hgrows }

/-- Taking a slot out takes its mounts out, and no other slot's. -/
lemma Tidy.remove (h : Tidy s) (point : String) :
    Tidy ⟨s.tree,unmount s.mounts point,s.slots.filter fun slot => slot.point ≠ point⟩ := by
  have hsub : ∀ slot ∈ s.slots.filter (fun slot => slot.point ≠ point),
      slot ∈ s.slots ∧ slot.point ≠ point :=
    fun slot hslot => by simpa using List.mem_filter.mp hslot
  constructor
  · exact fun a ha b hb => h.names a (hsub a ha).1 b (hsub b hb).1
  · exact fun a ha b hb => h.points a (hsub a ha).1 b (hsub b hb).1
  · exact fun slot hslot => h.formed slot (hsub slot hslot).1
  · intro slot hslot
    obtain ⟨hslot,hne⟩ := hsub slot hslot
    exact List.mem_filter.mpr ⟨h.mounted slot hslot,by simpa using hne⟩
  · intro m hm
    obtain ⟨hm,hne⟩ := List.mem_filter.mp hm
    refine (h.known m hm).imp_right fun ⟨slot,hslot,heq⟩ => ⟨slot,List.mem_filter.mpr ⟨hslot,?_⟩,heq⟩
    rw [heq] at hne
    simpa using hne
  · exact fun slot hslot => h.beneath slot (hsub slot hslot).1

lemma Tidy.step (h : Tidy s) {call : SaveCall} (hkept : Kept s call)
    (hstep : step s call = some s') : Tidy s' := by
  cases call with
  | umount point =>
    obtain rfl := Option.some.inj hstep
    unfold savedataUmount
    split_ifs
    · exact h.remove point
    · exact h
  | mount name blocks =>
    obtain rfl := Option.some.inj hstep
    unfold savedataMount
    cases hroot : s.savedataRoot with
    | none => exact h
    | some root =>
      obtain ⟨hstays,hsame⟩ := hkept root hroot
      have hmade : ∀ made : Tree × Bool, (if isDir s.tree (root.join name) then (s.tree,true)
          else createDirAll ((root.join name).parts.length+1) s.tree (root.join name)) = made →
          s.tree.Grows made.1 ∧ (made.2 → isDir made.1 (root.join name)) := by
        rintro made rfl
        split_ifs with hexists
        · exact ⟨.refl _,fun _ => hexists⟩
        · exact createDirAll_spec _ _ _
      dsimp only
      split
      · rename_i tree heq
        exact h.grow (hmade _ heq).1
      · rename_i tree heq
        obtain ⟨hgrows,hdir⟩ := hmade _ heq
        obtain ⟨hformed,hold⟩ := h.alloc name
        refine h.insert ⟨allocSavedataMountPoint s.slots name,name,root⟩ hgrows ?_ hformed
          (hstays.beneath hgrows (hdir rfl))
        intro slot hslot hor
        obtain ⟨hname,hpoint⟩ := hold slot hslot hor
        have hroot := hsame slot hslot hname
        cases slot
        simp_all

/-- In runs that mount such names the slots are separated and confined. -/
theorem kept_separated (hs : Reach step Initial Kept s) : Separated s := by
  have htidy : Tidy s := by
    apply hs.invariant
    · intro s hs
      constructor <;> simp only [hs.slots, List.not_mem_nil, false_implies, implies_true]
      exact fun m hm => .inl (hs.mounts m hm)
    · exact fun s call s' h hkept hstep => h.step hkept hstep
  exact htidy.separated

/-- A title's directory, mounted for the guest. -/
def title : SaveState :=
  ⟨⟨[(["t"],.dir),(["t","eboot.bin"],.file)],by decide,by decide,by decide⟩,[⟨"/app0",⟨[],["t"]⟩⟩],[]⟩

lemma initial_title : Initial title := ⟨by decide,rfl⟩

lemma savedataRoot_title : title.savedataRoot = some ⟨[],["t","savedata"]⟩ := by decide +kernel

theorem kept_separated_title : Separated (title.savedataMount "A/B" 0).1 := by
  refine kept_separated (.step (l := .mount "A/B" 0) (.start initial_title) ?_ rfl)
  intro root hroot
  obtain rfl := Option.some.inj (savedataRoot_title.symm.trans hroot)
  refine ⟨⟨by decide +kernel,⟨"A",["B"],by decide +kernel⟩,?_⟩,by simp [title]⟩
  intro top htop
  have hwalk : walk title.tree.filled maxLinks [] ["t","savedata"] = .found ["t","savedata"] := by
    decide +kernel
  obtain rfl := Reached.found.inj (hwalk.symm.trans htop)
  exact ⟨["t","savedata","A","B"],by decide +kernel⟩

/-- The name of two dots mounts the title's own directory. -/
theorem not_separated_dots : ¬∀ s, Reach step Initial (fun _ _ => True) s → Separated s := by
  intro h
  have hs : Reach step Initial (fun _ _ => True) (title.savedataMount ".." 0).1 :=
    .step (l := .mount ".." 0) (.start initial_title) trivial rfl
  obtain ⟨top,loc,htop,hloc,hsub,-⟩ := (h _ hs).beneath ⟨"/savedata0","..",⟨[],["t","savedata"]⟩⟩
    (by decide +kernel) ⟨"/savedata0",⟨[],["t","savedata",".."]⟩⟩ (by decide +kernel) rfl
  have hroot : canonicalize (title.savedataMount ".." 0).1.tree ⟨[],["t","savedata"]⟩ =
      some ["t","savedata"] := by decide +kernel
  have hdir : canonicalize (title.savedataMount ".." 0).1.tree ⟨[],["t","savedata",".."]⟩ =
      some ["t"] := by decide +kernel
  obtain rfl := Option.some.inj (hroot.symm.trans htop)
  obtain rfl := Option.some.inj (hdir.symm.trans hloc)
  exact absurd hsub (by decide)

end SaveState

end Unemups4.Files
